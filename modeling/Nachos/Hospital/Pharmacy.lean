import Nachos.Hospital.ClinicRuns
import Nachos.Hospital.CounterRuns

namespace Nachos.Hospital
open Monitor Tally Rendezvous

variable {n : Counts}

-- The five buckets of a pharmacist.
structure PharmacyTray where
  patientToken : Int
  prescription : Int
  medicine : Int
  bill : Int
  payment : Int

def pharmacy (n : Counts) : Counter n n.numberOfPharmacists PharmacistLocals PharmacyTray where
  here := .pharmacy
  lineLock := .pharmacistLineLock
  deskLock := .pharmacistLock
  paymentLock := .pharmacistPaymentLock
  breakCv := .pharmacistBreakCv
  lineEmptyCv := .pharmacistLineEmptyCv
  deskCv := .pharmacistCv
  clerk := .pharmacist
  pc s := s.pharmacist
  books s :=
    ⟨s.pharmacy.line,
      fun i => ⟨s.pharmacy.toPharmacistPatientTokenBucket i,s.pharmacy.toPharmacistPrescriptionBucket i,
        s.pharmacy.toPatientMedicineBucket i,s.pharmacy.toPatientMedicineBillBucket i,
        s.pharmacy.toPharmacistMedicinePaymentBucket i⟩,
      s.pharmacy.totalPharmacsitMoneyCollected⟩
  visit
    | .pharmacy pc => some pc
    | _ => none
  early
    | .reception _ | .door _ | .exam _ | .cashier _ => true
    | _ => false
  posting me tray := {tray with patientToken := me.myPatientToken, prescription := me.myPatientDiagnosis}
  answering _ tray := match lookup medicines tray.prescription,lookup medicineCosts tray.prescription with
    | some _,some patientMedicineCost =>
      if tray.patientToken = -2 then none
      else some (⟨tray.patientToken⟩,
        {tray with prescription := -2, medicine := tray.prescription, bill := patientMedicineCost})
    | _,_ => none
  paying tray := {tray with medicine := 0, bill := -2, payment := tray.bill}
  recording tray := {tray with payment := -2}
  due tray := tray.bill
  collected _ tray := tray.payment
  token about := about.myPatientToken
  price s p := (lookup medicineCosts (s.patient p).myPatientDiagnosis).getD 0
  fair := by
    intro s p tray about tray' answered
    split at answered
    · rename_i cost
      split at answered
      · cases answered
      · cases answered
        simp [cost]
    · cases answered
  paper
    | .billPaid p i bill => some (i,.paid p bill)
    | .paymentRecorded i token payment => some (i,.recorded token payment)
    | _ => none
  clerk_inj i j same := by simpa using same
  clerk_patient i p := by simp
  desk_line i := by simp
  held_clerk s i := rfl
  site_clerk s i := rfl
  held_visit := by
    intro place at_ here
    split at here <;> cases here
    rfl
  site_visit := by
    intro place at_ here
    split at here <;> cases here
    rfl
  lock_desk i := rfl
  lock_line := rfl
  sleeps_line := by
    intro s u sleeping
    obtain ⟨p,rfl,place⟩ := sleeping_sleeper sleeping
    exact ⟨p,rfl,by simp [place]⟩
  sleeps_desk := by
    intro s u i sleeping
    rcases sleeping_sleeper sleeping with clerk | ⟨p,rfl,place⟩
    · exact Or.inl clerk
    · exact Or.inr ⟨p,rfl,by simp [place]⟩
  station_line := rfl
  station_desk i := rfl
  home_clerk s i := rfl
  visit_home := by
    intro place at_ here
    split at here <;> cases here
    rfl
  visit_away := by
    intro place away
    split
    · rename_i at_
      have starts := away rfl
      cases at_ <;> simp_all [PatientPc.starts]
    · exact Or.inl rfl
  paper_home := by
    intro event away
    cases event <;> simp_all [eventStation]
  apart := by
    rintro b (rfl | rfl | rfl | rfl) <;> simp
  frame := by
    intro s s' draw t op events changes away
    obtain ⟨data,clerks⟩ := pharmacy_elsewhere changes away
    refine ⟨clerks,by rw [data],?_⟩
    rintro p rfl
    have moves := patient_home changes
    simp only [home] at away
    cases before : (s.patient p).pc <;> cases after : (s'.patient p).pc <;>
      simp_all [PatientPc.home,Station.next]

namespace Pharmacy

def tray (data : PharmacyData n) (i : Fin n.numberOfPharmacists) : PharmacyTray :=
  ⟨data.toPharmacistPatientTokenBucket i,data.toPharmacistPrescriptionBucket i,data.toPatientMedicineBucket i,
    data.toPatientMedicineBillBucket i,data.toPharmacistMedicinePaymentBucket i⟩

def books (data : PharmacyData n) : Books n.numberOfPharmacists PharmacyTray :=
  ⟨data.line,tray data,data.totalPharmacsitMoneyCollected⟩

-- One desk changes.
theorem tray_update (data : PharmacyData n) {data' : PharmacyData n} (others : ∀ j, j ≠ i → tray data' j = tray data j) :
    tray data' = Function.update (tray data) i (tray data' i) := by
  funext j
  by_cases same : j = i
  · subst same; simp
  · simp [same,others j same]

section
variable {s s' : State n} {asleep asleep' : ThreadId n → Bool}

theorem clerk_moves (ran : pharmacist i s.pharmacy (s.pharmacist i) = .ok (data,next,op,events)) :
    ∃ label papers, (pharmacy n).ClerkMoves s i (s.pharmacist i) (books data) next op label papers ∧
      events.filterMap (pharmacy n).paper = papers := by
  unfold pharmacist at ran
  dsimp only at ran
  split at ran <;> rename_i place
  · cases ran
    rw [place]
    exact ⟨_,_,.comes,rfl⟩
  · split at ran <;> rename_i empty
    · cases ran
      rw [place]
      exact ⟨_,_,.breaks empty,rfl⟩
    · cases ran
      rw [place]
      exact ⟨_,_,.opens (Or.inl rfl),rfl⟩
  · cases ran
    rw [place]
    exact ⟨_,_,.opens (Or.inr rfl),rfl⟩
  · cases ran
    rw [place]
    exact ⟨_,_,.enters,rfl⟩
  · cases ran
    rw [place]
    exact ⟨_,_,.leavesLine,rfl⟩
  · cases ran
    rw [place]
    exact ⟨_,_,.rests,rfl⟩
  · split at ran
    · rename_i medicine cost medicines costs
      split at ran
      · cases ran
      · rename_i set
        cases ran
        rw [place,books,tray_update s.pharmacy (i := i) (by intro j other; simp [tray,other])]
        refine ⟨_,_,Counter.ClerkMoves.answers (c := pharmacy n) ?_,rfl⟩
        simp only [pharmacy,medicines,costs,if_neg set,tray,Function.update_self]
    · cases ran
  · cases ran
    rw [place]
    exact ⟨_,_,.lingers,rfl⟩
  · cases ran
    rw [place]
    exact ⟨_,_,.collects,rfl⟩
  · rename_i about
    split at ran
    · cases ran
    · cases ran
      have records := @Counter.ClerkMoves.records _ _ _ _ (pharmacy n) s i about
      rw [place,books,tray_update s.pharmacy (i := i) (by intro j other; simp [tray,other])]
      simp only [tray,Function.update_self]
      exact ⟨_,_,records,rfl⟩
  · cases ran
    rw [place]
    exact ⟨_,_,.closes,rfl⟩

theorem visit_moves (place : (s.patient p).pc = .pharmacy at_)
    (ran : patientPharmacy p s.pharmacy (s.patient p) at_ = .ok (data,me,op,events)) :
    ∃ label papers, (pharmacy n).VisitMoves s p at_ (books data) ((pharmacy n).visit me.pc) op label papers ∧
      events.filterMap (pharmacy n).paper = papers ∧
      ((pharmacy n).visit me.pc = none → (pharmacy n).early me.pc = false) := by
  unfold patientPharmacy at ran
  dsimp only at ran
  split at ran
  · cases ran
    exact ⟨_,_,.comes,rfl,by simp [pharmacy]⟩
  · split at ran <;> rename_i empty
    · cases ran
      exact ⟨_,_,.joins empty,rfl,by simp [pharmacy]⟩
    · split at ran
      · cases ran
      · rename_i line d claimed
        cases ran
        obtain ⟨free,rfl⟩ := claim_some claimed
        have claims := Counter.VisitMoves.claims (c := pharmacy n) (p := p) (s := s) (d := d) free
        rw [show s.pharmacy.line.lineLength + 1 - 1 = s.pharmacy.line.lineLength by omega]
        exact ⟨_,_,claims,rfl,by simp [pharmacy]⟩
  · split at ran <;> rename_i empty
    · cases ran
      exact ⟨_,_,.again empty,rfl,by simp [pharmacy]⟩
    · split at ran
      · cases ran
      · rename_i line d claimed
        cases ran
        obtain ⟨free,rfl⟩ := claim_some claimed
        exact ⟨_,_,.claimsAfter (c := pharmacy n) (s := s) free,rfl,by simp [pharmacy]⟩
  · cases ran
    exact ⟨_,_,.arrives,rfl,by simp [pharmacy]⟩
  · cases ran
    exact ⟨_,_,.calls,rfl,by simp [pharmacy]⟩
  · rename_i d
    cases ran
    have posts := Counter.VisitMoves.posts (c := pharmacy n) (s := s) (p := p) (d := d)
    rw [books,tray_update s.pharmacy (i := d) (by intro j other; simp [tray,other])]
    simp only [tray,Function.update_self]
    exact ⟨_,_,posts,rfl,by simp [pharmacy]⟩
  · rename_i d
    cases ran
    have leaves := Counter.VisitMoves.leaves (c := pharmacy n) (s := s) (p := p) (d := d)
    rw [books,tray_update s.pharmacy (i := d) (by intro j other; simp [tray,other])]
    simp only [tray,Function.update_self]
    exact ⟨_,_,leaves,rfl,by simp [pharmacy]⟩
  · cases ran
    exact ⟨_,_,.goes,rfl,by simp [pharmacy]⟩

theorem fresh_examined (had : (pharmacy n).fresh s p = false) : Clinic.examined (s.patient p).pc = true := by
  simp only [Counter.fresh,pharmacy] at had
  cases place : (s.patient p).pc <;> simp_all [Clinic.examined,Counter.freshOf]

theorem steady (changes : Changes s draw t s' op events) (had : (pharmacy n).fresh s p = false) :
    (pharmacy n).Steady s s' p := by
  have past := fresh_examined had
  have tokens := Clinic.tokens_stay changes (Clinic.examined_home past)
  have diagnosis := (Clinic.examined_stays changes past).2
  refine ⟨fun _ => ?_,fun _ => rfl,?_,tokens⟩
  · simp only [pharmacy,tokens,diagnosis]
  · simp only [pharmacy,diagnosis]

theorem moved (ready : (program n).Ready s asleep t) (changes : Changes s draw t s' op events)
    (sleeps : (program n).Sleeps s t asleep op woken asleep') (here : home s t = .pharmacy) :
    (pharmacy n).Moved s asleep s' asleep' events := by
  cases changes with
  | pharmacist ran =>
    obtain ⟨label,papers,moves,written⟩ := clerk_moves ran
    exact Counter.clerk_moved (c := pharmacy n) ready moves rfl rfl sleeps written
  | atPharmacy place ran =>
    obtain ⟨label,papers,moves,written,late⟩ := visit_moves place ran
    exact Counter.visit_moved (c := pharmacy n) ready (by rw [place]; rfl) moves rfl late rfl rfl sleeps written
  | receptionist | doorboy | doctor | cashier | manager => simp [home] at here
  | atReception place | atDoor place | atExam place | atCashier place | leaving place =>
    simp [home,place,PatientPc.home] at here

theorem runs_ledger (path : (program n).Runs history asleep s) :
    ∃ holder, (pharmacy n).Ledger s asleep (fun d => (pharmacy n).log d history) holder :=
  Counter.runs_ledger (Counter.initial_ledger rfl rfl rfl rfl rfl) (fun _ _ changes _ had => steady changes had)
    (fun _ _ ready changes sleeps here => moved ready changes sleeps here) path

end

theorem lookup_some (array : List α) {index : Int} (low : 0 ≤ index) (high : index < array.length) :
    ∃ a, lookup array index = some a := by
  rw [lookup,if_pos low]
  exact ⟨_,List.getElem?_eq_getElem (by omega)⟩

-- Every bill is the price of the patient's own medicine, every payment is taken
-- before the next one is put down, and the total is what the patients whose
-- payment was recorded had to pay.
theorem pharmacy_money (reached : Machine.Reached (program n) m) :
    (∀ i p bill, .paid p bill ∈ (pharmacy n).log i m.history →
      lookup medicineCosts (m.state.patient p).myPatientDiagnosis = some bill) ∧
    (∀ i, Counter.Taken ((pharmacy n).log i m.history) ∨ ∃ p payment older,
      (pharmacy n).log i m.history = .paid p payment :: older ∧ Counter.Taken older ∧
      m.state.pharmacy.toPharmacistMedicinePaymentBucket i = payment) ∧
    m.state.pharmacy.totalPharmacsitMoneyCollected =
      sumOver (fun p => (lookup medicineCosts (m.state.patient p).myPatientDiagnosis).getD 0) fun p =>
        ∃ i payment, .recorded (m.state.patient p).myPatientToken payment ∈ (pharmacy n).log i m.history := by
  have path := Machine.reached_runs (disciplined n) reached
  obtain ⟨holder,ledger⟩ := runs_ledger path
  refine ⟨fun i p bill present => ?_,fun i => ?_,ledger.collected fun p q had same => ?_⟩
  · obtain ⟨had,rfl⟩ := ledger.paid present
    obtain ⟨low,high,_⟩ := Clinic.runs_examined path (fresh_examined had)
    obtain ⟨cost,found⟩ := lookup_some medicineCosts low (by simp [medicineCosts]; omega)
    simp [pharmacy,found]
  · rcases ledger.pending i with taken | ⟨p,payment,older,about,same,taken,_,bucket⟩
    · exact Or.inl taken
    · exact Or.inr ⟨p,payment,older,same,taken,bucket⟩
  · exact (Reception.runs_tokens path).2 p q
      (Reception.runs_served path (Clinic.examined_home (fresh_examined had))) same

-- One patient goes through the whole hospital.
def medicinePaid :=
  (Machine.initial (program ⟨1,1,1,1,1,1⟩)).prioritised (program ⟨1,1,1,1,1,1⟩) ⟨0,1,1⟩
    (everyone ⟨1,1,1,1,1,1⟩) 150

theorem pharmacy_money_one_patient :
    (pharmacy ⟨1,1,1,1,1,1⟩).log 0 medicinePaid.history = [.recorded 0 15,.paid 0 15] ∧
    medicinePaid.state.pharmacy.totalPharmacsitMoneyCollected = 15 ∧
    lookup medicineCosts (medicinePaid.state.patient 0).myPatientDiagnosis = some 15 := by
  have ran : (pharmacy ⟨1,1,1,1,1,1⟩).log 0 medicinePaid.history = [.recorded 0 15,.paid 0 15] ∧
      medicinePaid.state.pharmacy.totalPharmacsitMoneyCollected = 15 := by decide +kernel
  have money := pharmacy_money (m := medicinePaid) (Machine.prioritised_reached .initial _ _ _)
  exact ⟨ran.1,ran.2,money.1 0 0 15 (by rw [ran.1]; simp)⟩

end Pharmacy
end Nachos.Hospital
