import Mathlib.Tactic.IntervalCases
import Nachos.Hospital.ClinicRuns
import Nachos.Hospital.CounterRuns

namespace Nachos.Hospital
open Monitor Tally Rendezvous

variable {n : Counts}

-- The cashiers' counter. The tray is patient_cashier_bucket.
def cashiers (n : Counts) : Counter n n.cashiersCount CashierLocals Int where
  here := .cashiers
  lineLock := .cashierLineLock
  deskLock := .cashierLock
  paymentLock := .cashierPaymentLock
  breakCv := .cashierBreakCv
  lineEmptyCv := .cashierLineEmptyCv
  deskCv := .cashierCv
  clerk := .cashier
  pc s := s.cashier
  books s := ⟨s.cashiers.line,s.cashiers.patientCashierBucket,s.cashiers.totalCashierFee⟩
  visit
    | .cashier pc => some pc
    | _ => none
  early
    | .reception _ | .door _ | .exam _ => true
    | _ => false
  posting me _ := me.myPatientToken
  answering s token :=
    if token = -2 then none
    else (tokenIndex token).map fun entry =>
      (⟨token,s.exam.patientConsultancyFee entry⟩,s.exam.patientConsultancyFee entry)
  paying _ := -2
  recording tray := tray
  due tray := tray
  collected about _ := about.totalConsultationFee
  token about := about.myPatientToken
  price s p := ((tokenIndex (s.patient p).myPatientToken).map s.exam.patientConsultancyFee).getD 0
  fair := by
    intro s p tray about tray' answered
    split at answered
    · cases answered
    · obtain ⟨entry,index,same⟩ := Option.map_eq_some_iff.mp answered
      cases same
      simp [index]
  paper
    | .feePaid p i fee => some (i,.paid p fee)
    | .feeRecorded i token fee => some (i,.recorded token fee)
    | _ => none
  clerk_inj i j same := by simpa using same
  clerk_patient i p := by simp
  desk_line i := by simp
  held_clerk s i := rfl
  site_clerk s i := rfl
  held_visit := by
    intro place at_ here
    split at here <;> cases here
    rfl
  site_visit := by
    intro place at_ here
    split at here <;> cases here
    rfl
  lock_desk i := rfl
  lock_line := rfl
  sleeps_line := by
    intro s u sleeping
    obtain ⟨p,rfl,place⟩ := sleeping_sleeper sleeping
    exact ⟨p,rfl,by simp [place]⟩
  sleeps_desk := by
    intro s u i sleeping
    rcases sleeping_sleeper sleeping with clerk | ⟨p,rfl,place⟩
    · exact Or.inl clerk
    · exact Or.inr ⟨p,rfl,by simp [place]⟩
  station_line := rfl
  station_desk i := rfl
  home_clerk s i := rfl
  visit_home := by
    intro place at_ here
    split at here <;> cases here
    rfl
  visit_away := by
    intro place away
    split
    · rename_i at_
      have starts := away rfl
      cases at_ <;> simp_all [PatientPc.starts]
    · exact Or.inl rfl
  paper_home := by
    intro event away
    cases event <;> simp_all [eventStation]
  apart := by
    rintro b (rfl | rfl | rfl | rfl) <;> simp
  frame := by
    intro s s' draw t op events changes away
    obtain ⟨data,clerks⟩ := cashiers_elsewhere changes away
    refine ⟨clerks,by rw [data],?_⟩
    rintro p rfl
    have moves := patient_home changes
    simp only [home] at away
    cases before : (s.patient p).pc <;> cases after : (s'.patient p).pc <;>
      simp_all [PatientPc.home,Station.next]

namespace Cashiers

def books (data : CashierData n) : Books n.cashiersCount Int :=
  ⟨data.line,data.patientCashierBucket,data.totalCashierFee⟩

section
variable {s s' : State n} {asleep asleep' : ThreadId n → Bool}

-- A cashier goes on with its patient as the bucket says: it is full until the
-- patient has paid, and empty afterwards.
theorem clerk_moves (told : ∀ about, s.cashier i = .answerSignalled about → s.cashiers.patientCashierBucket i ≠ -2)
    (left : ∀ about, s.cashier i = .answerWaited about → s.cashiers.patientCashierBucket i = -2)
    (ran : cashier i s.exam.patientConsultancyFee s.cashiers (s.cashier i) = .ok (data,next,op,events)) :
    ∃ label papers, (cashiers n).ClerkMoves s i (s.cashier i) (books data) next op label papers ∧
      events.filterMap (cashiers n).paper = papers := by
  unfold cashier at ran
  dsimp only at ran
  split at ran <;> rename_i place
  · cases ran
    rw [place]
    exact ⟨_,_,.comes,rfl⟩
  · split at ran <;> rename_i empty
    · cases ran
      rw [place]
      exact ⟨_,_,.breaks empty,rfl⟩
    · cases ran
      rw [place]
      exact ⟨_,_,.opens (Or.inl rfl),rfl⟩
  · cases ran
    rw [place]
    exact ⟨_,_,.opens (Or.inr rfl),rfl⟩
  · cases ran
    rw [place]
    exact ⟨_,_,.enters,rfl⟩
  · cases ran
    rw [place]
    exact ⟨_,_,.leavesLine,rfl⟩
  · cases ran
    rw [place]
    exact ⟨_,_,.rests,rfl⟩
  · split at ran
    · cases ran
    · rename_i set
      split at ran
      · cases ran
      · rename_i entry index
        cases ran
        rw [place]
        refine ⟨_,_,.answers ?_,rfl⟩
        simp only [cashiers,if_neg set,index,Option.map_some]
  · rename_i about
    rw [if_pos (told about place)] at ran
    cases ran
    rw [place]
    exact ⟨_,_,.lingers,rfl⟩
  · rename_i about
    rw [if_neg (not_not.mpr (left about place))] at ran
    cases ran
    rw [place]
    exact ⟨_,_,.collects,rfl⟩
  · rename_i about
    cases ran
    have records := @Counter.ClerkMoves.records _ _ _ _ (cashiers n) s i about
    have same : Function.update ((cashiers n).books s).tray i ((cashiers n).recording (((cashiers n).books s).tray i)) =
        ((cashiers n).books s).tray := Function.update_eq_self _ _
    rw [same] at records
    rw [place]
    exact ⟨_,_,records,rfl⟩
  · cases ran
    rw [place]
    exact ⟨_,_,.closes,rfl⟩

theorem visit_moves (place : (s.patient p).pc = .cashier at_)
    (ran : patientCashier p s.cashiers (s.patient p) at_ = .ok (data,me,op,events)) :
    ∃ label papers, (cashiers n).VisitMoves s p at_ (books data) ((cashiers n).visit me.pc) op label papers ∧
      events.filterMap (cashiers n).paper = papers ∧
      ((cashiers n).visit me.pc = none → (cashiers n).early me.pc = false) := by
  unfold patientCashier at ran
  dsimp only at ran
  split at ran
  · cases ran
    exact ⟨_,_,.comes,rfl,by simp [cashiers]⟩
  · split at ran <;> rename_i empty
    · cases ran
      exact ⟨_,_,.joins empty,rfl,by simp [cashiers]⟩
    · split at ran
      · cases ran
      · rename_i line d claimed
        cases ran
        obtain ⟨free,rfl⟩ := claim_some claimed
        have claims := Counter.VisitMoves.claims (c := cashiers n) (p := p) (s := s) (d := d) free
        rw [show s.cashiers.line.lineLength + 1 - 1 = s.cashiers.line.lineLength by omega]
        exact ⟨_,_,claims,rfl,by simp [cashiers]⟩
  · split at ran <;> rename_i empty
    · cases ran
      exact ⟨_,_,.again empty,rfl,by simp [cashiers]⟩
    · split at ran
      · cases ran
      · rename_i line d claimed
        cases ran
        obtain ⟨free,rfl⟩ := claim_some claimed
        exact ⟨_,_,.claimsAfter (c := cashiers n) (s := s) free,rfl,by simp [cashiers]⟩
  · cases ran
    exact ⟨_,_,.arrives,rfl,by simp [cashiers]⟩
  · cases ran
    exact ⟨_,_,.calls,rfl,by simp [cashiers]⟩
  · cases ran
    exact ⟨_,_,.posts,rfl,by simp [cashiers]⟩
  · cases ran
    exact ⟨_,_,.leaves,rfl,by simp [cashiers]⟩
  · cases ran
    exact ⟨_,_,.goes,rfl,by simp [cashiers]⟩

theorem fresh_examined (had : (cashiers n).fresh s p = false) : Clinic.examined (s.patient p).pc = true := by
  simp only [Counter.fresh,cashiers] at had
  cases place : (s.patient p).pc <;> simp_all [Clinic.examined,Counter.freshOf]

theorem steady (before : (program n).Runs history asleep s) (after : (program n).Runs history' asleep' s')
    (changes : Changes s draw t s' op events) (had : (cashiers n).fresh s p = false) : (cashiers n).Steady s s' p := by
  have past := fresh_examined had
  obtain ⟨entry,index,_⟩ := (Clinic.runs_examined before past).2.2.1
  have same := Clinic.examined_steady before after changes past
  have tokens : (s'.patient p).myPatientToken = (s.patient p).myPatientToken := same.tokens
  have fee : s'.exam.patientConsultancyFee entry = s.exam.patientConsultancyFee entry := same.fee entry index
  refine ⟨fun _ => tokens,fun _ => ?_,?_,tokens⟩
  · simp only [cashiers,index,Option.map_some,fee]
  · simp only [cashiers,tokens,index,Option.map_some,fee]

section
variable {holder : Fin n.cashiersCount → Holder (Fin n.numberOfPatients)}

-- The fee lies in the bucket until the patient pays.
theorem told (path : (program n).Runs history asleep s) (ledger : (cashiers n).Ledger s asleep papers holder)
    (place : s.cashier i = .answerSignalled about) : s.cashiers.patientCashierBucket i ≠ -2 := by
  obtain ⟨p,held⟩ : ∃ p, holder i = .client p .answered := by
    simpa [Counter.view,cashiers,place,Counter.serverOf,Fits] using ledger.joint.fits i
  have past := fresh_examined (ledger.joint.turn p i (by simp [held,Holder.patron]))
  obtain ⟨low,_,⟨entry,index,fee⟩,_⟩ := Clinic.runs_examined path past
  have desk := ledger.desk i
  rw [held] at desk
  obtain ⟨old,b,_,answered⟩ := desk
  simp only [cashiers,index,Option.map_some] at answered
  split at answered
  · cases answered
  · have bucket : s.exam.patientConsultancyFee entry = s.cashiers.patientCashierBucket i :=
      (Prod.mk.inj (Option.some.inj answered)).2
    omega

theorem left (ledger : (cashiers n).Ledger s asleep papers holder) (awake : asleep (.cashier i) = false)
    (place : s.cashier i = .answerWaited about) : s.cashiers.patientCashierBucket i = -2 := by
  obtain ⟨p,held⟩ : ∃ p, holder i = .client p .leaving ∨ holder i = .gone p := by
    simpa [Counter.view,cashiers,place,awake,Counter.serverOf,Fits] using ledger.joint.fits i
  have desk := ledger.desk i
  rcases held with held | held
  all_goals
    rw [held] at desk
    obtain ⟨_,_,_,_,_,paid⟩ := desk
    exact paid

theorem moved (path : (program n).Runs history asleep s) (ledger : (cashiers n).Ledger s asleep papers holder)
    (ready : (program n).Ready s asleep t) (changes : Changes s draw t s' op events)
    (sleeps : (program n).Sleeps s t asleep op woken asleep') (here : home s t = .cashiers) :
    (cashiers n).Moved s asleep s' asleep' events := by
  cases changes with
  | cashier ran =>
    obtain ⟨label,papers,moves,written⟩ := clerk_moves (fun _ => told path ledger) (fun _ => left ledger ready.awake) ran
    exact Counter.clerk_moved (c := cashiers n) ready moves rfl rfl sleeps written
  | atCashier place ran =>
    obtain ⟨label,papers,moves,written,late⟩ := visit_moves place ran
    exact Counter.visit_moved (c := cashiers n) ready (by rw [place]; rfl) moves rfl late rfl rfl sleeps written
  | receptionist | doorboy | doctor | pharmacist | manager => simp [home] at here
  | atReception place | atDoor place | atExam place | atPharmacy place | leaving place =>
    simp [home,place,PatientPc.home] at here

end

theorem runs_ledger (path : (program n).Runs history asleep s) :
    ∃ holder, (cashiers n).Ledger s asleep (fun d => (cashiers n).log d history) holder :=
  Counter.runs_ledger (Counter.initial_ledger rfl rfl rfl rfl rfl)
    (fun before after changes _ had => steady before after changes had)
    (fun path ledger ready changes sleeps here => moved path ledger ready changes sleeps here) path

-- The price of a visit is the number of the sickness: doctors put it into
-- patient_consultancy_fee, and nobody reads consultation_cost.
theorem charged_diagnosis (path : (program n).Runs history asleep s)
    (present : .paid p fee ∈ (cashiers n).log i history) : fee = (s.patient p).myPatientDiagnosis ∧ 0 ≤ fee ∧ fee ≤ 4 := by
  obtain ⟨holder,ledger⟩ := runs_ledger path
  obtain ⟨had,price⟩ := ledger.paid present
  obtain ⟨low,high,⟨entry,index,same⟩,_⟩ := Clinic.runs_examined path (fresh_examined had)
  have is : fee = (s.patient p).myPatientDiagnosis := by
    rw [price,← same]
    simp [cashiers,index]
  exact ⟨is,by omega,by omega⟩

end

-- Patients pay what consultation_cost says about their diagnosis, and the total
-- is what the patients whose payment was recorded had to pay.
def ChargedConsultation (m : Machine (ThreadId n) (LockId n) (ConditionId n) (State n) (Event n)) : Prop :=
  (∀ i p fee, .paid p fee ∈ (cashiers n).log i m.history →
    lookup consultationCost (m.state.patient p).myPatientDiagnosis = some fee) ∧
  m.state.cashiers.totalCashierFee =
    sumOver (fun p => (lookup consultationCost (m.state.patient p).myPatientDiagnosis).getD 0) fun p =>
      ∃ i fee, .recorded (m.state.patient p).myPatientToken fee ∈ (cashiers n).log i m.history

-- No sickness has a number that is its consultation fee.
theorem consultationCost_differs (index : Int) (low : 0 ≤ index) (high : index ≤ 4) :
    lookup consultationCost index ≠ some index := by
  interval_cases index <;> decide

theorem consultation_charged_unless_paid (reached : Machine.Reached (program n) m) :
    ChargedConsultation m ↔ ∀ i p fee, .paid p fee ∉ (cashiers n).log i m.history := by
  have path := Machine.reached_runs (disciplined n) reached
  obtain ⟨holder,ledger⟩ := runs_ledger path
  constructor
  · rintro ⟨charged,_⟩ i p fee present
    obtain ⟨is,low,high⟩ := charged_diagnosis path present
    have cost := charged i p fee present
    rw [← is] at cost
    exact consultationCost_differs fee low high cost
  · intro unpaid
    have nothing : ∀ t, ¬∃ i fee, .recorded t fee ∈ (cashiers n).log i m.history := by
      rintro t ⟨i,fee,present⟩
      obtain ⟨p,paid⟩ := ledger.recorded_paid present
      exact unpaid i p fee paid
    refine ⟨fun i p fee present => absurd present (unpaid i p fee),?_⟩
    have total := ledger.collected fun p q had same => (Reception.runs_tokens path).2 p q
      (Reception.runs_served path (Clinic.examined_home (fresh_examined had))) same
    rw [sumOver_empty fun p => nothing _] at total ⊢
    exact total

-- One patient, sick with measles, has paid its fee, and the cashier has recorded it.
def feeCollected :=
  (Machine.initial (program ⟨1,1,1,1,0,1⟩)).prioritised (program ⟨1,1,1,1,0,1⟩) ⟨0,1,1⟩
    (everyone ⟨1,1,1,1,0,1⟩) 106

theorem consultation_charged_nothing_paid :
    (∀ i p fee, .paid p fee ∉ (cashiers ⟨1,1,1,1,0,1⟩).log i (Machine.initial (program ⟨1,1,1,1,0,1⟩)).history) ∧
    ChargedConsultation (Machine.initial (program ⟨1,1,1,1,0,1⟩)) := by
  have unpaid : ∀ i p fee, .paid p fee ∉
      (cashiers ⟨1,1,1,1,0,1⟩).log i (Machine.initial (program ⟨1,1,1,1,0,1⟩)).history := by
    simp [Machine.initial,Counter.log]
  exact ⟨unpaid,(consultation_charged_unless_paid .initial).mpr unpaid⟩

theorem consultation_not_charged :
    Machine.Reached (program ⟨1,1,1,1,0,1⟩) feeCollected ∧ (feeCollected.state.patient 0).myPatientDiagnosis = 1 ∧
    feeCollected.state.cashiers.totalCashierFee = 1 ∧ lookup consultationCost 1 = some 35 ∧
    ¬ChargedConsultation feeCollected := by
  have ran : (feeCollected.state.patient 0).myPatientDiagnosis = 1 ∧ feeCollected.state.cashiers.totalCashierFee = 1 ∧
      (cashiers ⟨1,1,1,1,0,1⟩).log 0 feeCollected.history = [.recorded 0 1,.paid 0 1] := by decide +kernel
  obtain ⟨diagnosis,collected,paid⟩ := ran
  refine ⟨Machine.prioritised_reached .initial _ _ _,diagnosis,collected,by decide,?_⟩
  rintro ⟨charged,_⟩
  have cost := charged 0 0 1 (by rw [paid]; simp)
  rw [diagnosis] at cost
  exact absurd cost (by decide)

end Cashiers
end Nachos.Hospital
