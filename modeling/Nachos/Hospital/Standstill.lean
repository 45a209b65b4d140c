import Nachos.Hospital.Cashiers
import Nachos.Hospital.Pharmacy

-- What every station looks like while nobody but the manager can go on: patients
-- that are left stand in a line whose staff is on break.
namespace Nachos.Hospital
open Monitor Tally Rendezvous Turnstile

variable {n : Counts}

-- Everybody but the manager sleeps on a condition or has ended.
def Still (s : State n) (asleep : ThreadId n → Bool) : Prop :=
  ∀ t, t ≠ .hospitalManager → (asleep t = true ∧ ∃ c, site s t = .sleeping c) ∨ site s t = .ended

section
variable {s : State n} {asleep : ThreadId n → Bool}

theorem patient_ended {pc : PatientPc n} (ended : pc.site = .ended) : pc = .leave .finished := by
  cases pc with
  | reception pc => cases pc <;> simp [PatientPc.site] at ended
  | door pc => cases pc <;> simp [PatientPc.site] at ended
  | exam pc => cases pc <;> simp [PatientPc.site] at ended
  | cashier pc => cases pc <;> simp [PatientPc.site,VisitPc.site] at ended
  | pharmacy pc => cases pc <;> simp [PatientPc.site,VisitPc.site] at ended
  | leave pc => cases pc <;> simp [PatientPc.site] at ended ⊢

-- Only patients and the manager end.
theorem ended_finished (ended : site s t = .ended) : (t = .hospitalManager ∧ s.manager = .finished) ∨
    ∃ p, t = .patient p ∧ (s.patient p).pc = .leave .finished := by
  cases t with
  | receptionist r =>
    simp only [site] at ended
    cases pc : s.receptionist r <;> simp [pc,ReceptionistPc.site] at ended
  | doorboy b =>
    simp only [site] at ended
    cases pc : s.doorboy b <;> simp [pc,DoorboyPc.site] at ended
  | doctor d =>
    simp only [site] at ended
    cases pc : s.doctor d <;> simp [pc,DoctorPc.site] at ended
  | cashier i =>
    simp only [site] at ended
    cases pc : s.cashier i <;> simp [pc,ClerkPc.site] at ended
  | pharmacist i =>
    simp only [site] at ended
    cases pc : s.pharmacist i <;> simp [pc,ClerkPc.site] at ended
  | hospitalManager =>
    simp only [site] at ended
    cases pc : s.manager <;> simp [pc,ManagerPc.site] at ended
    exact Or.inl ⟨rfl,rfl⟩
  | patient p => exact Or.inr ⟨p,rfl,patient_ended ended⟩

-- Staff that does not go on sleeps.
theorem Still.staff (still : Still s asleep) (manager : t ≠ .hospitalManager) (staff : ∀ p, t ≠ .patient p) :
    asleep t = true ∧ ∃ c, site s t = .sleeping c := by
  refine (still t manager).resolve_right fun ended => ?_
  rcases ended_finished ended with ⟨same,_⟩ | ⟨p,same,_⟩
  · exact manager same
  · exact staff p same

theorem Still.doorboy (still : Still s asleep) (b : Fin n.doorboysCount) : asleep (.doorboy b) = true ∧
    (s.doorboy b = .lineFullWaited ∨ s.doorboy b = .doctorWaited ∨ s.doorboy b = .readWaited ∨
      s.doorboy b = .breakWaited) := by
  obtain ⟨sleeps,c,place⟩ := still.staff (t := .doorboy b) (by simp) (by simp)
  refine ⟨sleeps,?_⟩
  simp only [site] at place
  cases pc : s.doorboy b <;> simp [pc,DoorboyPc.site] at place ⊢

theorem Still.doctor (still : Still s asleep) (d : Fin n.doctorsCount) : asleep (.doctor d) = true ∧
    (s.doctor d = .patientWaited ∨ s.doctor d = .leaveWaited) := by
  obtain ⟨sleeps,c,place⟩ := still.staff (t := .doctor d) (by simp) (by simp)
  refine ⟨sleeps,?_⟩
  simp only [site] at place
  cases pc : s.doctor d <;> simp [pc,DoctorPc.site] at place ⊢

-- A patient that is left sleeps.
theorem Still.patient (still : Still s asleep) (p : Fin n.numberOfPatients) :
    (asleep (.patient p) = true ∧ ∃ c, (s.patient p).pc.site = .sleeping c) ∨ (s.patient p).pc = .leave .finished :=
  (still (.patient p) (by simp)).imp id patient_ended

end

namespace Reception
variable {s : State n} {asleep : ThreadId n → Bool}

theorem still_called (still : Still s asleep) (called : (view s asleep).stage p = .called r walk) : walk = .waiting := by
  simp only [view] at called
  rcases still.patient p with ⟨sleeps,c,place⟩ | ended
  · revert called place sleeps
    fun_cases stageOf (s.patient p).pc (asleep (.patient p)) <;> simp_all [PatientPc.site]
  · simp [ended,stageOf] at called

-- Every receptionist waits for patients.
theorem still_receptionist (still : Still s asleep) (joint : Joint (view s asleep) walk)
    (r : Fin n.numberOfReceptionists) : s.receptionist r = .lineEmptyWaited := by
  have sleeps : (view s asleep).resting r = true := (still.staff (t := .receptionist r) (by simp) (by simp)).1
  rcases joint.rests r sleeps with waits | waits
  · exact waits
  · have serves := joint.serves r
    simp only [waits,sleeps,Serves] at serves
    obtain ⟨_,q,w,walks,other⟩ := serves
    exact absurd (still_called still ((joint.calls q r w).mpr walks)) other

-- So nobody is left there.
theorem still_reception (path : (program n).Runs history asleep s) (still : Still s asleep)
    (p : Fin n.numberOfPatients) : (s.patient p).pc.home ≠ .reception := by
  intro here
  obtain ⟨⟨walk,joint,_⟩,lengths,_⟩ := runs_hold path
  have waits := still_receptionist still joint
  rcases still.patient p with ⟨sleeps,c,place⟩ | ended
  · cases at_ : (s.patient p).pc with
    | reception pc =>
      cases pc <;> simp [at_,PatientPc.site] at place
      · rename_i r
        have stage : (view s asleep).stage p = .inLine r := by simp [view,at_,sleeps,stageOf]
        have counted : 0 < tally fun q => inLength r ((view s asleep).stage q) :=
          tally_pos.mpr ⟨p,by simp [stage,inLength]⟩
        have empty := lengths.idle r (waits r) (still.staff (t := .receptionist r) (by simp) (by simp)).1
        have length := lengths.length r
        omega
      · rename_i r
        have stage : (view s asleep).stage p = .called r .waiting := by simp [view,at_,sleeps,stageOf]
        have serves := joint.serves r
        rw [(joint.calls p r _).mp stage,show (view s asleep).clerk r = _ from waits r] at serves
        simp [Serves] at serves
    | door | exam | cashier | pharmacy | leave => simp [at_,PatientPc.home] at here
  · simp [ended,PatientPc.home] at here
end Reception

namespace Clinic
variable {s : State n} {asleep : ThreadId n → Bool}

theorem still_client (still : Still s asleep) (here : (view s asleep).client p = some (d,stage)) : stage = .posted := by
  simp only [view] at here
  rcases still.patient p with ⟨sleeps,c,place⟩ | ended
  · revert here place sleeps
    fun_cases clientOf (s.patient p).pc (asleep (.patient p)) <;> simp_all [PatientPc.site]
  · simp [ended,clientOf] at here

theorem still_guest (still : Still s asleep) (p : Fin n.numberOfPatients) :
    (view s asleep).guest p = .away ∨ (view s asleep).guest p = .inLine := by
  simp only [view]
  rcases still.patient p with ⟨sleeps,c,place⟩ | ended
  · revert place sleeps
    fun_cases guestOf (s.patient p).pc (asleep (.patient p)) <;> simp_all [PatientPc.site]
  · simp [ended,guestOf]

-- Nobody was called, so the mailbox is empty and no door-boy waits for its being read.
theorem still_mailbox (still : Still s asleep) (holds : Holds (view s asleep)) : (view s asleep).mailbox = none := by
  by_contra full
  obtain ⟨q,called⟩ := holds.called.mp full
  rcases still_guest still q with away | inLine
  · simp [away] at called
  · simp [inLine] at called

theorem still_boys (still : Still s asleep) (holds : Holds (view s asleep)) (b : Fin n.doorboysCount) :
    (view s asleep).boy b = .idle true ∨ (view s asleep).boy b = .seeking true ∨
      (s.doorboy b = .breakWaited ∧ (view s asleep).boy b = .off) := by
  obtain ⟨sleeps,place⟩ := still.doorboy b
  rcases place with place | place | place | place
  · exact Or.inl (by simp [view,sleeps,place,boyOf])
  · exact Or.inr (Or.inl (by simp [view,sleeps,place,boyOf]))
  · have full := holds.mail.mpr ⟨b,by simp [view,sleeps,place,boyOf,Boy.calls]⟩
    exact absurd (still_mailbox still holds) full
  · exact Or.inr (Or.inr ⟨place,by simp [view,place,boyOf]⟩)

section
variable {holder : Fin n.doctorsCount → Holder (Fin n.numberOfPatients)}

-- Every doctor rests in its room, and is free.
theorem still_doctors (still : Still s asleep) (joint : Joint (view s asleep).desks holder)
    (holds : Holds (view s asleep)) (d : Fin n.doctorsCount) :
    (view s asleep).desks.server d = .resting ∧ (view s asleep).free d = true := by
  have nobody : ∀ q c, c ≠ .posted → holder d ≠ .client q c :=
    fun q c other held => other (still_client still ((joint.client q d c).mpr held))
  have fits := joint.fits d
  obtain ⟨sleeps,place | place⟩ := still.doctor d
  · have server : (view s asleep).desks.server d = .resting := by simp [View.desks,view,place,sleeps,serverOf]
    rw [server] at fits
    refine ⟨server,?_⟩
    rcases fits with free | reserved | ⟨q,assigned | entering⟩
    · exact (joint.free d).mpr free
    · have carried : (view s asleep).carries d = true := (joint.reserved d).mpr reserved
      simp only [View.carries,still_mailbox still holds,decide_eq_true_eq,reduceCtorEq,false_or] at carried
      obtain ⟨b,carries⟩ := carried
      rcases still_boys still holds b with boy | boy | ⟨_,boy⟩ <;> simp [boy] at carries
    · exact absurd assigned (nobody q _ (by simp))
    · exact absurd entering (nobody q _ (by simp))
  · have server : (view s asleep).desks.server d = .lingering := by simp [View.desks,view,place,sleeps,serverOf]
    rw [server] at fits
    obtain ⟨q,answered⟩ := fits
    exact absurd answered (nobody q _ (by simp))

-- A patient that is left stands in the line of the door-boys.
theorem still_inLine (still : Still s asleep) (joint : Joint (view s asleep).desks holder)
    (resting : ∀ d, (view s asleep).desks.server d = .resting) (here : (s.patient p).pc.home = .clinic) :
    (view s asleep).guest p = .inLine := by
  rcases still.patient p with ⟨sleeps,c,place⟩ | ended
  · cases at_ : (s.patient p).pc with
    | door pc =>
      cases pc <;> simp [at_,PatientPc.site] at place
      simp [view,at_,sleeps,guestOf]
    | exam pc =>
      cases pc <;> simp [at_,PatientPc.site] at place
      rename_i d
      have fits := joint.server (p := p) (d := d) (c := .posted) (by simp [View.desks,view,at_,sleeps,clientOf])
      simp [resting d,Fits] at fits
    | reception | cashier | pharmacy | leave => simp [at_,PatientPc.home] at here
  · simp [ended,PatientPc.home] at here

end

theorem still_clinic (path : (program n).Runs history asleep s) (still : Still s asleep) (doctors : 0 < n.doctorsCount)
    (here : (s.patient p).pc.home = .clinic) :
    s.door.numberOfPatientsInDoorboyLine ≠ 0 ∧ ∀ b, s.doorboy b = .breakWaited := by
  obtain ⟨⟨holder,_,kept⟩,_⟩ := runs_kept path
  have holds := kept.holds
  have free := still_doctors still kept.joint holds
  have boys := still_boys still holds
  have inLine := still_inLine still kept.joint (fun d => (free d).1) here
  have available : 0 < (view s asleep).available := by
    have some_ : 0 < tally (view s asleep).free := tally_pos.mpr ⟨⟨0,doctors⟩,(free _).2⟩
    have count := holds.available
    omega
  have notSeeking : ∀ b, (view s asleep).boy b ≠ .seeking true := by
    intro b seeking
    refine absurd (holds.seek.none_over (fun b' => ?_) (p := b) (by simp [seeking,Boy.seeks])) (by omega)
    rcases boys b' with boy | boy | ⟨_,boy⟩ <;> simp [boy,Boy.seeks]
  have number : 0 < (view s asleep).number := by
    have lined : 0 < tally fun p => ((view s asleep).guest p).lined := tally_pos.mpr ⟨p,by simp [inLine,Guest.lined]⟩
    have engaged : (tally fun b => ((view s asleep).boy b).engages) = 0 := by
      refine tally_eq_zero.mpr fun b => ?_
      rcases boys b with boy | boy | ⟨_,boy⟩
      · simp [boy,Boy.engages]
      · exact absurd boy (notSeeking b)
      · simp [boy,Boy.engages]
    have line := holds.line
    omega
  refine ⟨ne_of_gt number,fun b => ?_⟩
  rcases boys b with idle | seeking | ⟨rests,_⟩
  · refine absurd (holds.idle.none_over (fun b' => ?_) (p := b) (by simp [idle,Boy.idling])) (by omega)
    rcases boys b' with boy | boy | ⟨_,boy⟩ <;> simp [boy,Boy.idling]
  · exact absurd seeking (notSeeking b)
  · exact rests

end Clinic

namespace Counter
variable {c : Counter n D B X} {s : State n} {asleep : ThreadId n → Bool}

theorem clerk_manager (c : Counter n D B X) (i : Fin D) : c.clerk i ≠ .hospitalManager := by
  intro same
  have there := c.home_clerk (initialized n) i
  rw [same,← c.station_line,← c.lock_line] at there
  exact condition_station _ there.symm

theorem still_clerk (still : Still s asleep) (i : Fin D) : asleep (c.clerk i) = true ∧
    (c.pc s i = .breakWaited ∨ c.pc s i = .patientWaited ∨ ∃ about, c.pc s i = .answerWaited about) := by
  obtain ⟨sleeps,_,place⟩ := still.staff (clerk_manager c i) (c.clerk_patient i)
  refine ⟨sleeps,?_⟩
  rw [c.site_clerk] at place
  cases pc : c.pc s i <;> simp [pc,ClerkPc.site] at place ⊢

theorem still_visit (still : Still s asleep) (here : c.visit (s.patient p).pc = some at_) :
    asleep (.patient p) = true ∧ (at_ = .lineWaited ∨ ∃ d, at_ = .answerWaited d) := by
  have site : Hospital.site s (.patient p) = at_.site c.lineLock c.deskLock c.lineEmptyCv c.deskCv := c.site_visit here
  rcases still (.patient p) (by simp) with ⟨sleeps,_,place⟩ | ended
  · refine ⟨sleeps,?_⟩
    rw [site] at place
    cases at_ <;> simp [VisitPc.site] at place ⊢
  · rw [site] at ended
    cases at_ <;> simp [VisitPc.site] at ended

theorem still_client (still : Still s asleep) (here : (c.view s asleep).desks.client p = some (d,stage)) :
    stage = .posted := by
  simp only [view] at here
  cases place : c.visit (s.patient p).pc with
  | none => simp [place,clientOf] at here
  | some at_ =>
    obtain ⟨sleeps,rfl | ⟨e,rfl⟩⟩ := still_visit still place
    · simp [place,clientOf] at here
    · simp only [place,sleeps,clientOf,Option.some.injEq,Prod.mk.injEq] at here
      exact here.2.symm

section
variable {holder : Fin D → Holder (Fin n.numberOfPatients)}

-- A clerk that is not on break rests at a free desk.
theorem still_desks (still : Still s asleep) (joint : Joint (c.view s asleep).desks holder) (i : Fin D) :
    (c.pc s i = .breakWaited ∧ (c.view s asleep).desks.server i = .away) ∨
      ((c.view s asleep).desks.server i = .resting ∧ (c.view s asleep).desks.free i = true) := by
  have nobody : ∀ q stage, stage ≠ .posted → holder i ≠ .client q stage :=
    fun q stage other held => other (still_client still ((joint.client q i stage).mpr held))
  have fits := joint.fits i
  obtain ⟨sleeps,rests | waits | ⟨about,lingers⟩⟩ := still_clerk (c := c) still i
  · exact Or.inl ⟨rests,by simp [view,rests,serverOf]⟩
  · have server : (c.view s asleep).desks.server i = .resting := by simp [view,waits,sleeps,serverOf]
    rw [server] at fits
    refine Or.inr ⟨server,?_⟩
    rcases fits with free | reserved | ⟨q,assigned | entering⟩
    · exact (joint.free i).mpr free
    · exact absurd ((joint.reserved i).mpr reserved) (by simp [view])
    · exact absurd assigned (nobody q _ (by simp))
    · exact absurd entering (nobody q _ (by simp))
  · have server : (c.view s asleep).desks.server i = .lingering := by simp [view,lingers,sleeps,serverOf]
    rw [server] at fits
    obtain ⟨q,answered⟩ := fits
    exact absurd answered (nobody q _ (by simp))

-- A patient that is left stands in the line, and every clerk is on break.
theorem still_line (still : Still s asleep) (ledger : c.Ledger s asleep papers holder)
    (here : c.visit (s.patient p).pc = some at_) :
    (c.books s).line.lineLength ≠ 0 ∧ ∀ i, c.pc s i = .breakWaited := by
  have desks := still_desks still ledger.joint
  have holds := ledger.holds
  obtain ⟨sleeps,rfl | ⟨d,rfl⟩⟩ := still_visit still here
  · have waiting : (c.view s asleep).waiting p = some true := by simp [view,here,sleeps,waitingOf]
    have length : 0 < (c.view s asleep).lineLength := by
      have lined : 0 < tally fun q => (c.view s asleep).waiting q ≠ none := tally_pos.mpr ⟨p,by simp [waiting]⟩
      have counted := holds.length
      omega
    have none_ : (c.view s asleep).availableCount ≤ 0 := by
      refine holds.wake.none_over (fun q => ?_) waiting
      simp only [view]
      cases place : c.visit (s.patient q).pc with
      | none => simp [waitingOf]
      | some at_ =>
        obtain ⟨sleeps,rfl | ⟨e,rfl⟩⟩ := still_visit still place <;> simp [sleeps,waitingOf]
    refine ⟨ne_of_gt length,fun i => ?_⟩
    rcases desks i with ⟨rests,_⟩ | ⟨_,free⟩
    · exact rests
    · have some_ : 0 < tally (c.view s asleep).desks.free := tally_pos.mpr ⟨i,free⟩
      have count := holds.count
      omega
  · have fits := ledger.joint.server (p := p) (d := d) (c := .posted) (by simp [view,here,sleeps,clientOf])
    rcases desks d with ⟨_,server⟩ | ⟨server,_⟩ <;> simp [server,Fits] at fits

end
end Counter

-- What the manager looks at before its Signal on the condition.
def due (s : State n) : ConditionId n → Prop
  | .doorboyBreakCv => s.door.numberOfPatientsInDoorboyLine ≠ 0
  | .cashierBreakCv => s.cashiers.line.lineLength ≠ 0
  | .pharmacistBreakCv => s.pharmacy.line.lineLength ≠ 0
  | _ => False

-- At least one of each.
structure Counts.Staffed (n : Counts) : Prop where
  receptionists : 0 < n.numberOfReceptionists
  doorboys : 0 < n.doorboysCount
  doctors : 0 < n.doctorsCount
  cashiers : 0 < n.cashiersCount
  pharmacists : 0 < n.numberOfPharmacists

theorem still_due (staffed : n.Staffed) (path : (program n).Runs history asleep s) (still : Still s asleep)
    (left : (s.patient p).pc.home ≠ .none) :
    ∃ c u, due s c ∧ asleep u = true ∧ site s u = .sleeping c := by
  cases place : (s.patient p).pc with
  | reception pc => exact absurd (by rw [place]; rfl) (Reception.still_reception path still p)
  | door pc =>
    obtain ⟨number,rests⟩ := Clinic.still_clinic path still staffed.doctors (by rw [place]; rfl)
    exact ⟨.doorboyBreakCv,.doorboy ⟨0,staffed.doorboys⟩,number,(still.doorboy _).1,by simp [site,rests,DoorboyPc.site]⟩
  | exam pc =>
    obtain ⟨number,rests⟩ := Clinic.still_clinic path still staffed.doctors (by rw [place]; rfl)
    exact ⟨.doorboyBreakCv,.doorboy ⟨0,staffed.doorboys⟩,number,(still.doorboy _).1,by simp [site,rests,DoorboyPc.site]⟩
  | cashier pc =>
    obtain ⟨holder,ledger⟩ := Cashiers.runs_ledger path
    obtain ⟨length,rests⟩ := Counter.still_line still ledger
      (show (cashiers n).visit (s.patient p).pc = some pc by simp [cashiers,place])
    refine ⟨.cashierBreakCv,.cashier ⟨0,staffed.cashiers⟩,length,(Counter.still_clerk (c := cashiers n) still _).1,?_⟩
    have rests : s.cashier ⟨0,staffed.cashiers⟩ = .breakWaited := rests _
    simp [site,rests,ClerkPc.site]
  | pharmacy pc =>
    obtain ⟨holder,ledger⟩ := Pharmacy.runs_ledger path
    obtain ⟨length,rests⟩ := Counter.still_line still ledger
      (show (pharmacy n).visit (s.patient p).pc = some pc by simp [pharmacy,place])
    refine ⟨.pharmacistBreakCv,.pharmacist ⟨0,staffed.pharmacists⟩,length,(Counter.still_clerk (c := pharmacy n) still _).1,?_⟩
    have rests : s.pharmacist ⟨0,staffed.pharmacists⟩ = .breakWaited := rests _
    simp [site,rests,ClerkPc.site]
  | leave pc => simp [place,PatientPc.home] at left

end Nachos.Hospital
