import Nachos.Hospital.Program

-- The four places of the hospital. A thread waits and signals only where it is,
-- so the places can be looked at one by one.
namespace Nachos.Hospital
open Monitor

variable {n : Counts}

inductive Station where
  | reception
  | clinic
  | cashiers
  | pharmacy
  | none
  deriving DecidableEq

def stationOf : LockId n → Station
  | .receptionistLineLock | .receptionistLock _ | .receptionistTokenAccessLock => .reception
  | .doctorDoorboyLock | .doorboyLineLock | .doctorLock _ => .clinic
  | .cashierLineLock | .cashierLock _ | .cashierPaymentLock => .cashiers
  | .pharmacistLineLock | .pharmacistLock _ | .pharmacistPaymentLock => .pharmacy
  | .randomNumberLock | .patientCountMutex => .none

def PatientPc.home : PatientPc n → Station
  | .reception _ => .reception
  | .door _ | .exam _ => .clinic
  | .cashier _ => .cashiers
  | .pharmacy _ => .pharmacy
  | .leave _ => .none

def home (s : State n) : ThreadId n → Station
  | .receptionist _ => .reception
  | .doorboy _ | .doctor _ => .clinic
  | .cashier _ => .cashiers
  | .pharmacist _ => .pharmacy
  | .hospitalManager => .none
  | .patient p => (s.patient p).pc.home

theorem condition_station (c : ConditionId n) : stationOf (lockOf c) ≠ .none := by
  cases c <;> simp [lockOf,stationOf]

theorem patient_held_home (pc : PatientPc n) : ∀ l ∈ pc.held, stationOf l = pc.home ∨ stationOf l = .none := by
  cases pc with
  | reception pc => cases pc <;> simp [PatientPc.held,PatientPc.home,stationOf]
  | door pc => cases pc <;> simp [PatientPc.held,PatientPc.home,stationOf]
  | exam pc => cases pc <;> simp [PatientPc.held,PatientPc.home,stationOf]
  | cashier pc => cases pc <;> simp [PatientPc.held,VisitPc.held,PatientPc.home,stationOf]
  | pharmacy pc => cases pc <;> simp [PatientPc.held,VisitPc.held,PatientPc.home,stationOf]
  | leave pc => cases pc <;> simp [PatientPc.held,PatientPc.home,stationOf]

theorem held_home (s : State n) (other : t ≠ .hospitalManager) :
    ∀ l ∈ held s t, stationOf l = home s t ∨ stationOf l = .none := by
  cases t with
  | receptionist i => cases pc : s.receptionist i <;> simp [held,home,pc,ReceptionistPc.held,stationOf]
  | doorboy b => cases pc : s.doorboy b <;> simp [held,home,pc,DoorboyPc.held,stationOf]
  | doctor d => cases pc : s.doctor d <;> simp [held,home,pc,DoctorPc.held,stationOf]
  | cashier i => cases pc : s.cashier i <;> simp [held,home,pc,ClerkPc.held,stationOf]
  | pharmacist i => cases pc : s.pharmacist i <;> simp [held,home,pc,ClerkPc.held,stationOf]
  | hospitalManager => exact absurd rfl other
  | patient p => exact patient_held_home _

-- The condition of a Wait or Signal.
def conditionOf : Op (LockId n) (ConditionId n) → Option (ConditionId n)
  | .wait c _ | .signal c _ => some c
  | _ => none

theorem op_home {s : State n} (changes : Changes s draw t s' op events) (going : site s t ≠ .ended)
    (other : t ≠ .hospitalManager) (condition : conditionOf op = some c) : stationOf (lockOf c) = home s t := by
  have inside := held_home s other
  cases changes_follows changes going with
  | acquire | release | skip | stop => simp [conditionOf] at condition
  | wait lock held =>
    cases Option.some.inj condition
    exact (inside _ (lock ▸ held)).resolve_right (condition_station _)
  | signal lock held =>
    cases Option.some.inj condition
    exact (inside _ (lock ▸ held)).resolve_right (condition_station _)

def eventStation : Event n → Station
  | .tokenPlaced _ _ | .tokenTaken _ _ _ => .reception
  | .doctorStored _ _ | .doctorRead _ _ | .patientRead _ _ | .sicknessDrawn _ _ _ | .feeWritten _ _ _
  | .diagnosisRead _ _ _ => .clinic
  | .feeRead _ _ _ | .feePaid _ _ _ | .feeRecorded _ _ _ => .cashiers
  | .billPaid _ _ _ | .paymentRecorded _ _ _ => .pharmacy

theorem receptionist_events (ran : receptionist i data pc = .ok (data',pc',op,events)) :
    ∀ event ∈ events, eventStation (n := n) event = .reception := by
  unfold receptionist at ran
  repeat' split at ran
  all_goals cases ran
  all_goals simp [eventStation]

theorem doorboy_events (ran : doorboy b data pc = .ok (data',pc',op,events)) :
    ∀ event ∈ events, eventStation (n := n) event = .clinic := by
  unfold doorboy at ran
  repeat' split at ran
  all_goals cases ran
  all_goals simp [eventStation]

theorem doctor_events (ran : doctor d data draw pc = .ok (data',pc',op,events)) :
    ∀ event ∈ events, eventStation (n := n) event = .clinic := by
  unfold doctor at ran
  dsimp only at ran
  repeat' split at ran
  all_goals cases ran
  all_goals simp [eventStation]

theorem cashier_events (ran : cashier i fees data pc = .ok (data',pc',op,events)) :
    ∀ event ∈ events, eventStation (n := n) event = .cashiers := by
  unfold cashier at ran
  dsimp only at ran
  repeat' split at ran
  all_goals cases ran
  all_goals simp [eventStation]

theorem pharmacist_events (ran : pharmacist i data pc = .ok (data',pc',op,events)) :
    ∀ event ∈ events, eventStation (n := n) event = .pharmacy := by
  unfold pharmacist at ran
  dsimp only at ran
  repeat' split at ran
  all_goals cases ran
  all_goals simp [eventStation]

theorem patientReception_events (ran : patientReception p data me pc = .ok (data',me',op,events)) :
    ∀ event ∈ events, eventStation (n := n) event = .reception := by
  unfold patientReception at ran
  repeat' split at ran
  all_goals cases ran
  all_goals simp [eventStation]

theorem patientDoor_events (ran : patientDoor p data me pc = .ok (data',me',op,events)) :
    ∀ event ∈ events, eventStation (n := n) event = .clinic := by
  unfold patientDoor at ran
  repeat' split at ran
  all_goals cases ran
  all_goals simp [eventStation]

theorem patientExam_events (ran : patientExam p data me pc = .ok (data',me',op,events)) :
    ∀ event ∈ events, eventStation (n := n) event = .clinic := by
  unfold patientExam at ran
  repeat' split at ran
  all_goals cases ran
  all_goals simp [eventStation]

theorem patientCashier_events (ran : patientCashier p data me pc = .ok (data',me',op,events)) :
    ∀ event ∈ events, eventStation (n := n) event = .cashiers := by
  unfold patientCashier at ran
  dsimp only at ran
  repeat' split at ran
  all_goals cases ran
  all_goals simp [eventStation]

theorem patientPharmacy_events (ran : patientPharmacy p data me pc = .ok (data',me',op,events)) :
    ∀ event ∈ events, eventStation (n := n) event = .pharmacy := by
  unfold patientPharmacy at ran
  dsimp only at ran
  repeat' split at ran
  all_goals cases ran
  all_goals simp [eventStation]

theorem patientLeave_events (ran : patientLeave count me pc = .ok (count',me',op,(events : List (Event n)))) :
    events = [] := by
  unfold patientLeave at ran
  split at ran <;> cases ran <;> rfl

theorem events_home {s : State n} (changes : Changes s draw t s' op events) :
    ∀ event ∈ events, eventStation event = home s t := by
  cases changes with
  | receptionist ran => exact receptionist_events ran
  | doorboy ran => exact doorboy_events ran
  | doctor ran => exact doctor_events ran
  | cashier ran => exact cashier_events ran
  | pharmacist ran => exact pharmacist_events ran
  | manager ran => simp
  | atReception place ran => simpa [home,place,PatientPc.home] using patientReception_events ran
  | atDoor place ran => simpa [home,place,PatientPc.home] using patientDoor_events ran
  | atExam place ran => simpa [home,place,PatientPc.home] using patientExam_events ran
  | atCashier place ran => simpa [home,place,PatientPc.home] using patientCashier_events ran
  | atPharmacy place ran => simpa [home,place,PatientPc.home] using patientPharmacy_events ran
  | leaving place ran => simp [patientLeave_events ran]

-- The manager never waits, and signals only those on break.
theorem manager_signals {s : State n} (ran : hospitalManager s draw pc = (pc',op)) :
    conditionOf op = none ∨ ∃ c, op = .signal c (lockOf c) ∧
      (c = .receptionistBreakCv ∨ c = .doorboyBreakCv ∨ c = .cashierBreakCv ∨ c = .pharmacistBreakCv) := by
  unfold hospitalManager managerCashierSales managerReception at ran
  repeat' split at ran
  all_goals cases ran
  all_goals simp [conditionOf,lockOf]

-- The first program counter of a part, where the patient has touched nothing yet.
def PatientPc.starts : PatientPc n → Bool
  | .door .start | .cashier .start | .pharmacy .start | .leave .start => true
  | _ => false

-- Not at the station, or only on its threshold.
def Away (here : Station) (pc : PatientPc n) : Prop := pc.home = here → pc.starts = true

theorem patientReception_after (ran : patientReception p data me pc = .ok (data',me',op,events)) :
    me'.myPatientDiagnosis = me.myPatientDiagnosis ∧ (me'.pc.home (n := n) = .reception ∨ me'.pc = .door .start) := by
  unfold patientReception at ran
  repeat' split at ran
  all_goals cases ran
  all_goals simp [PatientPc.home]

theorem patientDoor_after (ran : patientDoor p data me pc = .ok (data',me',op,events)) :
    me'.myPatientToken = me.myPatientToken ∧ me'.pc.home (n := n) = .clinic := by
  unfold patientDoor at ran
  repeat' split at ran
  all_goals cases ran
  all_goals simp [PatientPc.home]

theorem patientExam_after (ran : patientExam p data me pc = .ok (data',me',op,events)) :
    me'.myPatientToken = me.myPatientToken ∧ (me'.pc.home (n := n) = .clinic ∨ me'.pc = .cashier .start) := by
  unfold patientExam at ran
  repeat' split at ran
  all_goals cases ran
  all_goals simp [PatientPc.home]

theorem patientCashier_after (ran : patientCashier p data me pc = .ok (data',me',op,events)) :
    me'.myPatientToken = me.myPatientToken ∧ me'.myPatientDiagnosis = me.myPatientDiagnosis ∧
      (me'.pc.home (n := n) = .cashiers ∨ me'.pc = .pharmacy .start) := by
  unfold patientCashier at ran
  dsimp only at ran
  repeat' split at ran
  all_goals cases ran
  all_goals simp [PatientPc.home]

theorem patientPharmacy_after (ran : patientPharmacy p data me pc = .ok (data',me',op,events)) :
    me'.myPatientToken = me.myPatientToken ∧ me'.myPatientDiagnosis = me.myPatientDiagnosis ∧
      (me'.pc.home (n := n) = .pharmacy ∨ me'.pc = .leave .start) := by
  unfold patientPharmacy at ran
  dsimp only at ran
  repeat' split at ran
  all_goals cases ran
  all_goals simp [PatientPc.home]

theorem patientLeave_after (ran : patientLeave count me pc = .ok (count',me',op,(events : List (Event n)))) :
    me'.myPatientToken = me.myPatientToken ∧ me'.myPatientDiagnosis = me.myPatientDiagnosis ∧
      ∃ pc, me'.pc = .leave pc := by
  unfold patientLeave at ran
  split at ran <;> cases ran <;> simp

-- The way of a patient through the hospital.
def Station.next : Station → Station
  | .reception => .clinic
  | .clinic => .cashiers
  | .cashiers => .pharmacy
  | .pharmacy | .none => .none

theorem patient_home {s : State n} (changes : Changes s draw (.patient p) s' op events) :
    (s'.patient p).pc.home = (s.patient p).pc.home ∨ (s'.patient p).pc.home = (s.patient p).pc.home.next := by
  cases changes with
  | atReception place ran =>
    rcases (patientReception_after ran).2 with here | next
    · exact Or.inl (by simpa [place,PatientPc.home] using here)
    · exact Or.inr (by simp [place,next,PatientPc.home,Station.next])
  | atDoor place ran => exact Or.inl (by simpa [place,PatientPc.home] using (patientDoor_after ran).2)
  | atExam place ran =>
    rcases (patientExam_after ran).2 with here | next
    · exact Or.inl (by simpa [place,PatientPc.home] using here)
    · exact Or.inr (by simp [place,next,PatientPc.home,Station.next])
  | atCashier place ran =>
    rcases (patientCashier_after ran).2.2 with here | next
    · exact Or.inl (by simpa [place,PatientPc.home] using here)
    · exact Or.inr (by simp [place,next,PatientPc.home,Station.next])
  | atPharmacy place ran =>
    rcases (patientPharmacy_after ran).2.2 with here | next
    · exact Or.inl (by simpa [place,PatientPc.home] using here)
    · exact Or.inr (by simp [place,next,PatientPc.home,Station.next])
  | leaving place ran =>
    obtain ⟨pc,after⟩ := (patientLeave_after ran).2.2
    exact Or.inl (by simp [place,after,PatientPc.home])

theorem PatientPc.away_of_home {pc : PatientPc n} (other : pc.home ≠ here) : Away here pc :=
  fun same => absurd same other

theorem patients_elsewhere {s : State n} (changes : Changes s draw t s' op events) (away : home s t ≠ here)
    (p : Fin n.numberOfPatients) : (s'.patient p = s.patient p ∧ t ≠ .patient p) ∨
      (t = .patient p ∧ (s.patient p).pc.home ≠ here ∧ Away here (s'.patient p).pc) := by
  have own : ∀ q me, home s (.patient q) ≠ here → Away here me.pc →
      (Function.update s.patient q me p = s.patient p ∧ ThreadId.patient q ≠ .patient p) ∨
        (ThreadId.patient q = .patient p ∧ (s.patient p).pc.home ≠ here ∧
          Away here (Function.update s.patient q me p).pc) := by
    intro q me other after
    by_cases same : p = q
    · subst same
      exact Or.inr ⟨rfl,other,by simpa using after⟩
    · exact Or.inl ⟨by simp [same],by simpa using Ne.symm same⟩
  cases changes with
  | receptionist | doorboy | doctor | cashier | pharmacist | manager => exact Or.inl ⟨rfl,by simp⟩
  | @atReception q pc reception me op events place ran =>
    refine own q me away ?_
    intro same
    rcases (patientReception_after ran).2 with still | next
    · exact absurd (still.symm.trans same) (by simpa [home,place,PatientPc.home] using away)
    · rw [next]; rfl
  | @atDoor q pc door me op events place ran =>
    refine own q me away (PatientPc.away_of_home ?_)
    rw [(patientDoor_after ran).2]
    simpa [home,place,PatientPc.home] using away
  | @atExam q pc exam me op events place ran =>
    refine own q me away ?_
    intro same
    rcases (patientExam_after ran).2 with still | next
    · exact absurd (still.symm.trans same) (by simpa [home,place,PatientPc.home] using away)
    · rw [next]; rfl
  | @atCashier q pc cashiers me op events place ran =>
    refine own q me away ?_
    intro same
    rcases (patientCashier_after ran).2.2 with still | next
    · exact absurd (still.symm.trans same) (by simpa [home,place,PatientPc.home] using away)
    · rw [next]; rfl
  | @atPharmacy q pc pharmacy me op events place ran =>
    refine own q me away ?_
    intro same
    rcases (patientPharmacy_after ran).2.2 with still | next
    · exact absurd (still.symm.trans same) (by simpa [home,place,PatientPc.home] using away)
    · rw [next]; rfl
  | @leaving q pc count me op events place ran =>
    obtain ⟨pc',after⟩ := (patientLeave_after ran).2.2
    refine own q me away (PatientPc.away_of_home ?_)
    simpa [after,home,place,PatientPc.home] using away

theorem tokens_elsewhere {s : State n} (changes : Changes s draw t s' op events) (away : home s t ≠ .reception)
    (p : Fin n.numberOfPatients) : (s'.patient p).myPatientToken = (s.patient p).myPatientToken := by
  have own : ∀ q me, me.myPatientToken = (s.patient q).myPatientToken →
      (Function.update s.patient q me p).myPatientToken = (s.patient p).myPatientToken := by
    intro q me token
    by_cases same : p = q
    · subst same; simpa using token
    · simp [same]
  cases changes with
  | receptionist | doorboy | doctor | cashier | pharmacist | manager => rfl
  | atReception place => simp [home,place,PatientPc.home] at away
  | atDoor _ ran => exact own _ _ (patientDoor_after ran).1
  | atExam _ ran => exact own _ _ (patientExam_after ran).1
  | atCashier _ ran => exact own _ _ (patientCashier_after ran).1
  | atPharmacy _ ran => exact own _ _ (patientPharmacy_after ran).1
  | leaving _ ran => exact own _ _ (patientLeave_after ran).1

theorem diagnoses_elsewhere {s : State n} (changes : Changes s draw t s' op events) (away : home s t ≠ .clinic)
    (p : Fin n.numberOfPatients) : (s'.patient p).myPatientDiagnosis = (s.patient p).myPatientDiagnosis := by
  have own : ∀ q me, me.myPatientDiagnosis = (s.patient q).myPatientDiagnosis →
      (Function.update s.patient q me p).myPatientDiagnosis = (s.patient p).myPatientDiagnosis := by
    intro q me diagnosis
    by_cases same : p = q
    · subst same; simpa using diagnosis
    · simp [same]
  cases changes with
  | receptionist | doorboy | doctor | cashier | pharmacist | manager => rfl
  | atReception _ ran => exact own _ _ (patientReception_after ran).1
  | atDoor place => simp [home,place,PatientPc.home] at away
  | atExam place => simp [home,place,PatientPc.home] at away
  | atCashier _ ran => exact own _ _ (patientCashier_after ran).2.1
  | atPharmacy _ ran => exact own _ _ (patientPharmacy_after ran).2.1
  | leaving _ ran => exact own _ _ (patientLeave_after ran).2.1

theorem reception_elsewhere {s : State n} (changes : Changes s draw t s' op events) (away : home s t ≠ .reception) :
    s'.reception = s.reception ∧ s'.receptionist = s.receptionist := by
  cases changes <;> simp_all [home,PatientPc.home]

theorem clinic_elsewhere {s : State n} (changes : Changes s draw t s' op events) (away : home s t ≠ .clinic) :
    s'.door = s.door ∧ s'.exam = s.exam ∧ s'.doorboy = s.doorboy ∧ s'.doctor = s.doctor := by
  cases changes <;> simp_all [home,PatientPc.home]

theorem cashiers_elsewhere {s : State n} (changes : Changes s draw t s' op events) (away : home s t ≠ .cashiers) :
    s'.cashiers = s.cashiers ∧ s'.cashier = s.cashier := by
  cases changes <;> simp_all [home,PatientPc.home]

theorem pharmacy_elsewhere {s : State n} (changes : Changes s draw t s' op events) (away : home s t ≠ .pharmacy) :
    s'.pharmacy = s.pharmacy ∧ s'.pharmacist = s.pharmacist := by
  cases changes <;> simp_all [home,PatientPc.home]

-- A Wait or Signal elsewhere changes nobody here.
theorem sleeps_elsewhere {s : State n} (sleeps : (program n).Sleeps s t asleep op woken asleep')
    (away : ∀ c, conditionOf op = some c → stationOf (lockOf c) ≠ here) (u : ThreadId n) :
    asleep' u = asleep u ∨ u = t ∨ ∃ c, site s u = .sleeping c ∧ stationOf (lockOf c) ≠ here := by
  cases sleeps with
  | wait =>
    by_cases same : u = t
    · exact Or.inr (Or.inl same)
    · exact Or.inl (by simp [same])
  | @wakes v c l _ site =>
    by_cases same : u = v
    · exact Or.inr (Or.inr ⟨c,same ▸ site,away c rfl⟩)
    · exact Or.inl (by simp [same])
  | acquire | release | unheard | skip | stop => exact Or.inl rfl

-- Who sleeps on each condition.
def Sleeper (s : State n) (u : ThreadId n) : ConditionId n → Prop
  | .receptionistBreakCv => ∃ r, u = .receptionist r ∧ s.receptionist r = .breakWaited
  | .receptionistLineEmptyCv r => u = .receptionist r ∧ s.receptionist r = .lineEmptyWaited
  | .receptionistLineFullCv r => ∃ p, u = .patient p ∧ (s.patient p).pc = .reception (.lineFullWaited r)
  | .receptionistCv r =>
    (u = .receptionist r ∧ (s.receptionist r = .bucketWaited ∨ s.receptionist r = .tokenWaited)) ∨
    ∃ p, u = .patient p ∧ (s.patient p).pc = .reception (.tokenWaited r)
  | .doorboyBreakCv => ∃ b, u = .doorboy b ∧ s.doorboy b = .breakWaited
  | .patientReadNextAvailableDoctorCv => ∃ b, u = .doorboy b ∧ s.doorboy b = .readWaited
  | .doorboyLineEmptyCv => ∃ p, u = .patient p ∧ (s.patient p).pc = .door .lineEmptyWaited
  | .doorboyLineFullCv => ∃ b, u = .doorboy b ∧ s.doorboy b = .lineFullWaited
  | .doctorAvailableCv => ∃ b, u = .doorboy b ∧ s.doorboy b = .doctorWaited
  | .doctorCv d =>
    (u = .doctor d ∧ (s.doctor d = .patientWaited ∨ s.doctor d = .leaveWaited)) ∨
    ∃ p, u = .patient p ∧ (s.patient p).pc = .exam (.diagnosisWaited d)
  | .cashierBreakCv => ∃ i, u = .cashier i ∧ s.cashier i = .breakWaited
  | .cashierLineEmptyCv => ∃ p, u = .patient p ∧ (s.patient p).pc = .cashier .lineWaited
  | .cashierCv i =>
    (u = .cashier i ∧ (s.cashier i = .patientWaited ∨ ∃ about, s.cashier i = .answerWaited about)) ∨
    ∃ p, u = .patient p ∧ (s.patient p).pc = .cashier (.answerWaited i)
  | .pharmacistBreakCv => ∃ i, u = .pharmacist i ∧ s.pharmacist i = .breakWaited
  | .pharmacistLineEmptyCv => ∃ p, u = .patient p ∧ (s.patient p).pc = .pharmacy .lineWaited
  | .pharmacistCv i =>
    (u = .pharmacist i ∧ (s.pharmacist i = .patientWaited ∨ ∃ about, s.pharmacist i = .answerWaited about)) ∨
    ∃ p, u = .patient p ∧ (s.patient p).pc = .pharmacy (.answerWaited i)

theorem patient_sleeper {s : State n} (site : (s.patient p).pc.site = .sleeping c) : Sleeper s (.patient p) c := by
  cases place : (s.patient p).pc with
  | reception pc => cases pc <;> simp [place,PatientPc.site] at site <;> subst site <;> simp [Sleeper,place]
  | door pc =>
    cases pc <;> simp [place,PatientPc.site] at site
    subst site
    simp [Sleeper,place]
  | exam pc =>
    cases pc <;> simp [place,PatientPc.site] at site
    subst site
    simp [Sleeper,place]
  | cashier pc => cases pc <;> simp [place,PatientPc.site,VisitPc.site] at site <;> subst site <;> simp [Sleeper,place]
  | pharmacy pc => cases pc <;> simp [place,PatientPc.site,VisitPc.site] at site <;> subst site <;> simp [Sleeper,place]
  | leave pc => cases pc <;> simp [place,PatientPc.site] at site

theorem sleeping_sleeper {s : State n} (site : site s u = .sleeping c) : Sleeper s u c := by
  cases u with
  | receptionist r =>
    simp only [Hospital.site] at site
    cases pc : s.receptionist r <;> simp [pc,ReceptionistPc.site] at site <;> subst site <;> simp [Sleeper,pc]
  | doorboy b =>
    simp only [Hospital.site] at site
    cases pc : s.doorboy b <;> simp [pc,DoorboyPc.site] at site <;> subst site <;> simp [Sleeper,pc]
  | doctor d =>
    simp only [Hospital.site] at site
    cases pc : s.doctor d <;> simp [pc,DoctorPc.site] at site <;> subst site <;> simp [Sleeper,pc]
  | cashier i =>
    simp only [Hospital.site] at site
    cases pc : s.cashier i <;> simp [pc,ClerkPc.site] at site <;> subst site <;> simp [Sleeper,pc]
  | pharmacist i =>
    simp only [Hospital.site] at site
    cases pc : s.pharmacist i <;> simp [pc,ClerkPc.site] at site <;> subst site <;> simp [Sleeper,pc]
  | hospitalManager =>
    simp only [Hospital.site] at site
    cases pc : s.manager <;> simp [pc,ManagerPc.site] at site
  | patient p => exact patient_sleeper site

end Nachos.Hospital
