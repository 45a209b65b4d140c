import Nachos.Machine
import Nachos.Hospital.Roles

-- The locks each program counter holds, and the call it came from.
namespace Nachos.Hospital
open Monitor

variable {n : Counts}

def ReceptionistPc.held (i : Fin n.numberOfReceptionists) : ReceptionistPc → List (LockId n)
  | .loop | .lineReleased | .deskReleased => []
  | .lineAcquired | .lineEmptyWaited | .lineFullSignalled | .lineReacquired | .breakWaited => [.receptionistLineLock]
  | .deskAcquired | .bucketWaited | .tokenAccessReleased | .tokenSignalled | .tokenWaited => [.receptionistLock i]
  | .tokenAccessAcquired => [.receptionistTokenAccessLock,.receptionistLock i]

def ReceptionistPc.site (i : Fin n.numberOfReceptionists) : ReceptionistPc → Site (LockId n) (ConditionId n)
  | .lineAcquired | .lineReacquired => .entering .receptionistLineLock
  | .lineEmptyWaited => .sleeping (.receptionistLineEmptyCv i)
  | .deskAcquired => .entering (.receptionistLock i)
  | .bucketWaited | .tokenWaited => .sleeping (.receptionistCv i)
  | .tokenAccessAcquired => .entering .receptionistTokenAccessLock
  | .breakWaited => .sleeping .receptionistBreakCv
  | _ => .free

def DoorboyPc.held : DoorboyPc n → List (LockId n)
  | .loop | .lineReleased => []
  | .lineAcquired | .lineFullWaited | .doctorsReleased | .breakWaited => [.doorboyLineLock]
  | .doctorsAcquired | .doctorWaited => [.doctorDoorboyLock]
  | .lineReacquired _ | .lineEmptySignalled | .readWaited => [.doorboyLineLock,.doctorDoorboyLock]

def DoorboyPc.site : DoorboyPc n → Site (LockId n) (ConditionId n)
  | .lineAcquired | .lineReacquired _ => .entering .doorboyLineLock
  | .lineFullWaited => .sleeping .doorboyLineFullCv
  | .doctorsAcquired => .entering .doctorDoorboyLock
  | .doctorWaited => .sleeping .doctorAvailableCv
  | .readWaited => .sleeping .patientReadNextAvailableDoctorCv
  | .breakWaited => .sleeping .doorboyBreakCv
  | _ => .free

def DoctorPc.held (d : Fin n.doctorsCount) : DoctorPc → List (LockId n)
  | .loop => []
  | .doctorsAcquired | .availableSignalled => [.doctorDoorboyLock]
  | .roomAcquired => [.doctorLock d,.doctorDoorboyLock]
  | .doctorsReleased | .patientWaited | .examining _ _ _ | .diagnosisSignalled | .leaveWaited => [.doctorLock d]
  | .randomAcquired _ => [.randomNumberLock,.doctorLock d]

def DoctorPc.site (d : Fin n.doctorsCount) : DoctorPc → Site (LockId n) (ConditionId n)
  | .doctorsAcquired => .entering .doctorDoorboyLock
  | .roomAcquired => .entering (.doctorLock d)
  | .patientWaited | .leaveWaited => .sleeping (.doctorCv d)
  | .randomAcquired _ => .entering .randomNumberLock
  | _ => .free

-- The locks and conditions of a counter: the line, one desk, the payment.
def ClerkPc.held (line desk payment : LockId n) : ClerkPc B → List (LockId n)
  | .loop => []
  | .lineAcquired | .breakWaited | .lineSignalled => [line]
  | .deskAcquired => [desk,line]
  | .lineReleased | .patientWaited | .answerSignalled _ | .answerWaited _ | .paymentReleased => [desk]
  | .paymentAcquired _ => [payment,desk]

def ClerkPc.site (line desk payment : LockId n) (breaks served : ConditionId n) :
    ClerkPc B → Site (LockId n) (ConditionId n)
  | .lineAcquired => .entering line
  | .breakWaited => .sleeping breaks
  | .deskAcquired => .entering desk
  | .patientWaited | .answerWaited _ => .sleeping served
  | .paymentAcquired _ => .entering payment
  | _ => .free

def ManagerPc.held : ManagerPc → List (LockId n)
  | .randomAcquired => [.randomNumberLock]
  | .countAcquired _ => [.patientCountMutex]
  | .pharmacySalesAcquired _ => [.pharmacistPaymentLock]
  | .cashierSalesAcquired => [.cashierPaymentLock]
  | .receptionAcquired | .receptionSignalled _ => [.receptionistLineLock]
  | .doorAcquired | .doorSignalled => [.doorboyLineLock]
  | .cashierAcquired | .cashierSignalled => [.cashierLineLock]
  | .pharmacyAcquired | .pharmacySignalled => [.pharmacistLineLock]
  | _ => []

def ManagerPc.site : ManagerPc → Site (LockId n) (ConditionId n)
  | .randomAcquired => .entering .randomNumberLock
  | .countAcquired _ => .entering .patientCountMutex
  | .pharmacySalesAcquired _ => .entering .pharmacistPaymentLock
  | .cashierSalesAcquired => .entering .cashierPaymentLock
  | .receptionAcquired => .entering .receptionistLineLock
  | .doorAcquired => .entering .doorboyLineLock
  | .cashierAcquired => .entering .cashierLineLock
  | .pharmacyAcquired => .entering .pharmacistLineLock
  | .finished => .ended
  | _ => .free

def VisitPc.held (line : LockId n) (desk : Fin desks → LockId n) : VisitPc desks → List (LockId n)
  | .start | .lineReleased _ => []
  | .lineAcquired | .lineWaited => [line]
  | .deskAcquired i | .deskSignalled i | .answerWaited i | .leaveSignalled i => [desk i]

def VisitPc.site (line : LockId n) (desk : Fin desks → LockId n) (lineEmpty : ConditionId n)
    (served : Fin desks → ConditionId n) : VisitPc desks → Site (LockId n) (ConditionId n)
  | .lineAcquired => .entering line
  | .lineWaited => .sleeping lineEmpty
  | .deskAcquired i => .entering (desk i)
  | .answerWaited i => .sleeping (served i)
  | _ => .free

def PatientPc.held : PatientPc n → List (LockId n)
  | .reception .start | .reception (.lineReleased _) => []
  | .reception .lineAcquired | .reception (.lineEmptySignalled _) | .reception (.lineFullWaited _) =>
    [.receptionistLineLock]
  | .reception (.deskAcquired r) | .reception (.tokenWaited r) | .reception (.tokenSignalled r) =>
    [.receptionistLock r]
  | .door .start | .door (.lineReleased _) => []
  | .door .lineAcquired | .door .lineFullSignalled | .door .lineEmptyWaited | .door (.readSignalled _) =>
    [.doorboyLineLock]
  | .exam (.roomAcquired d) | .exam (.doctorSignalled d) | .exam (.diagnosisWaited d) | .exam (.leaveSignalled d) =>
    [.doctorLock d]
  | .cashier pc => pc.held .cashierLineLock .cashierLock
  | .pharmacy pc => pc.held .pharmacistLineLock .pharmacistLock
  | .leave .countAcquired => [.patientCountMutex]
  | .leave _ => []

def PatientPc.site : PatientPc n → Site (LockId n) (ConditionId n)
  | .reception .lineAcquired => .entering .receptionistLineLock
  | .reception (.lineFullWaited r) => .sleeping (.receptionistLineFullCv r)
  | .reception (.deskAcquired r) => .entering (.receptionistLock r)
  | .reception (.tokenWaited r) => .sleeping (.receptionistCv r)
  | .door .lineAcquired => .entering .doorboyLineLock
  | .door .lineEmptyWaited => .sleeping .doorboyLineEmptyCv
  | .exam (.roomAcquired d) => .entering (.doctorLock d)
  | .exam (.diagnosisWaited d) => .sleeping (.doctorCv d)
  | .cashier pc => pc.site .cashierLineLock .cashierLock .cashierLineEmptyCv .cashierCv
  | .pharmacy pc => pc.site .pharmacistLineLock .pharmacistLock .pharmacistLineEmptyCv .pharmacistCv
  | .leave .countAcquired => .entering .patientCountMutex
  | .leave .finished => .ended
  | _ => .free

def held (s : State n) : ThreadId n → List (LockId n)
  | .receptionist i => (s.receptionist i).held i
  | .doorboy b => (s.doorboy b).held
  | .doctor d => (s.doctor d).held d
  | .cashier i => (s.cashier i).held .cashierLineLock (.cashierLock i) .cashierPaymentLock
  | .pharmacist i => (s.pharmacist i).held .pharmacistLineLock (.pharmacistLock i) .pharmacistPaymentLock
  | .hospitalManager => s.manager.held
  | .patient p => (s.patient p).pc.held

def site (s : State n) : ThreadId n → Site (LockId n) (ConditionId n)
  | .receptionist i => (s.receptionist i).site i
  | .doorboy b => (s.doorboy b).site
  | .doctor d => (s.doctor d).site d
  | .cashier i =>
    (s.cashier i).site .cashierLineLock (.cashierLock i) .cashierPaymentLock .cashierBreakCv (.cashierCv i)
  | .pharmacist i =>
    (s.pharmacist i).site .pharmacistLineLock (.pharmacistLock i) .pharmacistPaymentLock .pharmacistBreakCv
      (.pharmacistCv i)
  | .hospitalManager => s.manager.site
  | .patient p => (s.patient p).pc.site

def program (n : Counts) : Program (ThreadId n) (LockId n) (ConditionId n) (State n) Draw (Event n) Fault where
  exec := exec
  initial := initialized n
  lockOf := lockOf
  held := held
  site := site

theorem map_ok {x : Except F α} {f : α → β} (mapped : x.map f = .ok b) : ∃ a, x = .ok a ∧ f a = b := by
  cases x with
  | error e => cases mapped
  | ok a => exact ⟨a,rfl,Except.ok.inj mapped⟩

theorem firstFree_free {state : Fin desks → Int} (found : firstFree state = some d) : state d = 0 := by
  have := List.find?_some found
  simpa using this

theorem firstFree_none {state : Fin desks → Int} (nobody : firstFree state = none) (d : Fin desks) : state d ≠ 0 := by
  simpa [firstFree] using List.find?_eq_none.mp nobody d (List.mem_finRange d)

theorem claim_some {line : Line desks} (claimed : line.claim = some (line',d)) :
    line.state d = 0 ∧ line' = ⟨line.availableCount - 1,line.lineLength - 1,Function.update line.state d 1⟩ := by
  obtain ⟨d',found,same⟩ := Option.map_eq_some_iff.mp claimed
  cases same
  exact ⟨firstFree_free found,rfl⟩

-- What a step leaves in the records of the threads.
inductive Changes (s : State n) (draw : Draw) : ThreadId n → State n → Op (LockId n) (ConditionId n) → List (Event n) → Prop where
  | receptionist : receptionist i s.reception (s.receptionist i) = .ok (reception,pc,op,events) →
      Changes s draw (.receptionist i)
        {s with reception := reception, receptionist := Function.update s.receptionist i pc} op events
  | doorboy : doorboy b s.door (s.doorboy b) = .ok (door,pc,op,events) →
      Changes s draw (.doorboy b) {s with door := door, doorboy := Function.update s.doorboy b pc} op events
  | doctor : doctor d (s.door,s.exam) draw (s.doctor d) = .ok ((door,exam),pc,op,events) →
      Changes s draw (.doctor d) {s with door := door, exam := exam, doctor := Function.update s.doctor d pc} op events
  | cashier : cashier i s.exam.patientConsultancyFee s.cashiers (s.cashier i) = .ok (cashiers,pc,op,events) →
      Changes s draw (.cashier i) {s with cashiers := cashiers, cashier := Function.update s.cashier i pc} op events
  | pharmacist : pharmacist i s.pharmacy (s.pharmacist i) = .ok (pharmacy,pc,op,events) →
      Changes s draw (.pharmacist i)
        {s with pharmacy := pharmacy, pharmacist := Function.update s.pharmacist i pc} op events
  | manager : hospitalManager s draw s.manager = (manager,op) →
      Changes s draw .hospitalManager {s with manager := manager} op []
  | atReception : (s.patient p).pc = .reception pc →
      patientReception p s.reception (s.patient p) pc = .ok (reception,me,op,events) →
      Changes s draw (.patient p) {s with reception := reception, patient := Function.update s.patient p me} op events
  | atDoor : (s.patient p).pc = .door pc → patientDoor p s.door (s.patient p) pc = .ok (door,me,op,events) →
      Changes s draw (.patient p) {s with door := door, patient := Function.update s.patient p me} op events
  | atExam : (s.patient p).pc = .exam pc → patientExam p s.exam (s.patient p) pc = .ok (exam,me,op,events) →
      Changes s draw (.patient p) {s with exam := exam, patient := Function.update s.patient p me} op events
  | atCashier : (s.patient p).pc = .cashier pc →
      patientCashier p s.cashiers (s.patient p) pc = .ok (cashiers,me,op,events) →
      Changes s draw (.patient p) {s with cashiers := cashiers, patient := Function.update s.patient p me} op events
  | atPharmacy : (s.patient p).pc = .pharmacy pc →
      patientPharmacy p s.pharmacy (s.patient p) pc = .ok (pharmacy,me,op,events) →
      Changes s draw (.patient p) {s with pharmacy := pharmacy, patient := Function.update s.patient p me} op events
  | leaving : (s.patient p).pc = .leave pc →
      patientLeave s.patientsInSystem (s.patient p) pc = .ok (patientsInSystem,me,op,events) →
      Changes s draw (.patient p)
        {s with patientsInSystem := patientsInSystem, patient := Function.update s.patient p me} op events

theorem exec_changes (executed : exec t s draw = .ok (s',op,events)) : Changes (n := n) s draw t s' op events := by
  cases t with
  | receptionist i =>
    obtain ⟨_,ran,same⟩ := map_ok executed
    cases same
    exact .receptionist ran
  | doorboy b =>
    obtain ⟨_,ran,same⟩ := map_ok executed
    cases same
    exact .doorboy ran
  | doctor d =>
    obtain ⟨_,ran,same⟩ := map_ok executed
    cases same
    exact .doctor ran
  | cashier i =>
    obtain ⟨_,ran,same⟩ := map_ok executed
    cases same
    exact .cashier ran
  | pharmacist i =>
    obtain ⟨_,ran,same⟩ := map_ok executed
    cases same
    exact .pharmacist ran
  | hospitalManager =>
    cases executed
    exact .manager rfl
  | patient p =>
    simp only [exec,patient] at executed
    split at executed
    all_goals
      rename_i pc place
      obtain ⟨_,ran,same⟩ := map_ok executed
      cases same
    · exact .atReception place ran
    · exact .atDoor place ran
    · exact .atExam place ran
    · exact .atCashier place ran
    · exact .atPharmacy place ran
    · exact .leaving place ran

open Program (Follows)

-- Every role uses its locks as its program counters say.
theorem receptionist_follows {i : Fin n.numberOfReceptionists}
    (ran : receptionist i data pc = .ok (data',pc',op,events)) :
    Follows lockOf (pc.held i) (pc'.held i) (pc'.site i) op := by
  unfold receptionist at ran
  repeat' split at ran
  all_goals cases ran
  all_goals constructor <;> simp [ReceptionistPc.held,ReceptionistPc.site,lockOf]
  all_goals grind

theorem doorboy_follows {b : Fin n.doorboysCount} (ran : doorboy b data pc = .ok (data',pc',op,events)) :
    Follows lockOf pc.held pc'.held pc'.site op := by
  unfold doorboy at ran
  repeat' split at ran
  all_goals cases ran
  all_goals constructor <;> simp [DoorboyPc.held,DoorboyPc.site,lockOf]
  all_goals grind

theorem doctor_follows {d : Fin n.doctorsCount} (ran : doctor d data draw pc = .ok (data',pc',op,events)) :
    Follows lockOf (pc.held d) (pc'.held d) (pc'.site d) op := by
  unfold doctor at ran
  dsimp only at ran
  repeat' split at ran
  all_goals cases ran
  all_goals constructor <;> simp [DoctorPc.held,DoctorPc.site,lockOf]
  all_goals grind

theorem cashier_follows {i : Fin n.cashiersCount} (ran : cashier i fees data pc = .ok (data',pc',op,events)) :
    Follows lockOf (pc.held .cashierLineLock (.cashierLock i) .cashierPaymentLock)
      (pc'.held .cashierLineLock (.cashierLock i) .cashierPaymentLock)
      (pc'.site .cashierLineLock (.cashierLock i) .cashierPaymentLock .cashierBreakCv (.cashierCv i)) op := by
  unfold cashier at ran
  dsimp only at ran
  repeat' split at ran
  all_goals cases ran
  all_goals constructor <;> simp [ClerkPc.held,ClerkPc.site,lockOf]
  all_goals grind

theorem pharmacist_follows {i : Fin n.numberOfPharmacists} (ran : pharmacist i data pc = .ok (data',pc',op,events)) :
    Follows lockOf (pc.held .pharmacistLineLock (.pharmacistLock i) .pharmacistPaymentLock)
      (pc'.held .pharmacistLineLock (.pharmacistLock i) .pharmacistPaymentLock)
      (pc'.site .pharmacistLineLock (.pharmacistLock i) .pharmacistPaymentLock .pharmacistBreakCv (.pharmacistCv i))
      op := by
  unfold pharmacist at ran
  dsimp only at ran
  repeat' split at ran
  all_goals cases ran
  all_goals constructor <;> simp [ClerkPc.held,ClerkPc.site,lockOf]
  all_goals grind

theorem manager_follows {s : State n} (ran : hospitalManager s draw pc = (pc',op)) (going : pc ≠ .finished) :
    Follows lockOf pc.held pc'.held pc'.site op := by
  unfold hospitalManager managerCashierSales managerReception at ran
  repeat' split at ran
  all_goals cases ran
  all_goals first | exact absurd rfl going | constructor <;> simp [ManagerPc.held,ManagerPc.site,lockOf]

theorem patientReception_follows {p : Fin n.numberOfPatients}
    (ran : patientReception p data me pc = .ok (data',me',op,events)) :
    Follows lockOf (PatientPc.reception pc).held me'.pc.held me'.pc.site op := by
  unfold patientReception at ran
  repeat' split at ran
  all_goals cases ran
  all_goals constructor <;> simp [PatientPc.held,PatientPc.site,lockOf]

theorem patientDoor_follows {p : Fin n.numberOfPatients}
    (ran : patientDoor p data me pc = .ok (data',me',op,events)) :
    Follows lockOf (PatientPc.door pc).held me'.pc.held me'.pc.site op := by
  unfold patientDoor at ran
  repeat' split at ran
  all_goals cases ran
  all_goals constructor <;> simp [PatientPc.held,PatientPc.site,lockOf]

theorem patientExam_follows {p : Fin n.numberOfPatients}
    (ran : patientExam p data me pc = .ok (data',me',op,events)) :
    Follows lockOf (PatientPc.exam pc).held me'.pc.held me'.pc.site op := by
  unfold patientExam at ran
  repeat' split at ran
  all_goals cases ran
  all_goals constructor <;> simp [PatientPc.held,PatientPc.site,VisitPc.held,VisitPc.site,lockOf]

theorem patientCashier_follows {p : Fin n.numberOfPatients}
    (ran : patientCashier p data me pc = .ok (data',me',op,events)) :
    Follows lockOf (PatientPc.cashier pc).held me'.pc.held me'.pc.site op := by
  unfold patientCashier at ran
  dsimp only at ran
  repeat' split at ran
  all_goals cases ran
  all_goals constructor <;> simp [PatientPc.held,PatientPc.site,VisitPc.held,VisitPc.site,lockOf]

theorem patientPharmacy_follows {p : Fin n.numberOfPatients}
    (ran : patientPharmacy p data me pc = .ok (data',me',op,events)) :
    Follows lockOf (PatientPc.pharmacy pc).held me'.pc.held me'.pc.site op := by
  unfold patientPharmacy at ran
  dsimp only at ran
  repeat' split at ran
  all_goals cases ran
  all_goals constructor <;> simp [PatientPc.held,PatientPc.site,VisitPc.held,VisitPc.site,lockOf]

theorem patientLeave_follows (ran : patientLeave count me pc = .ok (count',me',op,events)) (going : pc ≠ .finished) :
    Follows (lockOf (n := n)) (PatientPc.leave pc).held me'.pc.held me'.pc.site op := by
  unfold patientLeave at ran
  repeat' split at ran
  all_goals cases ran
  all_goals first | exact absurd rfl going | constructor <;> simp [PatientPc.held,PatientPc.site]

theorem changes_frame {s : State n} (changes : Changes s draw t s' op events) (other : u ≠ t) :
    held s' u = held s u ∧ site s' u = site s u := by
  cases changes <;> cases u <;> simp_all [held,site,Function.update_of_ne]

theorem changes_follows {s : State n} (changes : Changes s draw t s' op events) (going : site s t ≠ .ended) :
    Follows lockOf (held s t) (held s' t) (site s' t) op := by
  cases changes with
  | receptionist ran => simpa [held,site] using receptionist_follows ran
  | doorboy ran => simpa [held,site] using doorboy_follows ran
  | doctor ran => simpa [held,site] using doctor_follows ran
  | cashier ran => simpa [held,site] using cashier_follows ran
  | pharmacist ran => simpa [held,site] using pharmacist_follows ran
  | manager ran => exact manager_follows ran (by rintro ended; simp [site,ended,ManagerPc.site] at going)
  | atReception place ran => simpa [held,site,place] using patientReception_follows ran
  | atDoor place ran => simpa [held,site,place] using patientDoor_follows ran
  | atExam place ran => simpa [held,site,place] using patientExam_follows ran
  | atCashier place ran => simpa [held,site,place] using patientCashier_follows ran
  | atPharmacy place ran => simpa [held,site,place] using patientPharmacy_follows ran
  | leaving place ran =>
    have follows := patientLeave_follows ran (by rintro rfl; simp [site,place,PatientPc.site] at going)
    simpa [held,site,place] using follows

theorem disciplined (n : Counts) : (program n).Disciplined where
  start t := by cases t <;> exact ⟨rfl,rfl⟩
  frame executed other := changes_frame (exec_changes executed) other
  follows executed going := changes_follows (exec_changes executed) going

end Nachos.Hospital
