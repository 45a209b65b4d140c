import Nachos.Hospital.Program

-- One order of the locks that every nesting in the simulation respects.
namespace Nachos.Hospital
open Monitor

variable {n : Counts}

def rank : LockId n → Nat
  | .receptionistLineLock | .doctorDoorboyLock | .cashierLineLock | .pharmacistLineLock | .patientCountMutex => 0
  | .receptionistLock _ | .doorboyLineLock | .doctorLock _ | .cashierLock _ | .pharmacistLock _ => 1
  | .receptionistTokenAccessLock | .randomNumberLock | .cashierPaymentLock | .pharmacistPaymentLock => 2

-- What one program counter holds lies below the lock it has to get.
def Below (held : List (LockId n)) (site : Site (LockId n) (ConditionId n)) : Prop :=
  match site.needs lockOf with
  | none => True
  | some l => ∀ m ∈ held, m = l ∨ rank m < rank l

theorem receptionist_below (i : Fin n.numberOfReceptionists) (pc : ReceptionistPc) : Below (pc.held i) (pc.site i) := by
  cases pc <;> simp [Below,ReceptionistPc.held,ReceptionistPc.site,Site.needs,lockOf,rank]

theorem doorboy_below (pc : DoorboyPc n) : Below pc.held pc.site := by
  cases pc <;> simp [Below,DoorboyPc.held,DoorboyPc.site,Site.needs,lockOf,rank]

theorem doctor_below (d : Fin n.doctorsCount) (pc : DoctorPc) : Below (pc.held d) (pc.site d) := by
  cases pc <;> simp [Below,DoctorPc.held,DoctorPc.site,Site.needs,lockOf,rank]

theorem cashier_below (i : Fin n.cashiersCount) (pc : ClerkPc B) :
    Below (pc.held .cashierLineLock (.cashierLock i) .cashierPaymentLock)
      (pc.site .cashierLineLock (.cashierLock i) .cashierPaymentLock .cashierBreakCv (.cashierCv i)) := by
  cases pc <;> simp [Below,ClerkPc.held,ClerkPc.site,Site.needs,lockOf,rank]

theorem pharmacist_below (i : Fin n.numberOfPharmacists) (pc : ClerkPc B) :
    Below (pc.held .pharmacistLineLock (.pharmacistLock i) .pharmacistPaymentLock)
      (pc.site .pharmacistLineLock (.pharmacistLock i) .pharmacistPaymentLock .pharmacistBreakCv
        (.pharmacistCv i)) := by
  cases pc <;> simp [Below,ClerkPc.held,ClerkPc.site,Site.needs,lockOf,rank]

theorem manager_below (pc : ManagerPc) : Below (n := n) pc.held pc.site := by
  cases pc <;> simp [Below,ManagerPc.held,ManagerPc.site,Site.needs]

-- Patients never hold two locks at once.
theorem patient_below (pc : PatientPc n) : Below pc.held pc.site := by
  cases pc with
  | reception pc => cases pc <;> simp [Below,PatientPc.held,PatientPc.site,Site.needs,lockOf]
  | door pc => cases pc <;> simp [Below,PatientPc.held,PatientPc.site,Site.needs,lockOf]
  | exam pc => cases pc <;> simp [Below,PatientPc.held,PatientPc.site,Site.needs,lockOf]
  | cashier pc => cases pc <;> simp [Below,PatientPc.held,PatientPc.site,VisitPc.held,VisitPc.site,Site.needs,lockOf]
  | pharmacy pc => cases pc <;> simp [Below,PatientPc.held,PatientPc.site,VisitPc.held,VisitPc.site,Site.needs,lockOf]
  | leave pc => cases pc <;> simp [Below,PatientPc.held,PatientPc.site,Site.needs]

theorem ordered (n : Counts) : (program n).Ordered rank := by
  intro s t l m needs held differs
  have below : Below (Hospital.held s t) (Hospital.site s t) := by
    cases t with
    | receptionist i => exact receptionist_below i _
    | doorboy b => exact doorboy_below _
    | doctor d => exact doctor_below d _
    | cashier i => exact cashier_below i _
    | pharmacist i => exact pharmacist_below i _
    | hospitalManager => exact manager_below _
    | patient p => exact patient_below _
  have needs : (Hospital.site s t).needs lockOf = some l := needs
  simp only [Below,needs] at below
  exact (below m held).resolve_left differs

-- No state of the simulation has a cycle of threads blocked on each other's locks.
theorem locks_never_deadlock (reached : Machine.Reached (program n) m) (t : ThreadId n) :
    ¬Relation.TransGen (Machine.WaitsFor m.kernel) t t := by
  obtain ⟨valid,coupled⟩ := Machine.reached_valid (disciplined n) reached
  exact Machine.waits_acyclic (ordered n) valid coupled t

-- A receptionist and a patient at the line lock: one edge, and no way back.
def atLineLock : List (ThreadId ⟨1,0,0,0,0,1⟩) := [.receptionist (Fin.last 0),.patient (Fin.last 0)]

theorem locks_never_deadlock_at_line :
    ∃ m, (Machine.initial (program ⟨1,0,0,0,0,1⟩)).dispatch (program ⟨1,0,0,0,0,1⟩) ⟨0,0,0⟩ atLineLock = some m ∧
      Machine.WaitsFor m.kernel (.patient 0) (.receptionist 0) ∧
      ¬Relation.TransGen (Machine.WaitsFor m.kernel) (.receptionist 0) (.receptionist 0) := by
  refine ⟨_,rfl,⟨.receptionistLineLock,rfl,rfl,rfl⟩,?_⟩
  have ran : (Machine.initial (program ⟨1,0,0,0,0,1⟩)).dispatch (program ⟨1,0,0,0,0,1⟩) ⟨0,0,0⟩ atLineLock = some _ := rfl
  exact locks_never_deadlock (Machine.dispatch_reached .initial ran) _

end Nachos.Hospital
