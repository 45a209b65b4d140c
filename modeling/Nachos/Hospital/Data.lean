import Nachos.Library.Monitor

-- The shared data of the hospital simulation, its threads, locks and conditions,
-- and the local state of each role. A program counter is named after the call
-- that a thread made last; a local index lives in the program counter from the
-- statement that sets it to the last one that reads it. Index variables whose
-- value -2 means that none was found are `none` then; buckets keep their
-- integers. Output is left out.
namespace Nachos.Hospital
open Monitor

structure Counts where
  numberOfReceptionists : Nat
  doorboysCount : Nat
  doctorsCount : Nat
  cashiersCount : Nat
  numberOfPharmacists : Nat
  numberOfPatients : Nat

inductive ThreadId (n : Counts) where
  | receptionist (index : Fin n.numberOfReceptionists)
  | doorboy (index : Fin n.doorboysCount)
  | doctor (index : Fin n.doctorsCount)
  | cashier (index : Fin n.cashiersCount)
  | pharmacist (index : Fin n.numberOfPharmacists)
  | hospitalManager
  | patient (index : Fin n.numberOfPatients)
  deriving DecidableEq

-- All threads but the manager, the patients first.
def everyone (n : Counts) : List (ThreadId n) :=
  (List.finRange n.numberOfPatients).map .patient ++ (List.finRange n.numberOfReceptionists).map .receptionist ++
    (List.finRange n.doorboysCount).map .doorboy ++ (List.finRange n.doctorsCount).map .doctor ++
    (List.finRange n.cashiersCount).map .cashier ++ (List.finRange n.numberOfPharmacists).map .pharmacist

inductive LockId (n : Counts) where
  | randomNumberLock
  | patientCountMutex
  | receptionistLineLock
  | receptionistLock (index : Fin n.numberOfReceptionists)
  | receptionistTokenAccessLock
  | doctorDoorboyLock
  | doorboyLineLock
  | doctorLock (index : Fin n.doctorsCount)
  | cashierPaymentLock
  | cashierLineLock
  | cashierLock (index : Fin n.cashiersCount)
  | pharmacistPaymentLock
  | pharmacistLineLock
  | pharmacistLock (index : Fin n.numberOfPharmacists)
  deriving DecidableEq

inductive ConditionId (n : Counts) where
  | receptionistBreakCv
  | receptionistLineEmptyCv (index : Fin n.numberOfReceptionists)
  | receptionistLineFullCv (index : Fin n.numberOfReceptionists)
  | receptionistCv (index : Fin n.numberOfReceptionists)
  | doorboyBreakCv
  | patientReadNextAvailableDoctorCv
  | doorboyLineEmptyCv
  | doorboyLineFullCv
  | doctorAvailableCv
  | doctorCv (index : Fin n.doctorsCount)
  | cashierBreakCv
  | cashierLineEmptyCv
  | cashierCv (index : Fin n.cashiersCount)
  | pharmacistBreakCv
  | pharmacistLineEmptyCv
  | pharmacistCv (index : Fin n.numberOfPharmacists)
  deriving DecidableEq

-- The lock that every Wait and Signal on the condition passes.
def lockOf : ConditionId n → LockId n
  | .receptionistBreakCv | .receptionistLineEmptyCv _ | .receptionistLineFullCv _ => .receptionistLineLock
  | .receptionistCv i => .receptionistLock i
  | .doorboyBreakCv | .patientReadNextAvailableDoctorCv | .doorboyLineEmptyCv | .doorboyLineFullCv => .doorboyLineLock
  | .doctorAvailableCv => .doctorDoorboyLock
  | .doctorCv i => .doctorLock i
  | .cashierBreakCv | .cashierLineEmptyCv => .cashierLineLock
  | .cashierCv i => .cashierLock i
  | .pharmacistBreakCv | .pharmacistLineEmptyCv => .pharmacistLineLock
  | .pharmacistCv i => .pharmacistLock i

def diseases : List String :=
  ["is not sick","is sick with measles","is sick with chickenpox","is sick with typhoid","is sick with gangrene"]

def medicines : List String := ["","ibuprofen","vaccination shots","antibiotics","penicillin"]

def consultationCost : List Int := [25,35,45,55,65]

def medicineCosts : List Int := [0,15,20,25,30]

-- Reading an array at an index; `none` is outside the array.
def lookup (array : List α) (index : Int) : Option α :=
  if 0 ≤ index then array[index.toNat]? else none

structure ReceptionData (n : Counts) where
  nextReceptionistToken : Int
  receptionistTokenBucket : Fin n.numberOfReceptionists → Int
  receptionistLineLength : Fin n.numberOfReceptionists → Int
  receptionistState : Fin n.numberOfReceptionists → Int

structure DoorData (n : Counts) where
  doctorState : Fin n.doctorsCount → Int
  numberOfPatientsInDoorboyLine : Int
  numberOfAvailableDoctors : Int
  nextAvailableDoctor : Option (Fin n.doctorsCount)

structure ExamData (n : Counts) where
  patientDoctorBucket : Fin n.doctorsCount → Int
  patientConsultancyFee : Fin n.numberOfPatients → Int

-- The line in front of the cashiers or of the pharmacists: cashier_available_count,
-- number_of_patients_in_cashier_line and cashier_state, or pharmacist_available_count,
-- pharmacist_line_length and pharmacist_status.
structure Line (desks : Nat) where
  availableCount : Int
  lineLength : Int
  state : Fin desks → Int

structure CashierData (n : Counts) where
  totalCashierFee : Int
  line : Line n.cashiersCount
  patientCashierBucket : Fin n.cashiersCount → Int

structure PharmacyData (n : Counts) where
  totalPharmacsitMoneyCollected : Int
  line : Line n.numberOfPharmacists
  toPharmacistPatientTokenBucket : Fin n.numberOfPharmacists → Int
  toPharmacistPrescriptionBucket : Fin n.numberOfPharmacists → Int
  toPatientMedicineBucket : Fin n.numberOfPharmacists → Int
  toPatientMedicineBillBucket : Fin n.numberOfPharmacists → Int
  toPharmacistMedicinePaymentBucket : Fin n.numberOfPharmacists → Int

inductive ReceptionistPc where
  | loop
  | lineAcquired
  | lineEmptyWaited
  | lineFullSignalled
  | lineReleased
  | deskAcquired
  | bucketWaited
  | tokenAccessAcquired
  | tokenAccessReleased
  | tokenSignalled
  | tokenWaited
  | deskReleased
  | lineReacquired
  | breakWaited
  deriving DecidableEq

inductive DoorboyPc (n : Counts) where
  | loop
  | lineAcquired
  | lineFullWaited
  | lineReleased
  | doctorsAcquired
  | doctorWaited
  | lineReacquired (availableDoctor : Fin n.doctorsCount)
  | lineEmptySignalled
  | readWaited
  | doctorsReleased
  | breakWaited

inductive DoctorPc where
  | loop
  | doctorsAcquired
  | availableSignalled
  | roomAcquired
  | doctorsReleased
  | patientWaited
  | randomAcquired (patientToken : Int)
  | examining (patientToken patientSickness : Int) (remaining : Nat)
  | diagnosisSignalled
  | leaveWaited

-- Cashiers and pharmacists go through the same calls; `B` is what they remember
-- of the patient in front of them.
inductive ClerkPc (B : Type) where
  | loop
  | lineAcquired
  | breakWaited
  | lineSignalled
  | deskAcquired
  | lineReleased
  | patientWaited
  | answerSignalled (about : B)
  | answerWaited (about : B)
  | paymentAcquired (about : B)
  | paymentReleased

structure CashierLocals where
  myPatientToken : Int
  totalConsultationFee : Int

structure PharmacistLocals where
  myPatientToken : Int

structure ManagerLocals where
  requestTotalCashierSales : Bool
  requestTotalPharmacySales : Bool

inductive ManagerPc where
  | loop
  | randomAcquired
  | waiting (sales : ManagerLocals) (remaining : Nat)
  | countAcquired (sales : ManagerLocals)
  | countReleased (sales : ManagerLocals) (continueRunning : Bool)
  | pharmacySalesAcquired (sales : ManagerLocals)
  | pharmacySalesReleased (sales : ManagerLocals)
  | cashierSalesAcquired
  | cashierSalesReleased
  | receptionAcquired
  | receptionSignalled (i : Nat)
  | receptionReleased
  | doorAcquired
  | doorSignalled
  | doorReleased
  | cashierAcquired
  | cashierSignalled
  | cashierReleased
  | pharmacyAcquired
  | pharmacySignalled
  | finished

inductive ReceptionPc (n : Counts) where
  | start
  | lineAcquired
  | lineEmptySignalled (myReceptionistIndex : Fin n.numberOfReceptionists)
  | lineFullWaited (myReceptionistIndex : Fin n.numberOfReceptionists)
  | lineReleased (myReceptionistIndex : Fin n.numberOfReceptionists)
  | deskAcquired (myReceptionistIndex : Fin n.numberOfReceptionists)
  | tokenWaited (myReceptionistIndex : Fin n.numberOfReceptionists)
  | tokenSignalled (myReceptionistIndex : Fin n.numberOfReceptionists)

inductive DoorPc (n : Counts) where
  | start
  | lineAcquired
  | lineFullSignalled
  | lineEmptyWaited
  | readSignalled (myDoctorIndex : Option (Fin n.doctorsCount))
  | lineReleased (myDoctorIndex : Option (Fin n.doctorsCount))

inductive ExamPc (n : Counts) where
  | roomAcquired (myDoctorIndex : Fin n.doctorsCount)
  | doctorSignalled (myDoctorIndex : Fin n.doctorsCount)
  | diagnosisWaited (myDoctorIndex : Fin n.doctorsCount)
  | leaveSignalled (myDoctorIndex : Fin n.doctorsCount)

-- A patient at the cashiers or at the pharmacists.
inductive VisitPc (desks : Nat) where
  | start
  | lineAcquired
  | lineWaited
  | lineReleased (desk : Fin desks)
  | deskAcquired (desk : Fin desks)
  | deskSignalled (desk : Fin desks)
  | answerWaited (desk : Fin desks)
  | leaveSignalled (desk : Fin desks)
  deriving DecidableEq

inductive LeavePc where
  | start
  | countAcquired
  | countReleased
  | finished

inductive PatientPc (n : Counts) where
  | reception (pc : ReceptionPc n)
  | door (pc : DoorPc n)
  | exam (pc : ExamPc n)
  | cashier (pc : VisitPc n.cashiersCount)
  | pharmacy (pc : VisitPc n.numberOfPharmacists)
  | leave (pc : LeavePc)

structure Patient (n : Counts) where
  pc : PatientPc n
  myPatientToken : Int
  myPatientDiagnosis : Int

structure State (n : Counts) where
  patientsInSystem : Int
  reception : ReceptionData n
  door : DoorData n
  exam : ExamData n
  cashiers : CashierData n
  pharmacy : PharmacyData n
  receptionist : Fin n.numberOfReceptionists → ReceptionistPc
  doorboy : Fin n.doorboysCount → DoorboyPc n
  doctor : Fin n.doctorsCount → DoctorPc
  cashier : Fin n.cashiersCount → ClerkPc CashierLocals
  pharmacist : Fin n.numberOfPharmacists → ClerkPc PharmacistLocals
  manager : ManagerPc
  patient : Fin n.numberOfPatients → Patient n

-- The globals as initialize() leaves them, with every thread at its first statement.
def initialized (n : Counts) : State n where
  patientsInSystem := n.numberOfPatients
  reception := ⟨0,fun _ => -1,fun _ => 0,fun _ => 1⟩
  door := ⟨fun _ => 1,0,0,none⟩
  exam := ⟨fun _ => -2,fun _ => -2⟩
  cashiers := ⟨0,⟨0,0,fun _ => 1⟩,fun _ => -2⟩
  pharmacy := ⟨0,⟨0,0,fun _ => 1⟩,fun _ => -2,fun _ => -2,fun _ => -2,fun _ => -2,fun _ => -2⟩
  receptionist := fun _ => .loop
  doorboy := fun _ => .loop
  doctor := fun _ => .loop
  cashier := fun _ => .loop
  pharmacist := fun _ => .loop
  manager := .loop
  patient := fun _ => ⟨.reception .start,-2,-2⟩

-- The three results of rand() that a doctor or the manager takes in one critical section.
structure Draw where
  first : Nat
  second : Nat
  third : Nat

-- What ends a run before its time: a failed assertion or an index outside an array.
inductive Fault where
  | myDoctorIndexUnset
  | availableDoctorUnset
  | nextAvailableDoctorSet
  | myCashierIndexUnset
  | myPharmacistIndexUnset
  | cashierPatientTokenUnset
  | pharmacistPatientTokenUnset
  | paymentForMedicineUnset
  | indexOutOfRange

-- The reads and writes of shared data that later code depends on.
inductive Event (n : Counts) where
  | tokenPlaced (receptionist : Fin n.numberOfReceptionists) (token : Int)
  | tokenTaken (patient : Fin n.numberOfPatients) (receptionist : Fin n.numberOfReceptionists) (token : Int)
  | doctorStored (doorboy : Fin n.doorboysCount) (doctor : Fin n.doctorsCount)
  | doctorRead (patient : Fin n.numberOfPatients) (doctor : Option (Fin n.doctorsCount))
  | patientRead (doctor : Fin n.doctorsCount) (token : Int)
  | sicknessDrawn (doctor : Fin n.doctorsCount) (token sickness : Int)
  | feeWritten (doctor : Fin n.doctorsCount) (token fee : Int)
  | diagnosisRead (patient : Fin n.numberOfPatients) (doctor : Fin n.doctorsCount) (diagnosis : Int)
  | feeRead (cashier : Fin n.cashiersCount) (token fee : Int)
  | feePaid (patient : Fin n.numberOfPatients) (cashier : Fin n.cashiersCount) (fee : Int)
  | feeRecorded (cashier : Fin n.cashiersCount) (token fee : Int)
  | billPaid (patient : Fin n.numberOfPatients) (pharmacist : Fin n.numberOfPharmacists) (bill : Int)
  | paymentRecorded (pharmacist : Fin n.numberOfPharmacists) (token payment : Int)

end Nachos.Hospital
