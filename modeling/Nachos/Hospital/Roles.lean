import Nachos.Hospital.Data

-- The seven thread functions of threadtest.cc. A step runs from the return of one
-- call to the next call: new shared data, new local state, the call, and the
-- events of the step. Loops that wait have their test in front of the Wait and
-- behind it, so both program counters share one branch.
namespace Nachos.Hospital
open Monitor

abbrev Outcome (n : Counts) (D X : Type) := Except Fault (D × X × Op (LockId n) (ConditionId n) × List (Event n))

variable {n : Counts}

-- `receptionist_line_length == 0` compares the array, not an entry of it.
def receptionistLineLengthIsNull : Bool := false

def receptionist (i : Fin n.numberOfReceptionists) (data : ReceptionData n) :
    ReceptionistPc → Outcome n (ReceptionData n) ReceptionistPc
  | .loop => .ok (data,.lineAcquired,.acquire .receptionistLineLock,[])
  | .lineAcquired | .lineEmptyWaited =>
    if data.receptionistLineLength i = 0 then
      .ok ({data with receptionistState := Function.update data.receptionistState i 0},.lineEmptyWaited,
        .wait (.receptionistLineEmptyCv i) .receptionistLineLock,[])
    else
      .ok ({data with receptionistState := Function.update data.receptionistState i 1},.lineFullSignalled,
        .signal (.receptionistLineFullCv i) .receptionistLineLock,[])
  | .lineFullSignalled => .ok (data,.lineReleased,.release .receptionistLineLock,[])
  | .lineReleased => .ok (data,.deskAcquired,.acquire (.receptionistLock i),[])
  | .deskAcquired | .bucketWaited =>
    if data.receptionistTokenBucket i ≠ -1 then
      .ok (data,.bucketWaited,.wait (.receptionistCv i) (.receptionistLock i),[])
    else .ok (data,.tokenAccessAcquired,.acquire .receptionistTokenAccessLock,[])
  | .tokenAccessAcquired =>
    .ok ({data with
        receptionistTokenBucket := Function.update data.receptionistTokenBucket i data.nextReceptionistToken
        nextReceptionistToken := data.nextReceptionistToken + 1},
      .tokenAccessReleased,.release .receptionistTokenAccessLock,[.tokenPlaced i data.nextReceptionistToken])
  | .tokenAccessReleased => .ok (data,.tokenSignalled,.signal (.receptionistCv i) (.receptionistLock i),[])
  | .tokenSignalled | .tokenWaited =>
    if data.receptionistTokenBucket i ≠ -1 then
      .ok (data,.tokenWaited,.wait (.receptionistCv i) (.receptionistLock i),[])
    else .ok (data,.deskReleased,.release (.receptionistLock i),[])
  | .deskReleased => .ok (data,.lineReacquired,.acquire .receptionistLineLock,[])
  | .lineReacquired =>
    if receptionistLineLengthIsNull then
      .ok ({data with receptionistState := Function.update data.receptionistState i 2},.breakWaited,
        .wait .receptionistBreakCv .receptionistLineLock,[])
    else .ok (data,.loop,.release .receptionistLineLock,[])
  | .breakWaited =>
    .ok ({data with receptionistState := Function.update data.receptionistState i 1},.loop,
      .release .receptionistLineLock,[])

-- The loop of the patient over the receptionists: it stops at the first empty
-- line, and otherwise keeps the first of the shortest ones.
def shortestLine (receptionistLineLength : Fin r → Int) (shortest : Fin r) : List (Fin r) → Fin r
  | [] => shortest
  | i :: later =>
    if receptionistLineLength i = 0 then i
    else if receptionistLineLength i < receptionistLineLength shortest then
      shortestLine receptionistLineLength i later
    else shortestLine receptionistLineLength shortest later

def myReceptionistIndex (data : ReceptionData n) : Option (Fin n.numberOfReceptionists) :=
  (List.finRange n.numberOfReceptionists).head?.map fun first =>
    shortestLine data.receptionistLineLength first (List.finRange n.numberOfReceptionists)

-- Steps of a patient keep to one part of the hospital; `me` is the patient's record.
def patientReception (p : Fin n.numberOfPatients) (data : ReceptionData n) (me : Patient n) :
    ReceptionPc n → Outcome n (ReceptionData n) (Patient n)
  | .start => .ok (data,{me with pc := .reception .lineAcquired},.acquire .receptionistLineLock,[])
  | .lineAcquired => match myReceptionistIndex data with
    | none => .error .indexOutOfRange
    | some r =>
      .ok ({data with receptionistLineLength :=
          Function.update data.receptionistLineLength r (data.receptionistLineLength r + 1)},
        {me with pc := .reception (.lineEmptySignalled r)},
        .signal (.receptionistLineEmptyCv r) .receptionistLineLock,[])
  | .lineEmptySignalled r =>
    .ok (data,{me with pc := .reception (.lineFullWaited r)},
      .wait (.receptionistLineFullCv r) .receptionistLineLock,[])
  | .lineFullWaited r =>
    .ok ({data with receptionistLineLength :=
        Function.update data.receptionistLineLength r (data.receptionistLineLength r - 1)},
      {me with pc := .reception (.lineReleased r)},.release .receptionistLineLock,[])
  | .lineReleased r => .ok (data,{me with pc := .reception (.deskAcquired r)},.acquire (.receptionistLock r),[])
  | .deskAcquired r | .tokenWaited r =>
    if data.receptionistTokenBucket r = -1 then
      .ok (data,{me with pc := .reception (.tokenWaited r)},.wait (.receptionistCv r) (.receptionistLock r),[])
    else
      .ok ({data with receptionistTokenBucket := Function.update data.receptionistTokenBucket r (-1)},
        {me with pc := .reception (.tokenSignalled r), myPatientToken := data.receptionistTokenBucket r},
        .signal (.receptionistCv r) (.receptionistLock r),[.tokenTaken p r (data.receptionistTokenBucket r)])
  | .tokenSignalled r => .ok (data,{me with pc := .door .start},.release (.receptionistLock r),[])

-- The search for a free doctor, cashier or pharmacist.
def firstFree (state : Fin desks → Int) : Option (Fin desks) :=
  (List.finRange desks).find? fun i => state i = 0

def patientDoor (p : Fin n.numberOfPatients) (data : DoorData n) (me : Patient n) :
    DoorPc n → Outcome n (DoorData n) (Patient n)
  | .start => .ok (data,{me with pc := .door .lineAcquired},.acquire .doorboyLineLock,[])
  | .lineAcquired =>
    .ok ({data with numberOfPatientsInDoorboyLine := data.numberOfPatientsInDoorboyLine + 1},
      {me with pc := .door .lineFullSignalled},.signal .doorboyLineFullCv .doorboyLineLock,[])
  | .lineFullSignalled =>
    .ok (data,{me with pc := .door .lineEmptyWaited},.wait .doorboyLineEmptyCv .doorboyLineLock,[])
  | .lineEmptyWaited =>
    .ok ({data with nextAvailableDoctor := none},{me with pc := .door (.readSignalled data.nextAvailableDoctor)},
      .signal .patientReadNextAvailableDoctorCv .doorboyLineLock,[.doctorRead p data.nextAvailableDoctor])
  | .readSignalled d => .ok (data,{me with pc := .door (.lineReleased d)},.release .doorboyLineLock,[])
  | .lineReleased none => .error .myDoctorIndexUnset
  | .lineReleased (some d) => .ok (data,{me with pc := .exam (.roomAcquired d)},.acquire (.doctorLock d),[])

def patientExam (p : Fin n.numberOfPatients) (data : ExamData n) (me : Patient n) :
    ExamPc n → Outcome n (ExamData n) (Patient n)
  | .roomAcquired d =>
    .ok (data,{me with pc := .exam (.doctorSignalled d)},.signal (.doctorCv d) (.doctorLock d),[])
  | .doctorSignalled d =>
    .ok ({data with patientDoctorBucket := Function.update data.patientDoctorBucket d me.myPatientToken},
      {me with pc := .exam (.diagnosisWaited d)},.wait (.doctorCv d) (.doctorLock d),[])
  | .diagnosisWaited d => match lookup diseases (data.patientDoctorBucket d) with
    | none => .error .indexOutOfRange
    | some _ =>
      .ok ({data with patientDoctorBucket := Function.update data.patientDoctorBucket d (-2)},
        {me with pc := .exam (.leaveSignalled d), myPatientDiagnosis := data.patientDoctorBucket d},
        .signal (.doctorCv d) (.doctorLock d),[.diagnosisRead p d (data.patientDoctorBucket d)])
  | .leaveSignalled d => .ok (data,{me with pc := .cashier .start},.release (.doctorLock d),[])

-- The patient leaves the line for the first free desk: the two loops over
-- cashier_state and pharmacist_status.
def Line.claim (line : Line desks) : Option (Line desks × Fin desks) :=
  (firstFree line.state).map fun i =>
    (⟨line.availableCount - 1,line.lineLength - 1,Function.update line.state i 1⟩,i)

def patientCashier (p : Fin n.numberOfPatients) (data : CashierData n) (me : Patient n) :
    VisitPc n.cashiersCount → Outcome n (CashierData n) (Patient n)
  | .start => .ok (data,{me with pc := .cashier .lineAcquired},.acquire .cashierLineLock,[])
  | .lineAcquired =>
    let line := {data.line with lineLength := data.line.lineLength + 1}
    if line.availableCount = 0 then
      .ok ({data with line},{me with pc := .cashier .lineWaited},.wait .cashierLineEmptyCv .cashierLineLock,[])
    else match line.claim with
      | none => .error .myCashierIndexUnset
      | some (line,i) =>
        .ok ({data with line},{me with pc := .cashier (.lineReleased i)},.release .cashierLineLock,[])
  | .lineWaited =>
    if data.line.availableCount = 0 then
      .ok (data,{me with pc := .cashier .lineWaited},.wait .cashierLineEmptyCv .cashierLineLock,[])
    else match data.line.claim with
      | none => .error .myCashierIndexUnset
      | some (line,i) =>
        .ok ({data with line},{me with pc := .cashier (.lineReleased i)},.release .cashierLineLock,[])
  | .lineReleased i => .ok (data,{me with pc := .cashier (.deskAcquired i)},.acquire (.cashierLock i),[])
  | .deskAcquired i =>
    .ok (data,{me with pc := .cashier (.deskSignalled i)},.signal (.cashierCv i) (.cashierLock i),[])
  | .deskSignalled i =>
    .ok ({data with patientCashierBucket := Function.update data.patientCashierBucket i me.myPatientToken},
      {me with pc := .cashier (.answerWaited i)},.wait (.cashierCv i) (.cashierLock i),[])
  | .answerWaited i =>
    .ok ({data with patientCashierBucket := Function.update data.patientCashierBucket i (-2)},
      {me with pc := .cashier (.leaveSignalled i)},.signal (.cashierCv i) (.cashierLock i),
      [.feePaid p i (data.patientCashierBucket i)])
  | .leaveSignalled i => .ok (data,{me with pc := .pharmacy .start},.release (.cashierLock i),[])

def patientPharmacy (p : Fin n.numberOfPatients) (data : PharmacyData n) (me : Patient n) :
    VisitPc n.numberOfPharmacists → Outcome n (PharmacyData n) (Patient n)
  | .start => .ok (data,{me with pc := .pharmacy .lineAcquired},.acquire .pharmacistLineLock,[])
  | .lineAcquired =>
    let line := {data.line with lineLength := data.line.lineLength + 1}
    if line.availableCount = 0 then
      .ok ({data with line},{me with pc := .pharmacy .lineWaited},.wait .pharmacistLineEmptyCv .pharmacistLineLock,[])
    else match line.claim with
      | none => .error .myPharmacistIndexUnset
      | some (line,i) =>
        .ok ({data with line},{me with pc := .pharmacy (.lineReleased i)},.release .pharmacistLineLock,[])
  | .lineWaited =>
    if data.line.availableCount = 0 then
      .ok (data,{me with pc := .pharmacy .lineWaited},.wait .pharmacistLineEmptyCv .pharmacistLineLock,[])
    else match data.line.claim with
      | none => .error .myPharmacistIndexUnset
      | some (line,i) =>
        .ok ({data with line},{me with pc := .pharmacy (.lineReleased i)},.release .pharmacistLineLock,[])
  | .lineReleased i => .ok (data,{me with pc := .pharmacy (.deskAcquired i)},.acquire (.pharmacistLock i),[])
  | .deskAcquired i =>
    .ok (data,{me with pc := .pharmacy (.deskSignalled i)},.signal (.pharmacistCv i) (.pharmacistLock i),[])
  | .deskSignalled i =>
    .ok ({data with
        toPharmacistPatientTokenBucket := Function.update data.toPharmacistPatientTokenBucket i me.myPatientToken
        toPharmacistPrescriptionBucket := Function.update data.toPharmacistPrescriptionBucket i me.myPatientDiagnosis},
      {me with pc := .pharmacy (.answerWaited i)},.wait (.pharmacistCv i) (.pharmacistLock i),[])
  | .answerWaited i =>
    -- NULL is 0 in the bucket of integers.
    .ok ({data with
        toPatientMedicineBucket := Function.update data.toPatientMedicineBucket i 0
        toPatientMedicineBillBucket := Function.update data.toPatientMedicineBillBucket i (-2)
        toPharmacistMedicinePaymentBucket :=
          Function.update data.toPharmacistMedicinePaymentBucket i (data.toPatientMedicineBillBucket i)},
      {me with pc := .pharmacy (.leaveSignalled i)},.signal (.pharmacistCv i) (.pharmacistLock i),
      [.billPaid p i (data.toPatientMedicineBillBucket i)])
  | .leaveSignalled i => .ok (data,{me with pc := .leave .start},.release (.pharmacistLock i),[])

def patientLeave (patientsInSystem : Int) (me : Patient n) : LeavePc → Outcome n Int (Patient n)
  | .start => .ok (patientsInSystem,{me with pc := .leave .countAcquired},.acquire .patientCountMutex,[])
  | .countAcquired => .ok (patientsInSystem - 1,{me with pc := .leave .countReleased},.release .patientCountMutex,[])
  | .countReleased | .finished => .ok (patientsInSystem,{me with pc := .leave .finished},.stop,[])

def doorboy (b : Fin n.doorboysCount) (data : DoorData n) : DoorboyPc n → Outcome n (DoorData n) (DoorboyPc n)
  | .loop => .ok (data,.lineAcquired,.acquire .doorboyLineLock,[])
  | .lineAcquired | .lineFullWaited =>
    if data.numberOfPatientsInDoorboyLine = 0 then
      .ok (data,.lineFullWaited,.wait .doorboyLineFullCv .doorboyLineLock,[])
    else
      .ok ({data with numberOfPatientsInDoorboyLine := data.numberOfPatientsInDoorboyLine - 1},.lineReleased,
        .release .doorboyLineLock,[])
  | .lineReleased => .ok (data,.doctorsAcquired,.acquire .doctorDoorboyLock,[])
  | .doctorsAcquired | .doctorWaited =>
    if data.numberOfAvailableDoctors = 0 then
      .ok (data,.doctorWaited,.wait .doctorAvailableCv .doctorDoorboyLock,[])
    else match firstFree data.doctorState with
      | none => .error .availableDoctorUnset
      | some d =>
        .ok ({data with
            doctorState := Function.update data.doctorState d 1
            numberOfAvailableDoctors := data.numberOfAvailableDoctors - 1},
          .lineReacquired d,.acquire .doorboyLineLock,[])
  | .lineReacquired d =>
    .ok ({data with nextAvailableDoctor := some d},.lineEmptySignalled,
      .signal .doorboyLineEmptyCv .doorboyLineLock,[.doctorStored b d])
  | .lineEmptySignalled => .ok (data,.readWaited,.wait .patientReadNextAvailableDoctorCv .doorboyLineLock,[])
  | .readWaited =>
    if data.nextAvailableDoctor = none then .ok (data,.doctorsReleased,.release .doctorDoorboyLock,[])
    else .error .nextAvailableDoctorSet
  | .doctorsReleased =>
    if data.numberOfPatientsInDoorboyLine = 0 then
      .ok (data,.breakWaited,.wait .doorboyBreakCv .doorboyLineLock,[])
    else .ok (data,.loop,.release .doorboyLineLock,[])
  | .breakWaited => .ok (data,.loop,.release .doorboyLineLock,[])

-- An entry of patient_consultancy_fee.
def tokenIndex (token : Int) : Option (Fin n.numberOfPatients) :=
  if inside : 0 ≤ token ∧ token < n.numberOfPatients then some ⟨token.toNat,by omega⟩ else none

def doctor (d : Fin n.doctorsCount) (data : DoorData n × ExamData n) (draw : Draw) :
    DoctorPc → Outcome n (DoorData n × ExamData n) DoctorPc
  | .loop => .ok (data,.doctorsAcquired,.acquire .doctorDoorboyLock,[])
  | .doctorsAcquired =>
    let (door,exam) := data
    .ok (({door with
        doctorState := Function.update door.doctorState d 0
        numberOfAvailableDoctors := door.numberOfAvailableDoctors + 1},exam),
      .availableSignalled,.signal .doctorAvailableCv .doctorDoorboyLock,[])
  | .availableSignalled => .ok (data,.roomAcquired,.acquire (.doctorLock d),[])
  | .roomAcquired => .ok (data,.doctorsReleased,.release .doctorDoorboyLock,[])
  | .doctorsReleased => .ok (data,.patientWaited,.wait (.doctorCv d) (.doctorLock d),[])
  | .patientWaited =>
    .ok (data,.randomAcquired (data.2.patientDoctorBucket d),.acquire .randomNumberLock,
      [.patientRead d (data.2.patientDoctorBucket d)])
  | .randomAcquired patientToken =>
    -- The third number is take_break, which nothing reads.
    let consultationTime := draw.first % 20 + 10
    let patientSickness : Int := (draw.second % 5 : Nat)
    .ok (data,.examining patientToken patientSickness consultationTime,.release .randomNumberLock,
      [.sicknessDrawn d patientToken patientSickness])
  | .examining patientToken patientSickness (remaining + 1) =>
    .ok (data,.examining patientToken patientSickness remaining,.skip,[])
  | .examining patientToken patientSickness 0 => match tokenIndex patientToken with
    | none => .error .indexOutOfRange
    | some entry =>
      let (door,exam) := data
      .ok ((door,{exam with
          patientDoctorBucket := Function.update exam.patientDoctorBucket d patientSickness
          patientConsultancyFee := Function.update exam.patientConsultancyFee entry patientSickness}),
        .diagnosisSignalled,.signal (.doctorCv d) (.doctorLock d),[.feeWritten d patientToken patientSickness])
  | .diagnosisSignalled | .leaveWaited =>
    if data.2.patientDoctorBucket d ≠ -2 then .ok (data,.leaveWaited,.wait (.doctorCv d) (.doctorLock d),[])
    else .ok (data,.loop,.release (.doctorLock d),[])

-- A cashier or pharmacist takes the state 0 and is counted as available.
def Line.opens (line : Line desks) (i : Fin desks) : Line desks :=
  {line with state := Function.update line.state i 0, availableCount := line.availableCount + 1}

def cashier (i : Fin n.cashiersCount) (patientConsultancyFee : Fin n.numberOfPatients → Int) (data : CashierData n) :
    ClerkPc CashierLocals → Outcome n (CashierData n) (ClerkPc CashierLocals)
  | .loop => .ok (data,.lineAcquired,.acquire .cashierLineLock,[])
  | .lineAcquired =>
    if data.line.lineLength = 0 then
      .ok ({data with line := {data.line with state := Function.update data.line.state i 2}},.breakWaited,
        .wait .cashierBreakCv .cashierLineLock,[])
    else .ok ({data with line := data.line.opens i},.lineSignalled,.signal .cashierLineEmptyCv .cashierLineLock,[])
  | .breakWaited =>
    .ok ({data with line := data.line.opens i},.lineSignalled,.signal .cashierLineEmptyCv .cashierLineLock,[])
  | .lineSignalled => .ok (data,.deskAcquired,.acquire (.cashierLock i),[])
  | .deskAcquired => .ok (data,.lineReleased,.release .cashierLineLock,[])
  | .lineReleased => .ok (data,.patientWaited,.wait (.cashierCv i) (.cashierLock i),[])
  | .patientWaited =>
    let myPatientToken := data.patientCashierBucket i
    if myPatientToken = -2 then .error .cashierPatientTokenUnset
    else match tokenIndex myPatientToken with
      | none => .error .indexOutOfRange
      | some entry =>
        let totalConsultationFee := patientConsultancyFee entry
        .ok ({data with patientCashierBucket := Function.update data.patientCashierBucket i totalConsultationFee},
          .answerSignalled ⟨myPatientToken,totalConsultationFee⟩,.signal (.cashierCv i) (.cashierLock i),
          [.feeRead i myPatientToken totalConsultationFee])
  | .answerSignalled about | .answerWaited about =>
    if data.patientCashierBucket i ≠ -2 then
      .ok (data,.answerWaited about,.wait (.cashierCv i) (.cashierLock i),[])
    else .ok (data,.paymentAcquired about,.acquire .cashierPaymentLock,[])
  | .paymentAcquired about =>
    .ok ({data with totalCashierFee := data.totalCashierFee + about.totalConsultationFee},.paymentReleased,
      .release .cashierPaymentLock,[.feeRecorded i about.myPatientToken about.totalConsultationFee])
  | .paymentReleased => .ok (data,.loop,.release (.cashierLock i),[])

def pharmacist (i : Fin n.numberOfPharmacists) (data : PharmacyData n) :
    ClerkPc PharmacistLocals → Outcome n (PharmacyData n) (ClerkPc PharmacistLocals)
  | .loop => .ok (data,.lineAcquired,.acquire .pharmacistLineLock,[])
  | .lineAcquired =>
    if data.line.lineLength = 0 then
      .ok ({data with line := {data.line with state := Function.update data.line.state i 2}},.breakWaited,
        .wait .pharmacistBreakCv .pharmacistLineLock,[])
    else
      .ok ({data with line := data.line.opens i},.lineSignalled,.signal .pharmacistLineEmptyCv .pharmacistLineLock,[])
  | .breakWaited =>
    .ok ({data with line := data.line.opens i},.lineSignalled,.signal .pharmacistLineEmptyCv .pharmacistLineLock,[])
  | .lineSignalled => .ok (data,.deskAcquired,.acquire (.pharmacistLock i),[])
  | .deskAcquired => .ok (data,.lineReleased,.release .pharmacistLineLock,[])
  | .lineReleased => .ok (data,.patientWaited,.wait (.pharmacistCv i) (.pharmacistLock i),[])
  | .patientWaited =>
    let myPatientToken := data.toPharmacistPatientTokenBucket i
    let myPatientPrescription := data.toPharmacistPrescriptionBucket i
    match lookup medicines myPatientPrescription,lookup medicineCosts myPatientPrescription with
    | some _,some patientMedicineCost =>
      if myPatientToken = -2 then .error .pharmacistPatientTokenUnset
      else
        .ok ({data with
            toPharmacistPrescriptionBucket := Function.update data.toPharmacistPrescriptionBucket i (-2)
            toPatientMedicineBucket := Function.update data.toPatientMedicineBucket i myPatientPrescription
            toPatientMedicineBillBucket := Function.update data.toPatientMedicineBillBucket i patientMedicineCost},
          .answerSignalled ⟨myPatientToken⟩,.signal (.pharmacistCv i) (.pharmacistLock i),[])
    | _,_ => .error .indexOutOfRange
  | .answerSignalled about => .ok (data,.answerWaited about,.wait (.pharmacistCv i) (.pharmacistLock i),[])
  | .answerWaited about => .ok (data,.paymentAcquired about,.acquire .pharmacistPaymentLock,[])
  | .paymentAcquired about =>
    let paymentForMedicine := data.toPharmacistMedicinePaymentBucket i
    if paymentForMedicine = -2 then .error .paymentForMedicineUnset
    else
      .ok ({data with
          totalPharmacsitMoneyCollected := data.totalPharmacsitMoneyCollected + paymentForMedicine
          toPharmacistMedicinePaymentBucket := Function.update data.toPharmacistMedicinePaymentBucket i (-2)},
        .paymentReleased,.release .pharmacistPaymentLock,
        [.paymentRecorded i about.myPatientToken paymentForMedicine])
  | .paymentReleased => .ok (data,.loop,.release (.pharmacistLock i),[])

-- The rest of the loop over the receptionists, from index i on: the next long
-- line gives a Signal, and the end of the loop a Release.
def receptionistRound (receptionistLineLength : Fin r → Int) (i : Nat) : Option Nat :=
  ((List.finRange r).find? fun j => i ≤ j.val ∧ 2 < receptionistLineLength j).map Fin.val

def managerReception (s : State n) (i : Nat) : ManagerPc × Op (LockId n) (ConditionId n) :=
  match receptionistRound s.reception.receptionistLineLength i with
  | some j => (.receptionSignalled (j + 1),.signal .receptionistBreakCv .receptionistLineLock)
  | none => (.receptionReleased,.release .receptionistLineLock)

def managerCashierSales (sales : ManagerLocals) : ManagerPc × Op (LockId n) (ConditionId n) :=
  if sales.requestTotalCashierSales then (.cashierSalesAcquired,.acquire .cashierPaymentLock)
  else (.receptionAcquired,.acquire .receptionistLineLock)

-- The manager only reads the shared data.
def hospitalManager (s : State n) (draw : Draw) : ManagerPc → ManagerPc × Op (LockId n) (ConditionId n)
  | .loop => (.randomAcquired,.acquire .randomNumberLock)
  | .randomAcquired =>
    (.waiting ⟨draw.second % 2 = 0,draw.third % 2 = 0⟩ (draw.first % 75 + 25),.release .randomNumberLock)
  | .waiting sales (remaining + 1) => (.waiting sales remaining,.skip)
  | .waiting sales 0 => (.countAcquired sales,.acquire .patientCountMutex)
  | .countAcquired sales => (.countReleased sales (s.patientsInSystem ≠ 0),.release .patientCountMutex)
  | .countReleased _ false => (.finished,.stop)
  | .countReleased sales true =>
    if sales.requestTotalPharmacySales then (.pharmacySalesAcquired sales,.acquire .pharmacistPaymentLock)
    else managerCashierSales sales
  | .pharmacySalesAcquired sales => (.pharmacySalesReleased sales,.release .pharmacistPaymentLock)
  | .pharmacySalesReleased sales => managerCashierSales sales
  | .cashierSalesAcquired => (.cashierSalesReleased,.release .cashierPaymentLock)
  | .cashierSalesReleased => (.receptionAcquired,.acquire .receptionistLineLock)
  | .receptionAcquired => managerReception s 0
  | .receptionSignalled i => managerReception s i
  | .receptionReleased => (.doorAcquired,.acquire .doorboyLineLock)
  | .doorAcquired =>
    if s.door.numberOfPatientsInDoorboyLine ≠ 0 then (.doorSignalled,.signal .doorboyBreakCv .doorboyLineLock)
    else (.doorReleased,.release .doorboyLineLock)
  | .doorSignalled => (.doorReleased,.release .doorboyLineLock)
  | .doorReleased => (.cashierAcquired,.acquire .cashierLineLock)
  | .cashierAcquired =>
    if s.cashiers.line.lineLength ≠ 0 then (.cashierSignalled,.signal .cashierBreakCv .cashierLineLock)
    else (.cashierReleased,.release .cashierLineLock)
  | .cashierSignalled => (.cashierReleased,.release .cashierLineLock)
  | .cashierReleased => (.pharmacyAcquired,.acquire .pharmacistLineLock)
  | .pharmacyAcquired =>
    if s.pharmacy.line.lineLength ≠ 0 then (.pharmacySignalled,.signal .pharmacistBreakCv .pharmacistLineLock)
    else (.loop,.release .pharmacistLineLock)
  | .pharmacySignalled => (.loop,.release .pharmacistLineLock)
  | .finished => (.finished,.stop)

def patient (p : Fin n.numberOfPatients) (s : State n) :
    Except Fault (State n × Op (LockId n) (ConditionId n) × List (Event n)) :=
  let me := s.patient p
  match me.pc with
  | .reception pc => (patientReception p s.reception me pc).map fun (reception,me,op,events) =>
    ({s with reception, patient := Function.update s.patient p me},op,events)
  | .door pc => (patientDoor p s.door me pc).map fun (door,me,op,events) =>
    ({s with door, patient := Function.update s.patient p me},op,events)
  | .exam pc => (patientExam p s.exam me pc).map fun (exam,me,op,events) =>
    ({s with exam, patient := Function.update s.patient p me},op,events)
  | .cashier pc => (patientCashier p s.cashiers me pc).map fun (cashiers,me,op,events) =>
    ({s with cashiers, patient := Function.update s.patient p me},op,events)
  | .pharmacy pc => (patientPharmacy p s.pharmacy me pc).map fun (pharmacy,me,op,events) =>
    ({s with pharmacy, patient := Function.update s.patient p me},op,events)
  | .leave pc => (patientLeave s.patientsInSystem me pc).map fun (patientsInSystem,me,op,events) =>
    ({s with patientsInSystem, patient := Function.update s.patient p me},op,events)

def exec (t : ThreadId n) (s : State n) (draw : Draw) :
    Except Fault (State n × Op (LockId n) (ConditionId n) × List (Event n)) :=
  match t with
  | .receptionist i => (receptionist i s.reception (s.receptionist i)).map fun (reception,pc,op,events) =>
    ({s with reception, receptionist := Function.update s.receptionist i pc},op,events)
  | .doorboy b => (doorboy b s.door (s.doorboy b)).map fun (door,pc,op,events) =>
    ({s with door, doorboy := Function.update s.doorboy b pc},op,events)
  | .doctor d => (doctor d (s.door,s.exam) draw (s.doctor d)).map fun ((door,exam),pc,op,events) =>
    ({s with door, exam, doctor := Function.update s.doctor d pc},op,events)
  | .cashier i =>
    (cashier i s.exam.patientConsultancyFee s.cashiers (s.cashier i)).map fun (cashiers,pc,op,events) =>
      ({s with cashiers, cashier := Function.update s.cashier i pc},op,events)
  | .pharmacist i => (pharmacist i s.pharmacy (s.pharmacist i)).map fun (pharmacy,pc,op,events) =>
    ({s with pharmacy, pharmacist := Function.update s.pharmacist i pc},op,events)
  | .hospitalManager =>
    let (manager,op) := hospitalManager s draw s.manager
    .ok ({s with manager},op,[])
  | .patient p => patient p s

end Nachos.Hospital
