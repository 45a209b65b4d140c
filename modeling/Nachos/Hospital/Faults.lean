import Nachos.Hospital.Program

-- Where the code of a thread can end a run before its time.
namespace Nachos.Hospital
open Monitor

variable {n : Counts}

inductive Fails (s : State n) : ThreadId n → Fault → Prop where
  | noReceptionist : (s.patient p).pc = .reception .lineAcquired → myReceptionistIndex s.reception = none →
      Fails s (.patient p) .indexOutOfRange
  | noDoctor : (s.patient p).pc = .door (.lineReleased none) → Fails s (.patient p) .myDoctorIndexUnset
  | diagnosis : (s.patient p).pc = .exam (.diagnosisWaited d) →
      lookup diseases (s.exam.patientDoctorBucket d) = none → Fails s (.patient p) .indexOutOfRange
  | noCashier : (s.patient p).pc = .cashier pc → pc = .lineAcquired ∨ pc = .lineWaited →
      s.cashiers.line.availableCount ≠ 0 → firstFree s.cashiers.line.state = none →
      Fails s (.patient p) .myCashierIndexUnset
  | noPharmacist : (s.patient p).pc = .pharmacy pc → pc = .lineAcquired ∨ pc = .lineWaited →
      s.pharmacy.line.availableCount ≠ 0 → firstFree s.pharmacy.line.state = none →
      Fails s (.patient p) .myPharmacistIndexUnset
  | noneAvailable : s.doorboy b = .doctorsAcquired ∨ s.doorboy b = .doctorWaited →
      s.door.numberOfAvailableDoctors ≠ 0 → firstFree s.door.doctorState = none →
      Fails s (.doorboy b) .availableDoctorUnset
  | mailboxFull : s.doorboy b = .readWaited → s.door.nextAvailableDoctor ≠ none →
      Fails s (.doorboy b) .nextAvailableDoctorSet
  | examined : s.doctor d = .examining token sickness 0 → tokenIndex (n := n) token = none →
      Fails s (.doctor d) .indexOutOfRange
  | cashierToken : s.cashier i = .patientWaited → s.cashiers.patientCashierBucket i = -2 →
      Fails s (.cashier i) .cashierPatientTokenUnset
  | fee : s.cashier i = .patientWaited → tokenIndex (n := n) (s.cashiers.patientCashierBucket i) = none →
      Fails s (.cashier i) .indexOutOfRange
  | pharmacistToken : s.pharmacist i = .patientWaited → s.pharmacy.toPharmacistPatientTokenBucket i = -2 →
      Fails s (.pharmacist i) .pharmacistPatientTokenUnset
  | prescription : s.pharmacist i = .patientWaited →
      lookup medicines (s.pharmacy.toPharmacistPrescriptionBucket i) = none ∨
        lookup medicineCosts (s.pharmacy.toPharmacistPrescriptionBucket i) = none →
      Fails s (.pharmacist i) .indexOutOfRange
  | payment : s.pharmacist i = .paymentAcquired about → s.pharmacy.toPharmacistMedicinePaymentBucket i = -2 →
      Fails s (.pharmacist i) .paymentForMedicineUnset

theorem map_error {x : Except F α} {f : α → β} (mapped : x.map f = .error e) : x = .error e := by
  cases x with
  | error e' => exact congrArg _ (Except.error.inj mapped)
  | ok a => cases mapped

theorem claim_none {state : Fin desks → Int} (nothing : Line.claim ⟨count,length,state⟩ = none) :
    firstFree state = none := by
  simpa [Line.claim] using nothing

theorem patient_fails {s : State n} (executed : patient p s = .error fault) : Fails s (.patient p) fault := by
  simp only [patient] at executed
  split at executed <;> rename_i pc place <;> have ran := map_error executed
  · unfold patientReception at ran
    split at ran
    · cases ran
    · split at ran
      · rename_i nobody
        cases ran
        exact .noReceptionist place nobody
      · cases ran
    · cases ran
    · cases ran
    · cases ran
    · split at ran <;> cases ran
    · split at ran <;> cases ran
    · cases ran
  · unfold patientDoor at ran
    split at ran <;> cases ran
    exact .noDoctor place
  · unfold patientExam at ran
    split at ran
    · cases ran
    · cases ran
    · split at ran
      · rename_i outside
        cases ran
        exact .diagnosis place outside
      · cases ran
    · cases ran
  · unfold patientCashier at ran
    dsimp only at ran
    repeat' split at ran
    all_goals cases ran
    · rename_i some_ _ nobody
      exact .noCashier place (Or.inl rfl) some_ (claim_none nobody)
    · rename_i some_ _ nobody
      exact .noCashier place (Or.inr rfl) some_ (claim_none nobody)
  · unfold patientPharmacy at ran
    dsimp only at ran
    repeat' split at ran
    all_goals cases ran
    · rename_i some_ _ nobody
      exact .noPharmacist place (Or.inl rfl) some_ (claim_none nobody)
    · rename_i some_ _ nobody
      exact .noPharmacist place (Or.inr rfl) some_ (claim_none nobody)
  · unfold patientLeave at ran
    split at ran <;> cases ran

theorem exec_fails {s : State n} (executed : exec t s draw = .error fault) : Fails s t fault := by
  cases t with
  | receptionist i =>
    have ran := map_error executed
    unfold receptionist at ran
    repeat' split at ran
    all_goals cases ran
  | doorboy b =>
    have ran := map_error executed
    unfold doorboy at ran
    have seeks : s.doorboy b = .doctorsAcquired ∨ s.doorboy b = .doctorWaited →
        doorboy b s.door .doctorsAcquired = .error fault → Fails s (.doorboy b) fault := by
      intro place ran
      simp only [doorboy] at ran
      split at ran
      · cases ran
      · rename_i some_
        split at ran
        · rename_i nobody
          cases ran
          exact .noneAvailable place some_ nobody
        · cases ran
    split at ran <;> rename_i place
    · cases ran
    · split at ran <;> cases ran
    · split at ran <;> cases ran
    · cases ran
    · exact seeks (Or.inl place) ran
    · exact seeks (Or.inr place) ran
    · cases ran
    · cases ran
    · split at ran
      · cases ran
      · rename_i full
        cases ran
        exact .mailboxFull place full
    · split at ran <;> cases ran
    · cases ran
  | doctor d =>
    have ran := map_error executed
    unfold doctor at ran
    dsimp only at ran
    split at ran <;> rename_i place
    case h_9 =>
      split at ran
      · rename_i outside
        cases ran
        exact .examined place outside
      · cases ran
    case h_10 => split at ran <;> cases ran
    case h_11 => split at ran <;> cases ran
    all_goals cases ran
  | cashier i =>
    have ran := map_error executed
    unfold cashier at ran
    dsimp only at ran
    split at ran <;> rename_i place
    case h_2 => split at ran <;> cases ran
    case h_7 =>
      split at ran
      · rename_i unset
        cases ran
        exact .cashierToken place unset
      · split at ran
        · rename_i outside
          cases ran
          exact .fee place outside
        · cases ran
    case h_8 => split at ran <;> cases ran
    case h_9 => split at ran <;> cases ran
    all_goals cases ran
  | pharmacist i =>
    have ran := map_error executed
    unfold pharmacist at ran
    dsimp only at ran
    split at ran <;> rename_i place
    case h_2 => split at ran <;> cases ran
    case h_7 =>
      split at ran
      · split at ran
        · rename_i unset
          cases ran
          exact .pharmacistToken place unset
        · cases ran
      · rename_i outside
        cases ran
        refine .prescription place ?_
        by_contra inside
        rw [not_or] at inside
        obtain ⟨medicine,one⟩ := Option.ne_none_iff_exists'.mp inside.1
        obtain ⟨cost,two⟩ := Option.ne_none_iff_exists'.mp inside.2
        exact outside medicine cost one two
    case h_10 =>
      split at ran
      · rename_i unset
        cases ran
        exact .payment place unset
      · cases ran
    all_goals cases ran
  | hospitalManager => cases executed
  | patient p => exact patient_fails executed

end Nachos.Hospital
