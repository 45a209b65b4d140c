import Nachos.Hospital.DeskClaims

-- Every patient gets the diagnosis that its doctor made for it.
namespace Nachos.Hospital.Clinic
open Monitor Protocol

variable {n : Counts}

-- What an examination has come to says what was put down last.
def Recent (known : Fin N → Option Int) (log : List (Exam N)) : Case N → Prop
  | .none => True
  | .assigned p => ∃ rest, log = .assigned p :: rest
  | .seen p token => known p = some token ∧ ∃ rest, log = .seen token :: .assigned p :: rest
  | .drawn p token sickness => known p = some token ∧ 0 ≤ sickness ∧ sickness ≤ 4 ∧
    ∃ rest, log = .drawn token sickness :: .seen token :: .assigned p :: rest
  | .written p token sickness => known p = some token ∧ 0 ≤ sickness ∧ sickness ≤ 4 ∧
    ∃ rest, log = .written token sickness :: .drawn token sickness :: .seen token :: .assigned p :: rest
  | .told p token sickness => known p = some token ∧ 0 ≤ sickness ∧ sickness ≤ 4 ∧ ∃ rest,
    log = .told p sickness :: .written token sickness :: .drawn token sickness :: .seen token :: .assigned p :: rest

theorem trace_recent {known : Fin N → Option Int} (trace : Trace .none (Passes known) x log) : Recent known log x := by
  induction trace with
  | start => trivial
  | step _ passed ih =>
    cases passed with
    | assigned => exact ⟨_,rfl⟩
    | seen token =>
      obtain ⟨rest,rfl⟩ := ih
      exact ⟨token,rest,rfl⟩
    | drawn low high =>
      obtain ⟨token,rest,rfl⟩ := ih
      exact ⟨token,low,high,rest,rfl⟩
    | written =>
      obtain ⟨token,low,high,rest,rfl⟩ := ih
      exact ⟨token,low,high,rest,rfl⟩
    | told =>
      obtain ⟨token,low,high,rest,rfl⟩ := ih
      exact ⟨token,low,high,rest,rfl⟩
    | released => trivial

theorem seen_recent {known : Fin N → Option Int} {newer older : List (Exam N)}
    (trace : Trace .none (Passes known) x (newer ++ Exam.seen t :: older)) :
    ∃ p rest, known p = some t ∧ older = .assigned p :: rest := by
  obtain ⟨before,after,prior,passed⟩ := trace.split
  cases passed with
  | seen token =>
    obtain ⟨rest,rfl⟩ := trace_recent prior
    exact ⟨_,rest,token,rfl⟩

theorem written_recent {known : Fin N → Option Int} {newer older : List (Exam N)}
    (trace : Trace .none (Passes known) x (newer ++ Exam.written t sickness :: older)) :
    ∃ p rest, known p = some t ∧ older = .drawn t sickness :: .seen t :: .assigned p :: rest := by
  obtain ⟨before,after,prior,passed⟩ := trace.split
  cases passed
  obtain ⟨token,_,_,rest,rfl⟩ := trace_recent prior
  exact ⟨_,rest,token,rfl⟩

theorem told_recent {known : Fin N → Option Int} {newer older : List (Exam N)}
    (trace : Trace .none (Passes known) x (newer ++ Exam.told p sickness :: older)) :
    0 ≤ sickness ∧ sickness ≤ 4 ∧ ∃ token rest, known p = some token ∧
      older = .written token sickness :: .drawn token sickness :: .seen token :: .assigned p :: rest := by
  obtain ⟨before,after,prior,passed⟩ := trace.split
  cases passed
  obtain ⟨token,low,high,rest,rfl⟩ := trace_recent prior
  exact ⟨low,high,_,rest,token,rfl⟩

theorem known_token {s : State n} (is : known s p = some t) : (s.patient p).myPatientToken = t := by
  simp only [known] at is
  split at is
  · cases is
  · exact Option.some.inj is

section
variable {s s' : State n} {asleep asleep' : ThreadId n → Bool}

-- A patient that reads its diagnosis keeps it.
theorem diagnosis_read (changes : Changes s draw t s' op events) (present : .diagnosisRead p d sickness ∈ events) :
    examined (s'.patient p).pc = true ∧ (s'.patient p).myPatientDiagnosis = sickness := by
  have here : home s t = .clinic := (events_home changes _ present).symm
  cases changes with
  | doorboy ran =>
    unfold doorboy at ran
    repeat' split at ran
    all_goals cases ran
    all_goals simp at present
  | doctor ran =>
    unfold doctor at ran
    dsimp only at ran
    repeat' split at ran
    all_goals cases ran
    all_goals simp at present
  | atDoor place ran =>
    unfold patientDoor at ran
    split at ran
    all_goals cases ran
    all_goals simp at present
  | atExam place ran =>
    unfold patientExam at ran
    repeat' split at ran
    all_goals cases ran
    all_goals simp only [List.mem_singleton,List.not_mem_nil,Event.diagnosisRead.injEq] at present
    obtain ⟨rfl,rfl,rfl⟩ := present
    simp [examined]
  | receptionist | cashier | pharmacist | manager => simp [home] at here
  | atReception place | atCashier place | atPharmacy place | leaving place =>
    simp [home,place,PatientPc.home] at here

theorem told_event (present : .told p sickness ∈ examIn d ⟨t,op,woken,events⟩) :
    ∃ e, Event.diagnosisRead (n := n) p e sickness ∈ events := by
  rcases List.mem_append.mp present with released | heard
  · unfold releasedBy at released
    split at released
    · split at released <;> simp at released
    · simp at released
  · obtain ⟨event,there,is⟩ := List.mem_filterMap.mp heard
    unfold examEvent at is
    split at is <;> simp only [Option.ite_none_right_eq_some,Option.some.injEq,reduceCtorEq,and_false,
      Exam.told.injEq] at is
    obtain ⟨_,rfl,rfl⟩ := is
    exact ⟨_,there⟩

theorem runs_told (path : (program n).Runs history asleep s) (present : .told p sickness ∈ examinations d history) :
    examined (s.patient p).pc = true ∧ (s.patient p).myPatientDiagnosis = sickness := by
  induction path with
  | initial => simp [examinations] at present
  | @step history asleep s t draw s' op events woken asleep' prior ready executed sleeps ih =>
    have changes := exec_changes executed
    simp only [examinations,List.flatMap_cons,List.mem_append] at present
    rcases present with now | before
    · obtain ⟨e,read⟩ := told_event now
      exact diagnosis_read changes read
    · obtain ⟨past,same⟩ := ih before
      obtain ⟨still,kept⟩ := examined_stays changes past
      exact ⟨still,kept.trans same⟩

-- A cashier that reads a fee was called.
theorem fee_read (changes : Changes s draw t s' op events) (present : .feeRead i asked fee ∈ events) :
    t = .cashier i ∧ s.cashier i = .patientWaited ∧ s.cashiers.patientCashierBucket i = asked ∧
      ∃ entry, tokenIndex asked = some entry ∧ s.exam.patientConsultancyFee entry = fee := by
  have here : home s t = .cashiers := (events_home changes _ present).symm
  cases changes with
  | cashier ran =>
    unfold cashier at ran
    dsimp only at ran
    repeat' split at ran
    all_goals cases ran
    all_goals simp only [List.mem_singleton,List.not_mem_nil,Event.feeRead.injEq,reduceCtorEq] at present
    rename_i place _ _ entry index
    obtain ⟨rfl,rfl,rfl⟩ := present
    exact ⟨rfl,place,rfl,entry,index,rfl⟩
  | atCashier place ran =>
    unfold patientCashier at ran
    dsimp only at ran
    repeat' split at ran
    all_goals cases ran
    all_goals simp at present
  | receptionist | doorboy | doctor | pharmacist | manager => simp [home] at here
  | atReception place | atDoor place | atExam place | atPharmacy place | leaving place =>
    simp [home,place,PatientPc.home] at here

end

-- A doctor reads the token of the patient it was assigned, the patient reads what
-- the doctor drew for it and left in patient_consultancy_fee, and no cashier reads
-- an entry before the doctor that examined its patient has written it.
theorem diagnoses_own (reached : Machine.Reached (program n) m) :
    (∀ d newer token older, examinations d m.history = newer ++ Exam.seen token :: older →
      ∃ p rest, older = Exam.assigned p :: rest ∧ (m.state.patient p).myPatientToken = token) ∧
    (∀ d newer p diagnosis older, examinations d m.history = newer ++ Exam.told p diagnosis :: older →
      0 ≤ diagnosis ∧ diagnosis ≤ 4 ∧ (m.state.patient p).myPatientDiagnosis = diagnosis ∧
      (∃ rest, older = Exam.written (m.state.patient p).myPatientToken diagnosis ::
        Exam.drawn (m.state.patient p).myPatientToken diagnosis :: Exam.seen (m.state.patient p).myPatientToken ::
        Exam.assigned p :: rest) ∧
      ∃ entry, tokenIndex (m.state.patient p).myPatientToken = some entry ∧
        m.state.exam.patientConsultancyFee entry = diagnosis) ∧
    ∀ newer t op woken events older i token fee, m.history = newer ++ ⟨t,op,woken,events⟩ :: older →
      .feeRead i token fee ∈ events → ∃ d p newer rest, examinations d older =
        newer ++ Exam.written token fee :: Exam.drawn token fee :: Exam.seen token :: Exam.assigned p :: rest := by
  have path := Machine.reached_runs (disciplined n) reached
  obtain ⟨⟨holder,case,kept⟩,_⟩ := runs_kept path
  refine ⟨?_,?_,?_⟩
  · intro d newer t older log
    have traced := kept.traced d
    rw [log] at traced
    obtain ⟨p,rest,is,same⟩ := seen_recent traced
    exact ⟨p,rest,same,known_token is⟩
  · intro d newer p diagnosis older log
    have traced := kept.traced d
    rw [log] at traced
    obtain ⟨low,high,t,rest,is,same⟩ := told_recent traced
    obtain ⟨past,read⟩ := runs_told path (show .told p diagnosis ∈ examinations d _ by simp [log])
    obtain ⟨_,_,⟨entry,index,fee⟩,_⟩ := runs_examined path past
    rw [known_token is]
    rw [known_token is] at index
    exact ⟨low,high,read,⟨rest,same⟩,entry,index,fee.trans read⟩
  · intro newer t op woken events older i token fee log present
    rw [log] at path
    obtain ⟨before,s,draw,s',after,prior,ready,executed,_⟩ := Program.runs_split path
    obtain ⟨rfl,place,bucket,entry,index,is⟩ := fee_read (exec_changes executed) present
    obtain ⟨_,ledger⟩ := Cashiers.runs_ledger prior
    obtain ⟨p,old,had,asked⟩ := Counter.asked (c := cashiers n) ledger ready place
    have own : (s.patient p).myPatientToken = token := asked.symm.trans bucket
    obtain ⟨_,_,⟨entry',index',fee'⟩,d,written⟩ := runs_examined prior (Cashiers.fresh_examined had)
    rw [own,index] at index'
    obtain rfl := Option.some.inj index'
    obtain ⟨⟨holder,case,kept⟩,_⟩ := runs_kept prior
    rw [own,← fee',is] at written
    obtain ⟨newest,oldest,split⟩ := List.append_of_mem written
    have traced := kept.traced d
    rw [split] at traced
    obtain ⟨q,rest,_,same⟩ := written_recent traced
    exact ⟨d,q,newest,rest,by rw [split,same]⟩

-- One patient has been examined and is on its way to the cashiers.
def patientExamined :=
  (Machine.initial (program ⟨1,1,1,0,0,1⟩)).prioritised (program ⟨1,1,1,0,0,1⟩) ⟨0,3,1⟩
    (everyone ⟨1,1,1,0,0,1⟩) 80

theorem diagnoses_own_first_patient :
    examinations 0 patientExamined.history =
      [Exam.released 0] ++ Exam.told 0 3 :: [Exam.written 0 3,Exam.drawn 0 3,Exam.seen 0,Exam.assigned 0] ∧
    (patientExamined.state.patient 0).myPatientDiagnosis = 3 := by
  have own := diagnoses_own (m := patientExamined) (Machine.prioritised_reached .initial _ _ _)
  refine (fun log => ⟨log,(own.2.1 0 _ _ _ _ log).2.2.1⟩) ?_
  decide +kernel

end Nachos.Hospital.Clinic
