import Nachos.Hospital.Faults
import Nachos.Hospital.ClinicRuns

-- The door-boys bring patients and doctors together one to one.
namespace Nachos.Hospital.Clinic
open Monitor Tally Rendezvous Protocol

variable {n : Counts}

-- A patient that has looked into the mailbox found a doctor there.
def Indexed (at_ : PatientPc n) : Prop := at_ ≠ .door (.readSignalled none) ∧ at_ ≠ .door (.lineReleased none)

theorem indexed_away {at_ : PatientPc n} (away : Away .clinic at_) : Indexed at_ := by
  constructor
  all_goals
    rintro rfl
    simpa [PatientPc.starts] using away rfl

theorem door_indexed (indexed : Indexed (.door at_)) (full : at_ = .lineEmptyWaited → door.nextAvailableDoctor ≠ none)
    (ran : patientDoor p door me at_ = .ok (door',me',op,events)) : Indexed (n := n) me'.pc := by
  unfold patientDoor at ran
  split at ran <;> cases ran
  case h_4 => exact ⟨by simpa using full rfl,by simp⟩
  case h_5 d => exact ⟨by simp,by simpa [Indexed] using indexed.1⟩
  all_goals exact ⟨by simp,by simp⟩

theorem exam_indexed (ran : patientExam p exam me at_ = .ok (exam',me',op,events)) : Indexed (n := n) me'.pc := by
  unfold patientExam at ran
  repeat' split at ran
  all_goals cases ran
  all_goals exact ⟨by simp,by simp⟩

section
variable {s s' : State n} {asleep : ThreadId n → Bool}

-- A patient that was called reads the mailbox while a doctor lies in it.
theorem mailbox_full (holds : Holds (view s asleep)) (ready : (program n).Ready s asleep (.patient p))
    (place : (s.patient p).pc = .door .lineEmptyWaited) : s.door.nextAvailableDoctor ≠ none := by
  have guest : (view s asleep).guest p = .called := by simp [view,place,ready.awake,guestOf]
  exact holds.called.mpr ⟨p,guest⟩

theorem runs_indexed (path : (program n).Runs history asleep s) : ∀ p, Indexed (s.patient p).pc := by
  induction path with
  | initial => exact fun p => ⟨by simp [program,initialized],by simp [program,initialized]⟩
  | @step history asleep s t draw s' op events woken asleep' prior ready executed sleeps ih =>
    obtain ⟨⟨holder,case,kept⟩,_⟩ := runs_kept prior
    have changes := exec_changes executed
    intro p
    have own : ∀ q me, Indexed me.pc → Indexed (Function.update s.patient q me p).pc := by
      intro q me now
      by_cases same : p = q
      · subst same; simpa using now
      · simpa [same] using ih p
    by_cases here : home s t = .clinic
    · cases changes with
      | doorboy | doctor => exact ih p
      | @atDoor q at_ door me op events place ran =>
        exact own q me (door_indexed (place ▸ ih q) (fun waited => mailbox_full kept.holds ready (waited ▸ place)) ran)
      | atExam place ran => exact own _ _ (exam_indexed ran)
      | receptionist | cashier | pharmacist | manager => simp [home] at here
      | atReception place | atCashier place | atPharmacy place | leaving place =>
        simp [home,place,PatientPc.home] at here
    · rcases patients_elsewhere changes here p with ⟨same,_⟩ | ⟨_,_,after⟩
      · rw [same]
        exact ih p
      · exact indexed_away after

-- None of the three assertions about doctors fails.
theorem runs_assigned (path : (program n).Runs history asleep s) (awake : asleep t = false) (fails : Fails s t fault) :
    fault ≠ .myDoctorIndexUnset ∧ fault ≠ .availableDoctorUnset ∧ fault ≠ .nextAvailableDoctorSet := by
  obtain ⟨⟨holder,case,kept⟩,_⟩ := runs_kept path
  cases fails with
  | @noDoctor p place => exact absurd place (runs_indexed path p).2
  | noneAvailable place some_ nobody =>
    refine absurd ?_ some_
    have counted : s.door.numberOfAvailableDoctors = tally (view s asleep).free := kept.holds.available
    have none_ : tally (view s asleep).free = 0 := by
      refine tally_eq_zero.mpr fun d => ?_
      simpa [view] using firstFree_none nobody d
    rw [counted,none_]
    rfl
  | @mailboxFull b place full =>
    have told : (view s asleep).boy b = .told := by simp [view,place,awake,boyOf]
    obtain ⟨b',calls⟩ := kept.holds.mail.mp full
    have inside : ((view s asleep).boy b').inside = true := by
      cases boy : (view s asleep).boy b' <;> simp_all [Boy.calls,Boy.inside]
    obtain rfl := kept.holds.alone b b' (by simp [told,Boy.inside]) inside
    simp [told,Boy.calls] at calls
  | _ => exact ⟨by simp,by simp,by simp⟩

end

-- Every doctor put into the mailbox was read by one patient before the next one came.
def Delivered : List (Mail K D N) → Prop
  | [] => True
  | .read _ d :: .stored _ e :: older => d = some e ∧ Delivered older
  | _ => False

-- The same, but for the doctor that still lies there.
def Mailed (log : List (Mail K D N)) : Option (Fin D) → Prop
  | none => Delivered log
  | some d => ∃ b older, log = .stored b d :: older ∧ Delivered older

theorem trace_mailed {log : List (Mail K D N)} (trace : Trace none Posts box log) : Mailed log box := by
  induction trace with
  | start => trivial
  | @step box log mail box' prior passed ih =>
    cases passed with
    | stored => exact ⟨_,_,rfl,ih⟩
    | read =>
      obtain ⟨b,older,rfl,delivered⟩ := ih
      exact ⟨rfl,delivered⟩

-- The patient has read its diagnosis, which empties patient_doctor_bucket, and has
-- given back doctor_lock.
def Left (p : Fin N) (log : List (Exam N)) : Prop := (∃ diagnosis, .told p diagnosis ∈ log) ∧ .released p ∈ log

theorem Left.later {p : Fin N} {log : List (Exam N)} (left : Left p log) (e : Exam N) : Left p (e :: log) :=
  ⟨left.1.imp fun _ present => List.mem_cons_of_mem _ present,List.mem_cons_of_mem _ left.2⟩

-- After an assignment the case stays with that patient until it has left.
theorem trace_left {known : Fin N → Option Int} {mid older : List (Exam N)}
    (trace : Trace .none (Passes known) x (mid ++ .assigned p :: older)) :
    Left p mid ∨ match x with
    | .none => False
    | .assigned q | .seen q _ | .drawn q _ _ | .written q _ _ => q = p
    | .told q _ sickness => q = p ∧ .told p sickness ∈ mid := by
  induction mid generalizing x with
  | nil =>
    cases trace with
    | step prior passed =>
      cases passed
      exact Or.inr rfl
  | cons e mid ih =>
    cases trace with
    | step prior passed =>
      rcases ih prior with left | still
      · exact Or.inl (left.later e)
      · cases passed with
        | assigned => exact absurd still id
        | seen | drawn | written => exact Or.inr still
        | told => exact Or.inr ⟨still,still ▸ List.mem_cons_self ..⟩
        | released =>
          obtain ⟨rfl,told⟩ := still
          exact Or.inl ⟨⟨_,List.mem_cons_of_mem _ told⟩,List.mem_cons_self ..⟩

theorem assigned_after_left {known : Fin N → Option Int} {newer mid older : List (Exam N)}
    (trace : Trace .none (Passes known) x (newer ++ Exam.assigned q :: (mid ++ .assigned p :: older))) : Left p mid := by
  obtain ⟨before,after,prior,passed⟩ := trace.split
  cases passed
  exact (trace_left prior).resolve_right id

-- The number of available doctors is right, the assertions hold, every doctor in
-- the mailbox is for one patient, and a doctor gets its next patient only after
-- the last one has emptied the bucket and given back the lock.
theorem assignment_one_to_one (reached : Machine.Reached (program n) m) :
    m.state.door.numberOfAvailableDoctors = tally (fun d => m.state.door.doctorState d = 0) ∧
    (∀ t draw fault, Machine.Faults (program n) m t draw fault →
      fault ≠ .myDoctorIndexUnset ∧ fault ≠ .availableDoctorUnset ∧ fault ≠ .nextAvailableDoctorSet) ∧
    Mailed (mailbox m.history) m.state.door.nextAvailableDoctor ∧
    (m.state.door.nextAvailableDoctor ≠ none →
      ∃! p, (m.state.patient p).pc = .door .lineEmptyWaited ∧ Machine.asleep m.kernel (.patient p) = false) ∧
    ∀ d newer mid older p q,
      examinations d m.history = newer ++ Exam.assigned q :: (mid ++ Exam.assigned p :: older) → Left p mid := by
  have path := Machine.reached_runs (disciplined n) reached
  obtain ⟨⟨holder,case,kept⟩,mails⟩ := runs_kept path
  refine ⟨kept.holds.available,?_,trace_mailed mails,?_,?_⟩
  · rintro t draw fault ⟨ready,outside,executed⟩
    obtain ⟨valid,coupled⟩ := Machine.reached_valid (disciplined n) reached
    exact runs_assigned path (Machine.exec_ready valid coupled ready outside).awake (exec_fails executed)
  · intro full
    have called : ∀ p, (m.state.patient p).pc = .door .lineEmptyWaited ∧
        Machine.asleep m.kernel (.patient p) = false ↔ (view m.state (Machine.asleep m.kernel)).guest p = .called := by
      intro p
      simp only [view]
      fun_cases guestOf (m.state.patient p).pc (Machine.asleep m.kernel (.patient p)) <;> simp_all
    obtain ⟨p,here⟩ := kept.holds.called.mp full
    exact ⟨p,(called p).mpr here,fun q there => kept.holds.only q p ((called q).mp there) here⟩
  · intro d newer mid older p q log
    have traced := kept.traced d
    rw [log] at traced
    exact assigned_after_left traced

-- Two patients and one doctor: the second one is assigned after the first has left.
def secondAssigned :=
  (Machine.initial (program ⟨1,1,1,0,0,2⟩)).prioritised (program ⟨1,1,1,0,0,2⟩) ⟨0,1,1⟩
    (everyone ⟨1,1,1,0,0,2⟩) 120

theorem assignment_one_to_one_second_patient :
    examinations 0 secondAssigned.history =
      [] ++ Exam.assigned 1 :: ([Exam.released 0,Exam.told 0 1,Exam.written 0 1,Exam.drawn 0 1,Exam.seen 0] ++ Exam.assigned 0 :: []) ∧
    Left (0 : Fin 2) [Exam.released 0,Exam.told 0 1,Exam.written 0 1,Exam.drawn 0 1,Exam.seen 0] := by
  have path := assignment_one_to_one (m := secondAssigned) (Machine.prioritised_reached .initial _ _ _)
  refine (fun log => ⟨log,path.2.2.2.2 0 _ _ _ _ _ log⟩) ?_
  decide +kernel

end Nachos.Hospital.Clinic
