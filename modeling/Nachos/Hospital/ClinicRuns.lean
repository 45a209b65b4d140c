import Nachos.Hospital.ClinicRooms
import Nachos.Hospital.ReceptionRuns

-- The runs of the whole simulation, as the clinic sees them.
namespace Nachos.Hospital.Clinic
open Monitor Tally Rendezvous Protocol

variable {n : Counts}

-- What a doctor knows and what lies in its bucket follow from whom the room is
-- for, and so does the state of the examination.
def Room (token : Fin n.numberOfPatients → Int) (x : Papers n) (d : Fin n.doctorsCount)
    (case : Case n.numberOfPatients) : Holder (Fin n.numberOfPatients) → Prop
  | .client p .assigned | .client p .entering | .client p .calling => x.mind d = none ∧ case = .assigned p
  | .client p .posted =>
    (x.mind d = none ∧ x.bucket d = token p ∧ case = .assigned p) ∨
    (x.mind d = some (token p,none) ∧ case = .seen p (token p)) ∨
    ∃ sickness, x.mind d = some (token p,some sickness) ∧ 0 ≤ sickness ∧ sickness ≤ 4 ∧
      case = .drawn p (token p) sickness
  | .client p .answered => x.mind d = none ∧ 0 ≤ x.bucket d ∧ x.bucket d ≤ 4 ∧
    (∀ entry, tokenIndex (token p) = some entry → x.fee entry = x.bucket d) ∧
    case = .written p (token p) (x.bucket d)
  | .client p .leaving => x.mind d = none ∧ x.bucket d = -2 ∧ case = .told p (token p) (x.diagnosis p)
  | .gone _ => x.mind d = none ∧ x.bucket d = -2 ∧ case = .none
  | .nobody | .free | .reserved => x.mind d = none ∧ case = .none

-- Nothing of a patient with a doctor changes elsewhere.
structure Steady (token token' : Fin n.numberOfPatients → Int) (x x' : Papers n) (p : Fin n.numberOfPatients) : Prop where
  tokens : token' p = token p
  diagnosis : x'.diagnosis p = x.diagnosis p
  fee : ∀ entry, tokenIndex (token p) = some entry → x'.fee entry = x.fee entry

theorem Room.steady {token token' : Fin n.numberOfPatients → Int} {x x' : Papers n}
    (steady : ∀ p, holder.patron = some p → Steady token token' x x' p) (bucket : x'.bucket d = x.bucket d)
    (mind : x'.mind d = x.mind d) (room : Room token x d case holder) : Room token' x' d case holder := by
  cases holder with
  | client p stage =>
    have same := steady p rfl
    cases stage with
    | answered =>
      obtain ⟨one,two,three,four,five⟩ := room
      refine ⟨by rw [mind,one],by rw [bucket]; exact two,by rw [bucket]; exact three,?_,by rw [same.tokens,bucket]; exact five⟩
      intro entry index
      rw [same.tokens] at index
      rw [same.fee entry index,bucket,four entry index]
    | _ => simpa only [Room,mind,bucket,same.tokens,same.diagnosis] using room
  | gone p => simpa only [Room,mind,bucket] using room
  | _ => simpa only [Room,mind] using room

-- The tokens of patients that were assigned a doctor.
def known (s : State n) (p : Fin n.numberOfPatients) : Option Int :=
  if freshOf (s.patient p).pc then none else some (token s p)

structure Kept (s : State n) (asleep : ThreadId n → Bool)
    (exams : Fin n.doctorsCount → List (Exam n.numberOfPatients))
    (holder : Fin n.doctorsCount → Holder (Fin n.numberOfPatients))
    (case : Fin n.doctorsCount → Case n.numberOfPatients) : Prop where
  joint : Joint (view s asleep).desks holder
  holds : Holds (view s asleep)
  room : ∀ d, Room (token s) (papers s) d (case d) (holder d)
  traced : ∀ d, Trace .none (Passes (known s)) (case d) (exams d)
  examined : ∀ p, Done (view s asleep).desks holder p →
    0 ≤ (papers s).diagnosis p ∧ (papers s).diagnosis p ≤ 4 ∧
    (∀ entry, tokenIndex (token s p) = some entry → (papers s).fee entry = (papers s).diagnosis p) ∧
    ∃ d, .written (token s p) ((papers s).diagnosis p) ∈ exams d

theorem tokenIndex_inj (one : tokenIndex (n := n) t = some entry) (two : tokenIndex (n := n) t' = some entry) : t = t' := by
  simp only [tokenIndex] at one two
  split at one
  · split at two
    · have first := congrArg Fin.val (Option.some.inj one)
      have second := congrArg Fin.val (Option.some.inj two)
      simp only at first second
      omega
    · cases two
  · cases one

section
variable {s s' : State n} {asleep asleep' : ThreadId n → Bool}
  {exams : Fin n.doctorsCount → List (Exam n.numberOfPatients)}
  {holder : Fin n.doctorsCount → Holder (Fin n.numberOfPatients)}
  {case : Fin n.doctorsCount → Case n.numberOfPatients}

theorem Room.quiet {token : Fin n.numberOfPatients → Int} {x : Papers n} (quiet : Quiet move)
    (moves : Moves move before after) (room : Room token x d state before) : Room token x d state after := by
  cases move with
  | stays => cases moves; exact room
  | opens => obtain ⟨rfl,rfl⟩ := moves; exact room
  | reserves => obtain ⟨rfl,rfl⟩ := moves; exact room
  | moves p first next =>
    obtain ⟨rfl,rfl⟩ := moves
    cases first <;> cases next <;> first | exact absurd quiet id | exact room
  | closes =>
    obtain ⟨p,rfl,rfl⟩ := moves
    exact ⟨room.1,room.2.2⟩
  | assigned | answers | goes => exact absurd quiet id

-- A doctor that remembers a token has its patient waiting for the diagnosis.
theorem Room.minds {token : Fin n.numberOfPatients → Int} {x : Papers n} (room : Room token x d state who)
    (mind : x.mind d = some (t,drawn)) :
    ∃ p, who = .client p .posted ∧ t = token p ∧ (drawn = none ∧ state = .seen p (token p) ∨
      ∃ sickness, drawn = some sickness ∧ 0 ≤ sickness ∧ sickness ≤ 4 ∧ state = .drawn p (token p) sickness) := by
  cases who with
  | client p stage =>
    cases stage with
    | posted =>
      rcases room with ⟨empty,_⟩ | ⟨seen,is⟩ | ⟨sickness,drawn,low,high,is⟩
      · simp [mind] at empty
      · simp only [mind,Option.some.injEq,Prod.mk.injEq] at seen
        exact ⟨p,rfl,seen.1,Or.inl ⟨seen.2,is⟩⟩
      · simp only [mind,Option.some.injEq,Prod.mk.injEq] at drawn
        exact ⟨p,rfl,drawn.1,Or.inr ⟨sickness,drawn.2,low,high,is⟩⟩
    | _ => simp [Room,mind] at room
  | _ => simp [Room,mind] at room

theorem kept_step (kept : Kept s asleep exams holder case)
    (distinct : ∀ p q, freshOf (s.patient p).pc = false → freshOf (s.patient q).pc = false → token s p = token s q → p = q)
    (step : Step (view s asleep) label (view s' asleep'))
    (effect : Effect (token s) (view s asleep) (papers s) label (papers s') notes)
    (same : ∀ p, freshOf (s.patient p).pc = false → token s' p = token s p) :
    ∃ holder' case', Kept s' asleep' (fun d => notesAt d notes ++ exams d) holder' case' := by
  obtain ⟨holder',after,joint⟩ := step_joint kept.joint kept.holds step
  have holds := step_holds kept.joint kept.holds step
  have stays : ∀ p, freshOf (s.patient p).pc = false → freshOf (s'.patient p).pc = false :=
    fun p had => step.fresh kept.holds had
  have grows : ∀ p t, known s p = some t → known s' p = some t := by
    intro p t is
    cases had : freshOf (s.patient p).pc with
    | true => simp [known,had] at is
    | false => simpa [known,had,stays p had,same p had] using is
  have turn : ∀ d p, (holder d).patron = some p → freshOf (s.patient p).pc = false :=
    fun d p held => kept.joint.turn p d held
  have told : ∀ c d p, holder d = .client p c → known s' p = some (token s' p) := by
    intro c d p held
    simp [known,stays p (turn d p (by simp [held,Holder.patron]))]
  have traces : ∀ d, Trace .none (Passes (known s')) (case d) (exams d) :=
    fun d => (kept.traced d).mono (Passes.grows grows)
  -- One room changes, the others stay as they are.
  have rooms : ∀ d now next, holder' = Function.update holder d now →
      (∀ e, e ≠ d → (papers s').bucket e = (papers s).bucket e ∧ (papers s').mind e = (papers s).mind e) →
      (∀ e p, e ≠ d → (holder e).patron = some p → Steady (token s) (token s') (papers s) (papers s') p) →
      Room (token s') (papers s') d next now →
      ∀ e, Room (token s') (papers s') e (Function.update case d next e) (holder' e) := by
    rintro d now next rfl papers steady room e
    by_cases at_ : e = d
    · subst at_; simpa using room
    · simpa [at_] using (kept.room e).steady (fun p held => steady e p at_ held) (papers e at_).1 (papers e at_).2
  have logs : ∀ d note next, notes = [(d,note)] → Passes (known s') (case d) note next →
      ∀ e, Trace .none (Passes (known s')) (Function.update case d next e) (notesAt e notes ++ exams e) := by
    rintro d note next rfl passes e
    by_cases at_ : e = d
    · subst at_
      simpa [notesAt] using (traces e).step passes
    · simpa [notesAt,at_,Ne.symm at_] using traces e
  have done : (∀ p, Done (view s asleep).desks holder p → Steady (token s) (token s') (papers s) (papers s') p) →
      (∀ p, Done (view s' asleep').desks holder' p → Done (view s asleep).desks holder p) →
      ∀ p, Done (view s' asleep').desks holder' p →
        0 ≤ (papers s').diagnosis p ∧ (papers s').diagnosis p ≤ 4 ∧
        (∀ entry, tokenIndex (token s' p) = some entry → (papers s').fee entry = (papers s').diagnosis p) ∧
        ∃ d, .written (token s' p) ((papers s').diagnosis p) ∈ notesAt d notes ++ exams d := by
    intro steady before p now
    have same := steady p (before p now)
    obtain ⟨low,high,fee,d,present⟩ := kept.examined p (before p now)
    refine ⟨by rw [same.diagnosis]; exact low,by rw [same.diagnosis]; exact high,?_,d,?_⟩
    · intro entry index
      rw [same.tokens] at index
      rw [same.fee entry index,same.diagnosis,fee entry index]
    · rw [same.tokens,same.diagnosis]
      exact List.mem_append_right _ present
  have calm : (papers s').diagnosis = (papers s).diagnosis → (papers s').fee = (papers s).fee →
      ∀ p, freshOf (s.patient p).pc = false → Steady (token s) (token s') (papers s) (papers s') p := by
    intro diagnosis fee p had
    exact ⟨same p had,by rw [diagnosis],fun entry _ => by rw [fee]⟩
  have still : (∀ d p, label ≠ some (d,.moves p .answered .leaving)) →
      ∀ p, Done (view s' asleep').desks holder' p → Done (view s asleep).desks holder p := by
    intro others p now
    rcases step.done kept.holds after now with before | ⟨d,is⟩
    · exact before
    · exact absurd is (others d p)
  generalize written : papers s' = x at effect
  cases effect with
  | quiet quiet =>
    have steady := calm (by rw [written]) (by rw [written])
    refine ⟨holder',case,joint,holds,?_,by simpa [notesAt] using traces,?_⟩
    · intro d
      have room : Room (token s') (papers s') d (case d) (holder d) :=
        (kept.room d).steady (fun p held => steady p (turn d p held)) (by rw [written]) (by rw [written])
      cases label with
      | none => cases after; exact room
      | some event =>
        obtain ⟨e,move⟩ := event
        obtain ⟨now,moves,rfl⟩ := after
        by_cases at_ : d = e
        · subst at_
          simpa using room.quiet (quiet d move rfl) moves
        · simpa [at_] using room
    · refine done (fun p was => steady p was.1) (still ?_)
      rintro d p rfl
      exact quiet d _ rfl
  | @assigns d p =>
    obtain ⟨now,⟨before,rfl⟩,moved⟩ := after
    have steady := calm (by rw [written]) (by rw [written])
    have room := kept.room d
    have empty : (papers s).mind d = none ∧ case d = .none := by
      rcases before with before | before <;> (rw [before] at room; exact room)
    refine ⟨holder',_,joint,holds,rooms d _ (.assigned p) moved (fun e _ => by rw [written]; exact ⟨rfl,rfl⟩)
      (fun e q _ held => steady q (turn e q held)) ⟨by rw [written]; exact empty.1,rfl⟩,logs d _ _ rfl ?_,
      done (fun q was => steady q was.1) (still (by simp))⟩
    rw [empty.2]
    exact .assigned
  | @posts d p =>
    obtain ⟨now,⟨before,rfl⟩,moved⟩ := after
    have steady := calm (by rw [written]) (by rw [written])
    have room := kept.room d
    rw [before] at room
    refine ⟨holder',_,joint,holds,rooms d _ (case d) moved ?_ (fun e q _ held => steady q (turn e q held))
      (Or.inl ⟨?_,?_,room.2⟩),?_,done (fun q was => steady q was.1) (still (by simp))⟩
    · intro e other
      rw [written]
      simp [other]
    · rw [written]
      exact room.1
    · rw [written,same p (turn d p (by simp [before,Holder.patron]))]
      simp
    · simpa [notesAt] using traces
  | @sees d called nobody empty =>
    obtain ⟨now,rfl,moved⟩ := after
    have steady := calm (by rw [written]) (by rw [written])
    obtain ⟨p,posted⟩ := kept.joint.posted (Or.inr ⟨called,nobody⟩)
    have known := told _ d p posted
    have tokens := same p (turn d p (by simp [posted,Holder.patron]))
    have room := kept.room d
    rw [posted] at room
    obtain ⟨bucket,assigned⟩ : (papers s).bucket d = token s p ∧ case d = .assigned p := by
      rcases room with ⟨_,bucket,assigned⟩ | ⟨mind,_⟩ | ⟨_,mind,_⟩
      · exact ⟨bucket,assigned⟩
      · simp [empty] at mind
      · simp [empty] at mind
    refine ⟨holder',_,joint,holds,rooms d _ (.seen p (token s' p)) moved ?_
      (fun e q _ held => steady q (turn e q held)) ?_,logs d _ _ rfl ?_,
      done (fun q was => steady q was.1) (still (by simp))⟩
    · intro e other
      rw [written]
      simp [other]
    · rw [posted]
      refine Or.inr (Or.inl ⟨?_,rfl⟩)
      rw [written,tokens,← bucket]
      simp
    · rw [assigned,bucket,← tokens]
      exact .seen known
  | @draws d t sickness mind low high =>
    have steady := calm (by rw [written]) (by rw [written])
    obtain ⟨p,posted,rfl,⟨_,is⟩ | ⟨_,other,_⟩⟩ := (kept.room d).minds mind
    · have tokens := same p (turn d p (by simp [posted,Holder.patron]))
      have moved : holder' = Function.update holder d (.client p .posted) := by
        rw [← posted,Function.update_eq_self]
        exact after
      refine ⟨holder',_,joint,holds,rooms d _ (.drawn p (token s' p) sickness) moved ?_
        (fun e q _ held => steady q (turn e q held)) (Or.inr (Or.inr ⟨sickness,?_,low,high,rfl⟩)),logs d _ _ rfl ?_,
        done (fun q was => steady q was.1) (still (by simp))⟩
      · intro e other
        rw [written]
        simp [other]
      · rw [written,tokens]
        simp
      · rw [is,tokens]
        exact .drawn low high
    · cases other
  | @writes d t sickness entry mind index =>
    obtain ⟨now,⟨p,before,rfl⟩,moved⟩ := after
    obtain ⟨q,posted,rfl,⟨other,_⟩ | ⟨_,drawn,low,high,is⟩⟩ := (kept.room d).minds mind
    · cases other
    · cases drawn
      obtain rfl : p = q := by simpa using before.symm.trans posted
      have here := turn d p (by simp [before,Holder.patron])
      have tokens := same p here
      -- Only the entry of this patient changes.
      have steady : ∀ q, q ≠ p → freshOf (s.patient q).pc = false →
          Steady (token s) (token s') (papers s) (papers s') q := by
        intro q differs had
        refine ⟨same q had,by rw [written],fun entry' index' => ?_⟩
        have apart : entry' ≠ entry := by
          rintro rfl
          exact differs (distinct q p had here (tokenIndex_inj index' index))
        rw [written]
        simp [apart]
      refine ⟨holder',_,joint,holds,rooms d _ (.written p (token s' p) sickness) moved ?_ ?_ ?_,logs d _ _ rfl ?_,
        done ?_ (still (by simp))⟩
      · intro e other
        rw [written]
        simp [other]
      · intro e q other held
        refine steady q ?_ (turn e q held)
        rintro rfl
        exact other (kept.joint.once q e d held (by simp [before,Holder.patron]))
      · refine ⟨?_,?_,?_,?_,?_⟩
        · rw [written]; simp
        · rw [written]; simpa using low
        · rw [written]; simpa using high
        · intro entry' index'
          rw [tokens,index] at index'
          cases index'
          rw [written]
          simp
        · rw [written]
          simp
      · rw [is,tokens]
        exact .written
      · intro q was
        refine steady q ?_ was.1
        rintro rfl
        have := was.2 d _ before
        simp at this
  | @tells d p =>
    obtain ⟨now,⟨before,rfl⟩,moved⟩ := after
    have here := turn d p (by simp [before,Holder.patron])
    have tokens := same p here
    have room := kept.room d
    rw [before] at room
    obtain ⟨mind,low,high,fee,is⟩ := room
    have steady : ∀ q, q ≠ p → freshOf (s.patient q).pc = false →
        Steady (token s) (token s') (papers s) (papers s') q := by
      intro q differs had
      refine ⟨same q had,?_,fun entry' index' => by rw [written]⟩
      rw [written]
      simp [differs]
    refine ⟨holder',_,joint,holds,rooms d _ (.told p (token s' p) ((papers s).bucket d)) moved ?_ ?_ ?_,
      logs d _ _ rfl ?_,?_⟩
    · intro e other
      rw [written]
      simp [other]
    · intro e q other held
      refine steady q ?_ (turn e q held)
      rintro rfl
      exact other (kept.joint.once q e d held (by simp [before,Holder.patron]))
    · refine ⟨?_,?_,?_⟩
      · rw [written]; exact mind
      · rw [written]; simp
      · rw [written]; simp
    · rw [is,tokens]
      exact .told
    · intro q now
      by_cases differs : q = p
      · subst differs
        have paper : (papers s').diagnosis q = (papers s).bucket d := by rw [written]; simp
        rw [paper,tokens]
        refine ⟨low,high,fun entry index => ?_,d,?_⟩
        · rw [written]
          exact fee entry index
        · have traced := kept.traced d
          rw [is] at traced
          generalize exams d = log at traced
          cases traced with
          | step older passed =>
            cases passed
            exact List.mem_append_right _ (List.mem_cons_self ..)
      · have was : Done (view s asleep).desks holder q := by
          rcases step.done kept.holds ⟨_,⟨before,rfl⟩,moved⟩ now with was | ⟨e,is⟩
          · exact was
          · simp only [Option.some.injEq,Prod.mk.injEq,Move.moves.injEq] at is
            exact absurd is.2.1.symm differs
        have same := steady q differs was.1
        obtain ⟨low,high,fee,e,present⟩ := kept.examined q was
        refine ⟨by rw [same.diagnosis]; exact low,by rw [same.diagnosis]; exact high,?_,e,?_⟩
        · intro entry index
          rw [same.tokens] at index
          rw [same.fee entry index,same.diagnosis,fee entry index]
        · rw [same.tokens,same.diagnosis]
          exact List.mem_append_right _ present
  | @goes d p =>
    obtain ⟨now,⟨before,rfl⟩,moved⟩ := after
    have steady := calm (by rw [written]) (by rw [written])
    have room := kept.room d
    rw [before] at room
    refine ⟨holder',_,joint,holds,rooms d _ .none moved (fun e _ => by rw [written]; exact ⟨rfl,rfl⟩)
      (fun e q _ held => steady q (turn e q held)) ⟨by rw [written]; exact room.1,by rw [written]; exact room.2.1,rfl⟩,
      logs d _ _ rfl ?_,done (fun q was => steady q was.1) (still (by simp))⟩
    rw [room.2.2]
    exact .released

-- The conditions of the clinic, except the one that only the manager signals.
def Heard (c : ConditionId n) : Prop := stationOf (lockOf c) = .clinic ∧ c ≠ .doorboyBreakCv

theorem sleeps_unheard (sleeps : (program n).Sleeps s t asleep op woken asleep')
    (silent : ∀ c, conditionOf op = some c → ¬Heard c) (u : ThreadId n) :
    asleep' u = asleep u ∨ u = t ∨ ∃ c, site s u = .sleeping c ∧ ¬Heard c := by
  cases sleeps with
  | wait =>
    by_cases same : u = t
    · exact Or.inr (Or.inl same)
    · exact Or.inl (by simp [same])
  | @wakes v c l _ site =>
    by_cases same : u = v
    · exact Or.inr (Or.inr ⟨c,same ▸ site,silent c rfl⟩)
    · exact Or.inl (by simp [same])
  | acquire | release | unheard | skip | stop => exact Or.inl rfl

theorem serverOf_awake (place : (at_ : DoctorPc).site d = .sleeping c) (other : ¬Heard (n := n) c) (b b' : Bool) :
    serverOf at_ b = serverOf at_ b' := by
  cases at_ <;> simp [DoctorPc.site] at place <;> subst place <;> simp [Heard,lockOf,stationOf] at other

theorem boyOf_awake {at_ : DoorboyPc n} (place : at_.site = .sleeping c) (other : ¬Heard c) (b b' : Bool) :
    boyOf at_ b = boyOf at_ b' := by
  cases at_ <;> simp [DoorboyPc.site] at place <;> subst place <;> simp [Heard,lockOf,stationOf] at other
  rfl

theorem patient_awake {at_ : PatientPc n} (place : at_.site = .sleeping c) (other : ¬Heard c) (b b' : Bool) :
    clientOf at_ b = clientOf at_ b' ∧ guestOf at_ b = guestOf at_ b' := by
  cases at_ with
  | door at_ =>
    cases at_ <;> simp [PatientPc.site] at place
    subst place
    simp [Heard,lockOf,stationOf] at other
  | exam at_ =>
    cases at_ <;> simp [PatientPc.site] at place
    subst place
    simp [Heard,lockOf,stationOf] at other
  | _ => exact ⟨rfl,rfl⟩

theorem elsewhere {at_ : PatientPc n} (away : at_.home ≠ .clinic) (b : Bool) :
    clientOf at_ b = none ∧ guestOf at_ b = .away := by
  cases at_ <;> simp_all [PatientPc.home,clientOf,guestOf]

theorem threshold {at_ : PatientPc n} (away : Away .clinic at_) (b : Bool) :
    clientOf at_ b = none ∧ guestOf at_ b = .away := by
  by_cases here : at_.home = .clinic
  · have starts := away here
    cases at_ with
    | door at_ => cases at_ <;> simp_all [PatientPc.starts,clientOf,guestOf]
    | _ => simp_all [PatientPc.starts,PatientPc.home]
  · exact elsewhere here b

-- Behind the clinic nobody is fresh.
theorem freshOf_behind {at_ : PatientPc n} (here : at_.home = .cashiers ∨ at_.home = .pharmacy) : freshOf at_ = false := by
  cases at_ <;> simp [PatientPc.home] at here
  all_goals rfl

theorem fresh_elsewhere (changes : Changes s draw t s' op events) (away : home s t ≠ .clinic)
    (p : Fin n.numberOfPatients) : freshOf (s'.patient p).pc = freshOf (s.patient p).pc := by
  have own : ∀ q me, freshOf me.pc = freshOf (s.patient q).pc →
      freshOf (Function.update s.patient q me p).pc = freshOf (s.patient p).pc := by
    intro q me same
    by_cases at_ : p = q
    · subst at_; simpa using same
    · simp [at_]
  cases changes with
  | receptionist | doorboy | doctor | cashier | pharmacist | manager => rfl
  | atReception place ran =>
    refine own _ _ ?_
    unfold patientReception at ran
    repeat' split at ran
    all_goals cases ran
    all_goals simp [place,freshOf]
  | atDoor place => simp [home,place,PatientPc.home] at away
  | atExam place => simp [home,place,PatientPc.home] at away
  | atCashier place ran =>
    refine own _ _ ?_
    rcases (patientCashier_after ran).2.2 with here | next
    · rw [freshOf_behind (Or.inl here),place]
      rfl
    · simp [next,place,freshOf]
  | atPharmacy place ran =>
    refine own _ _ ?_
    rcases (patientPharmacy_after ran).2.2 with here | next
    · rw [freshOf_behind (Or.inr here),place]
      rfl
    · simp [next,place,freshOf]
  | leaving place ran =>
    obtain ⟨pc,after⟩ := (patientLeave_after ran).2.2
    exact own _ _ (by simp [after,place,freshOf])

theorem view_elsewhere (changes : Changes s draw t s' op events) (away : home s t ≠ .clinic)
    (sleeps : (program n).Sleeps s t asleep op woken asleep') (silent : ∀ c, conditionOf op = some c → ¬Heard c) :
    view s' asleep' = view s asleep := by
  have same := sleeps_unheard sleeps silent
  obtain ⟨door,exam,boys,doctors⟩ := clinic_elsewhere changes away
  have servers : ∀ d, serverOf (s.doctor d) (asleep' (.doctor d)) = serverOf (s.doctor d) (asleep (.doctor d)) := by
    intro d
    rcases same (.doctor d) with same | rfl | ⟨c,site,other⟩
    · rw [same]
    · exact absurd rfl away
    · exact serverOf_awake site other _ _
  have helpers : ∀ b, boyOf (s.doorboy b) (asleep' (.doorboy b)) = boyOf (s.doorboy b) (asleep (.doorboy b)) := by
    intro b
    rcases same (.doorboy b) with same | rfl | ⟨c,site,other⟩
    · rw [same]
    · exact absurd rfl away
    · exact boyOf_awake site other _ _
  have patients : ∀ p, clientOf (s'.patient p).pc (asleep' (.patient p)) = clientOf (s.patient p).pc (asleep (.patient p)) ∧
      guestOf (s'.patient p).pc (asleep' (.patient p)) = guestOf (s.patient p).pc (asleep (.patient p)) := by
    intro p
    rcases patients_elsewhere changes away p with ⟨still,own⟩ | ⟨own,before,after⟩
    · rw [still]
      rcases same (.patient p) with same | own' | ⟨c,site,other⟩
      · rw [same]; exact ⟨rfl,rfl⟩
      · exact absurd own'.symm own
      · exact patient_awake site other _ _
    · rw [(elsewhere before _).1,(elsewhere before _).2,(threshold after _).1,(threshold after _).2]
      exact ⟨rfl,rfl⟩
  refine View.ext ?_ ?_ ?_ ?_ ?_ ?_ ?_ ?_ ?_
  all_goals simp [view,door,boys,doctors,servers,helpers,patients,fresh_elsewhere changes away]

theorem events_elsewhere {events : List (Event n)} (others : ∀ event ∈ events, eventStation event ≠ .clinic) :
    (∀ d, events.filterMap (examEvent d) = []) ∧ events.filterMap mailEvent = [] := by
  refine ⟨fun d => List.filterMap_eq_nil_iff.mpr fun event present => ?_,
    List.filterMap_eq_nil_iff.mpr fun event present => ?_⟩
  all_goals
    have away := others event present
    cases event <;> simp_all [eventStation,examEvent,mailEvent]

theorem releasedBy_elsewhere (changes : Changes s draw t s' op events) (going : site s t ≠ .ended)
    (away : home s t ≠ .clinic) (d : Fin n.doctorsCount) : releasedBy d t op = [] := by
  unfold releasedBy
  split
  · rename_i p e
    cases changes_follows changes going with
    | release held =>
      have inside := held_home s (by simp) _ held
      simp only [stationOf,reduceCtorEq,or_false] at inside
      exact absurd inside.symm away
  · rfl

theorem moved_elsewhere (changes : Changes s draw t s' op events) (ready : (program n).Ready s asleep t)
    (away : home s t ≠ .clinic) (sleeps : (program n).Sleeps s t asleep op woken asleep') :
    Moved s asleep s' asleep' ⟨t,op,woken,events⟩ := by
  have silent : ∀ c, conditionOf op = some c → ¬Heard c := by
    intro c condition heard
    by_cases manager : t = .hospitalManager
    · subst manager
      cases changes with
      | manager ran =>
        rcases manager_signals ran with none_ | ⟨b,rfl,which⟩
        · simp [none_] at condition
        · cases Option.some.inj condition
          rcases which with rfl | rfl | rfl | rfl <;> simp [Heard,lockOf,stationOf] at heard
    · exact away ((op_home changes ready.going manager condition).symm.trans heard.1)
  have others : ∀ event ∈ events, eventStation event ≠ .clinic := by
    intro event present
    rw [events_home changes event present]
    exact away
  obtain ⟨notes,mails⟩ := events_elsewhere others
  obtain ⟨door,exam,boys,doctors⟩ := clinic_elsewhere changes away
  refine ⟨none,[],?_,?_,?_,Or.inl ⟨mails,by rw [door]⟩⟩
  · rw [view_elsewhere changes away sleeps silent]
    exact .idles
  · have same : papers s' = papers s := by
      simp [papers,exam,doctors,diagnoses_elsewhere changes away]
    rw [same]
    exact .quiet (by simp)
  · intro d
    simp [examIn,releasedBy_elsewhere changes ready.going away,notes,notesAt]

-- A doctor that has signalled its diagnosis has not seen the bucket emptied yet,
-- and one that was called back has.
theorem Kept.told (kept : Kept s asleep exams holder case) (place : s.doctor d = .diagnosisSignalled) :
    s.exam.patientDoctorBucket d ≠ -2 := by
  have fits := kept.joint.fits d
  obtain ⟨p,held⟩ : ∃ p, holder d = .client p .answered := by simpa [View.desks,view,place,serverOf,Fits] using fits
  have room := kept.room d
  rw [held] at room
  have low : 0 ≤ s.exam.patientDoctorBucket d := room.2.1
  omega

theorem Kept.left (kept : Kept s asleep exams holder case) (awake : asleep (.doctor d) = false)
    (place : s.doctor d = .leaveWaited) : s.exam.patientDoctorBucket d = -2 := by
  have fits := kept.joint.fits d
  obtain ⟨p,held⟩ : ∃ p, holder d = .client p .leaving ∨ holder d = .gone p := by
    simpa [View.desks,view,place,awake,serverOf,Fits] using fits
  have room := kept.room d
  rcases held with held | held <;> (rw [held] at room; exact room.2.1)

theorem run_step (kept : Kept s asleep exams holder case) (ready : (program n).Ready s asleep t)
    (changes : Changes s draw t s' op events) (sleeps : (program n).Sleeps s t asleep op woken asleep') :
    Moved s asleep s' asleep' ⟨t,op,woken,events⟩ := by
  by_cases here : home s t = .clinic
  · cases changes with
    | doorboy ran => exact boy_step kept.holds ready ran sleeps
    | doctor ran => exact doctor_step ready kept.told (kept.left ready.awake) ran sleeps
    | atDoor place ran => exact door_step kept.holds ready place ran sleeps
    | atExam place ran => exact exam_step ready place ran sleeps
    | receptionist | cashier | pharmacist | manager => simp [home] at here
    | atReception place | atCashier place | atPharmacy place | leaving place =>
      simp [home,place,PatientPc.home] at here
  · exact moved_elsewhere changes ready here sleeps

theorem freshOf_home {at_ : PatientPc n} (had : freshOf at_ = false) : at_.home ≠ .reception := by
  cases at_ <;> simp_all [freshOf,PatientPc.home]

-- The token of a patient past the reception stays.
theorem tokens_stay (changes : Changes s draw t s' op events) (had : (s.patient p).pc.home ≠ .reception) :
    (s'.patient p).myPatientToken = (s.patient p).myPatientToken := by
  by_cases here : home s t = .reception
  · cases changes with
    | @atReception q at_ reception me op events place ran =>
      have differs : p ≠ q := by rintro rfl; exact had here
      simp [differs]
    | receptionist => rfl
    | doorboy | doctor | cashier | pharmacist | manager => rfl
    | atDoor place | atExam place | atCashier place | atPharmacy place | leaving place =>
      simp [home,place,PatientPc.home] at here
  · exact tokens_elsewhere changes here p

end

theorem initial_kept (n : Counts) :
    Kept (initialized n) (fun _ => false) (fun _ => []) (fun _ => .nobody) (fun _ => .none) where
  joint := by
    refine ⟨?_,?_,?_,?_,?_,?_⟩
    all_goals simp [View.desks,View.carries,view,initialized,serverOf,clientOf,boyOf,Fits,Holder.patron]
  holds := by
    refine ⟨?_,?_,?_,?_,?_,?_,?_,.unheard ?_,.unheard ?_⟩
    all_goals simp [view,initialized,tally,boyOf,guestOf,Boy.engages,Boy.inside,Boy.calls,Boy.idling,Boy.seeks,Guest.lined]
  room d := ⟨rfl,rfl⟩
  traced d := .start
  examined p done := by simp [Done,View.desks,view,initialized,freshOf] at done

theorem posted_trace {mails : List (Mail K D N)} (posted : Posted before mails after)
    (trace : Trace none Posts before log) : Trace none Posts after (mails ++ log) := by
  rcases posted with ⟨rfl,rfl⟩ | ⟨mail,rfl,posts⟩
  · exact trace
  · exact trace.step posts

theorem runs_kept (path : (program n).Runs history asleep s) :
    (∃ holder case, Kept s asleep (fun d => examinations d history) holder case) ∧
    Trace none Posts s.door.nextAvailableDoctor (mailbox history) := by
  induction path with
  | initial => exact ⟨⟨_,_,initial_kept n⟩,.start⟩
  | @step history asleep s t draw s' op events woken asleep' prior ready executed sleeps ih =>
    obtain ⟨⟨holder,case,kept⟩,mails⟩ := ih
    have changes := exec_changes executed
    obtain ⟨label,notes,step,effect,exams,posted⟩ := run_step kept ready changes sleeps
    have distinct := (Reception.runs_tokens prior).2
    obtain ⟨holder',case',kept'⟩ := kept_step kept
      (fun p q one _ same => distinct p q (Reception.runs_served prior (freshOf_home one)) same) step effect
      (fun p had => tokens_stay changes (freshOf_home had))
    refine ⟨⟨holder',case',?_⟩,?_⟩
    · simpa only [examinations,List.flatMap_cons,exams] using kept'
    · exact posted_trace posted mails

-- Past the examination.
def examined : PatientPc n → Bool
  | .exam (.leaveSignalled _) | .cashier _ | .pharmacy _ | .leave _ => true
  | _ => false

section
variable {s s' : State n} {asleep asleep' : ThreadId n → Bool}

theorem examined_home {at_ : PatientPc n} (past : examined at_ = true) : at_.home ≠ .reception := by
  cases at_ <;> simp_all [examined,PatientPc.home]

theorem examined_behind {at_ : PatientPc n} (here : at_.home = .cashiers ∨ at_.home = .pharmacy) : examined at_ = true := by
  cases at_ <;> simp [PatientPc.home] at here
  all_goals rfl

theorem clientOf_examined {at_ : PatientPc n} (past : examined at_ = true) (here : clientOf at_ b = some (d,stage)) :
    stage = .leaving := by
  revert past here
  fun_cases clientOf at_ b <;> simp [examined]
  exact fun _ same => same.symm

theorem examined_done {holder : Fin n.doctorsCount → Holder (Fin n.numberOfPatients)}
    (joint : Joint (view s asleep).desks holder) (past : examined (s.patient p).pc = true) :
    Done (view s asleep).desks holder p := by
  constructor
  · simp only [View.desks,view]
    cases place : (s.patient p).pc <;> simp_all [examined,freshOf]
  · intro d stage held
    exact clientOf_examined past ((joint.client p d stage).mpr held)

-- What every patient past its examination has.
theorem runs_examined (path : (program n).Runs history asleep s) (past : examined (s.patient p).pc = true) :
    0 ≤ (s.patient p).myPatientDiagnosis ∧ (s.patient p).myPatientDiagnosis ≤ 4 ∧
    (∃ entry, tokenIndex (s.patient p).myPatientToken = some entry ∧
      s.exam.patientConsultancyFee entry = (s.patient p).myPatientDiagnosis) ∧
    ∃ d, .written (s.patient p).myPatientToken (s.patient p).myPatientDiagnosis ∈ examinations d history := by
  obtain ⟨⟨holder,case,kept⟩,_⟩ := runs_kept path
  obtain ⟨low,high,fee,present⟩ := kept.examined p (examined_done kept.joint past)
  have inside := (Reception.runs_tokens path).1 p (Reception.runs_served path (examined_home past))
  have index : tokenIndex (n := n) (s.patient p).myPatientToken = some ⟨(s.patient p).myPatientToken.toNat,by omega⟩ := by
    simp [tokenIndex,inside]
  exact ⟨low,high,⟨_,index,fee _ index⟩,present⟩

theorem examined_stays (changes : Changes s draw t s' op events) (past : examined (s.patient p).pc = true) :
    examined (s'.patient p).pc = true ∧ (s'.patient p).myPatientDiagnosis = (s.patient p).myPatientDiagnosis := by
  have own : ∀ q me, (q = p → examined me.pc = true ∧ me.myPatientDiagnosis = (s.patient q).myPatientDiagnosis) →
      examined (Function.update s.patient q me p).pc = true ∧
        (Function.update s.patient q me p).myPatientDiagnosis = (s.patient p).myPatientDiagnosis := by
    intro q me now
    by_cases same : p = q
    · subst same; simpa using now rfl
    · simp [same,past]
  cases changes with
  | receptionist | doorboy | doctor | cashier | pharmacist | manager => exact ⟨past,rfl⟩
  | atReception place | atDoor place =>
    refine own _ _ ?_
    rintro rfl
    simp [place,examined] at past
  | atExam place ran =>
    refine own _ _ ?_
    rintro rfl
    rw [place] at past
    unfold patientExam at ran
    split at ran <;> simp [examined] at past
    cases ran
    exact ⟨rfl,rfl⟩
  | atCashier place ran =>
    refine own _ _ fun _ => ⟨?_,(patientCashier_after ran).2.1⟩
    rcases (patientCashier_after ran).2.2 with here | next
    · exact examined_behind (Or.inl here)
    · simp [next,examined]
  | atPharmacy place ran =>
    refine own _ _ fun _ => ⟨?_,(patientPharmacy_after ran).2.1⟩
    rcases (patientPharmacy_after ran).2.2 with here | next
    · exact examined_behind (Or.inr here)
    · simp [next,examined]
  | leaving place ran =>
    obtain ⟨at_,after⟩ := (patientLeave_after ran).2.2
    exact own _ _ fun _ => ⟨by simp [after,examined],(patientLeave_after ran).2.1⟩

-- Nothing that a patient is charged for changes after its examination.
theorem examined_steady (before : (program n).Runs history asleep s) (after : (program n).Runs history' asleep' s')
    (changes : Changes s draw t s' op events) (past : examined (s.patient p).pc = true) :
    Steady (token s) (token s') (papers s) (papers s') p := by
  obtain ⟨still,diagnosis⟩ := examined_stays changes past
  have tokens : (s'.patient p).myPatientToken = (s.patient p).myPatientToken := tokens_stay changes (examined_home past)
  obtain ⟨_,_,⟨entry,index,fee⟩,_⟩ := runs_examined before past
  obtain ⟨_,_,⟨entry',index',fee'⟩,_⟩ := runs_examined after still
  refine ⟨tokens,diagnosis,fun e here => ?_⟩
  rw [tokens,index] at index'
  obtain rfl : e = entry := Option.some.inj (here.symm.trans index)
  obtain rfl := Option.some.inj index'
  exact fee'.trans (diagnosis.trans fee.symm)

end

end Nachos.Hospital.Clinic
