import Nachos.CpuQueues

-- A finished thread is deleted where SWITCH returns in Run. A thread that has the
-- CPU for the first time starts in ThreadRoot instead and deletes nothing.
namespace Nachos.Cpu
open Monitor

section
variable {T L C S : Type} [DecidableEq T]

-- The thread has had the CPU before.
def started (main : T) (log : List (Event T L C S)) (t : T) : Bool :=
  t = main ∨ t ∈ dispatchedOf log

-- Since the last Finish the CPU went only to threads that had not had it before.
def pending (main : T) : List (Event T L C S) → Bool
  | [] => false
  | .finished _ :: _ => true
  | .dispatched t _ :: older => pending main older && !started main older t
  | .returned .. :: older | .enqueued _ :: older | .resumed _ :: older | .deleted _ :: older => pending main older

-- No Finish is called while that is so.
def Spaced (main : T) : List (Event T L C S) → Prop
  | [] => True
  | .finished _ :: older => pending main older = false ∧ Spaced main older
  | .dispatched .. :: older | .returned .. :: older | .enqueued _ :: older | .resumed _ :: older | .deleted _ :: older =>
    Spaced main older

instance decidableSpaced (main : T) : (log : List (Event T L C S)) → Decidable (Spaced main log)
  | [] => .isTrue trivial
  | .finished _ :: older => @instDecidableAnd _ _ (inferInstanceAs (Decidable (_ = _))) (decidableSpaced main older)
  | .dispatched .. :: older | .returned .. :: older | .enqueued _ :: older | .resumed _ :: older | .deleted _ :: older =>
    decidableSpaced main older

-- Of the threads that have finished and left the CPU, only the one recorded in
-- threadToBeDestroyed has not been deleted.
def Recorded (c : Cpu T L C S) : Prop :=
  ∀ t, .finished t ∈ c.log → t ≠ c.currentThread → .deleted t ∉ c.log → c.threadToBeDestroyed = some t

def Frame.plain : Frame T L C S → Bool
  | .switched _ => false
  | _ => true

def Event.quiet : Event T L C S → Bool
  | .dispatched .. | .finished _ | .deleted _ => false
  | .returned .. | .enqueued _ | .resumed _ => true

theorem started_quiet {front : List (Event T L C S)} (quiet : ∀ e ∈ front, e.quiet = true) (main : T)
    (log : List (Event T L C S)) (t : T) : started main (front ++ log) t = started main log t := by
  have none_ : dispatchedOf front = [] := by
    simp only [dispatchedOf,List.filterMap_eq_nil_iff,List.mem_reverse]
    intro e member
    have calm := quiet e member
    cases e <;> simp_all [Event.quiet]
  have split : dispatchedOf (front ++ log) = dispatchedOf log ++ dispatchedOf front := by simp [dispatchedOf]
  simp [started,split,none_]

theorem started_dispatched (main : T) (log : List (Event T L C S)) (next t : T) (level : IntStatus) :
    started main (.dispatched next level :: log) t = (started main log t || decide (t = next)) := by
  simp [started,dispatchedOf,Bool.or_assoc]

theorem started_finished (main : T) (log : List (Event T L C S)) (u t : T) :
    started main (.finished u :: log) t = started main log t := by
  simp [started,dispatchedOf]

theorem started_deleted (main : T) (log : List (Event T L C S)) (u t : T) :
    started main (.deleted u :: log) t = started main log t := by
  simp [started,dispatchedOf]

theorem pending_quiet {front : List (Event T L C S)} (quiet : ∀ e ∈ front, e.quiet = true) (main : T)
    (log : List (Event T L C S)) : pending main (front ++ log) = pending main log := by
  induction front with
  | nil => rfl
  | cons e front ih =>
    have calm := quiet e (by simp)
    have rest := ih fun e member => quiet e (by simp [member])
    cases e with
    | returned | enqueued | resumed => exact rest
    | dispatched | finished | deleted => simp [Event.quiet] at calm

theorem spaced_quiet {front : List (Event T L C S)} (quiet : ∀ e ∈ front, e.quiet = true) (main : T)
    (log : List (Event T L C S)) : Spaced main (front ++ log) ↔ Spaced main log := by
  induction front with
  | nil => rfl
  | cons e front ih =>
    have calm := quiet e (by simp)
    have rest := ih fun e member => quiet e (by simp [member])
    cases e with
    | returned | enqueued | resumed => exact rest
    | dispatched | finished | deleted => simp [Event.quiet] at calm

omit [DecidableEq T] in
theorem ends_quiet {front : List (Event T L C S)} (quiet : ∀ e ∈ front, e.quiet = true) (log : List (Event T L C S))
    (t : T) : (.finished t ∈ front ++ log ↔ .finished t ∈ log) ∧ (.deleted t ∈ front ++ log ↔ .deleted t ∈ log) := by
  have one : .finished t ∉ front := fun member => absurd (quiet _ member) (by simp [Event.quiet])
  have two : .deleted t ∉ front := fun member => absurd (quiet _ member) (by simp [Event.quiet])
  simp [one,two]

end

-- What a step does with the finished threads: none of them is touched, the CPU goes
-- to another thread, or the current thread finishes.
inductive Passes (c after : Cpu T L C S) : List (Frame T L C S) → Prop where
  | quiet (front : List (Event T L C S)) : after.currentThread = c.currentThread →
      after.threadToBeDestroyed = c.threadToBeDestroyed → after.log = front ++ c.log →
      (∀ e ∈ front, e.quiet = true) → (∀ f ∈ pushed, f.plain = true) → Passes c after pushed
  | hands (front : List (Event T L C S)) (off : IntStatus) : next ∈ c.readyList → after.currentThread = next →
      after.threadToBeDestroyed = c.threadToBeDestroyed → after.log = .dispatched next off :: (front ++ c.log) → (∀ e ∈ front, e.quiet = true) →
      (∀ f ∈ pushed, f.plain = true) → Passes c after (.switched reason :: pushed)
  | finishes : after.currentThread = c.currentThread → after.threadToBeDestroyed = some c.currentThread →
      after.log = .finished c.currentThread :: c.log → (∀ f ∈ pushed, f.plain = true) → Passes c after pushed

section
variable [DecidableEq T] [DecidableEq L] [DecidableEq C] [DecidableEq S] {c after : Cpu T L C S}

-- A step that leaves the log alone.
omit [DecidableEq T] [DecidableEq L] [DecidableEq C] [DecidableEq S] in
theorem passes_calm (thread : after.currentThread = c.currentThread)
    (carcass : after.threadToBeDestroyed = c.threadToBeDestroyed) (log : after.log = c.log)
    (pushes : ∀ f ∈ pushed, f.plain = true) : Passes c after pushed :=
  .quiet [] thread carcass log (by simp) pushes

omit [DecidableEq L] [DecidableEq C] [DecidableEq S] in
theorem readyToRun_passes {c' : Cpu T L C S} (thread : c'.currentThread = c.currentThread)
    (carcass : c'.threadToBeDestroyed = c.threadToBeDestroyed) (log : c'.log = c.log) (woken : Option T)
    (pushes : ∀ f ∈ pushed, f.plain = true) : Passes c (c'.readyToRun woken) pushed := by
  cases woken with
  | none => exact passes_calm thread carcass log pushes
  | some t => exact .quiet [.enqueued t] thread carcass (congrArg (Event.enqueued t :: ·) log) (by simp [Event.quiet]) pushes

theorem body_passes (c : Cpu T L C S) (operation : Operation T L C S) :
    Passes c (c.body operation).1 (c.body operation).2 := by
  cases operation with
  | p s => exact passes_calm rfl rfl rfl (by simp [body,Frame.plain])
  | v s | release l | signal d conditionLock | fork t =>
    simp only [body]
    apply readyToRun_passes <;> first | rfl | simp
  | acquire l =>
    simp only [body]
    split
    · exact passes_calm rfl rfl rfl (by simp [Frame.plain])
    · exact passes_calm rfl rfl rfl (by simp)
  | wait d conditionLock =>
    simp only [body]
    split
    · exact passes_calm rfl rfl rfl (by simp)
    · exact passes_calm rfl rfl rfl (by simp [Frame.plain])
  | yield =>
    simp only [body]
    split
    · exact passes_calm rfl rfl rfl (by simp)
    · rename_i next later ready
      have first : next ∈ c.readyList := by simp [ready]
      exact .hands [.enqueued c.currentThread] c.level first rfl rfl rfl (by simp [Event.quiet]) (by simp)
  | finish => exact .finishes rfl rfl rfl (by simp [body,Frame.plain])

-- More of the same thread's frames under those it leaves.
omit [DecidableEq T] [DecidableEq L] [DecidableEq C] [DecidableEq S] in
theorem Passes.before (passes : Passes c after pushed) (plain : ∀ f ∈ rest, f.plain = true) :
    Passes c after (pushed ++ rest) := by
  have both : ∀ {front : List (Frame T L C S)}, (∀ f ∈ front, f.plain = true) → ∀ f ∈ front ++ rest, f.plain = true := by
    intro front pushes f member
    rcases List.mem_append.mp member with here | here
    · exact pushes f here
    · exact plain f here
  cases passes with
  | quiet front thread carcass log quiet pushes => exact .quiet front thread carcass log quiet (both pushes)
  | hands front off ready thread carcass log quiet pushes =>
    exact .hands front off ready thread carcass log quiet (both pushes)
  | finishes thread carcass log pushes => exact .finishes thread carcass log (both pushes)

omit [DecidableEq T] [DecidableEq L] [DecidableEq C] [DecidableEq S] in
theorem Passes.atLevel (passes : Passes {c with level := level'} after pushed) : Passes c after pushed := by
  cases passes with
  | quiet front thread carcass log quiet pushes => exact .quiet front thread carcass log quiet pushes
  | hands front off ready thread carcass log quiet pushes =>
    exact .hands front off ready thread carcass log quiet pushes
  | finishes thread carcass log pushes => exact .finishes thread carcass log pushes

theorem enter_passes (c : Cpu T L C S) (operation : Operation T L C S) :
    Passes c (c.enter operation).1 (c.enter operation).2 := by
  refine (body_passes {c with level := .IntOff} operation).atLevel.before ?_
  cases operation <;> simp [ending,Frame.plain]

omit [DecidableEq T] [DecidableEq L] [DecidableEq C] [DecidableEq S] in
theorem setLevel_passes (changed : c.setLevel now = .ok (after,pushed)) : Passes c after pushed := by
  unfold setLevel at changed
  split at changed <;> cases changed
  split
  · exact passes_calm rfl rfl rfl (by simp [Frame.plain])
  · exact passes_calm rfl rfl rfl (by simp)

theorem exec_passes {frame : Frame T L C S} (plain : frame.plain = true)
    (executed : c.exec choice frame = .ok (after,pushed)) : Passes c after pushed := by
  cases frame with
  | call operation =>
    cases executed
    exact enter_passes c operation
  | restore oldLevel => exact setLevel_passes executed
  | root => exact setLevel_passes executed
  | ret operation entry =>
    cases executed
    exact .quiet [.returned c.currentThread operation entry c.level] rfl rfl rfl (by simp [Event.quiet]) (by simp)
  | test s =>
    cases executed
    split
    · exact passes_calm rfl rfl rfl (by simp [Frame.plain])
    · exact passes_calm rfl rfl rfl (by simp)
  | sleep reason =>
    simp only [exec] at executed
    split at executed <;> cases executed
    exact passes_calm rfl rfl rfl (by simp [Frame.plain])
  | sleepLoop reason =>
    simp only [exec] at executed
    split at executed
    · cases executed
      exact passes_calm rfl rfl rfl (by simp [Frame.plain])
    · rename_i next later ready
      cases executed
      have first : next ∈ c.readyList := by simp [ready]
      exact .hands [] c.level first rfl rfl rfl (by simp) (by simp)
  | switched reason => simp [Frame.plain] at plain
  | tick =>
    cases executed
    exact passes_calm rfl rfl rfl (by simp [Frame.plain])
  | ticking =>
    simp only [exec] at executed
    split at executed
    · cases executed
    · split at executed <;> cases executed
      · exact passes_calm rfl rfl rfl (by simp [Frame.plain])
      · split
        · exact passes_calm rfl rfl rfl (by simp [Frame.plain])
        · exact passes_calm rfl rfl rfl (by simp)
  | idle =>
    simp only [exec] at executed
    split at executed
    · cases executed
    · split at executed <;> cases executed <;> exact passes_calm rfl rfl rfl (by simp [Frame.plain])
  | idling =>
    simp only [exec] at executed
    split at executed
    · cases executed
    · split at executed <;> cases executed
      · exact passes_calm rfl rfl rfl (by simp [Frame.plain])
      · exact passes_calm rfl rfl rfl (by simp)

theorem own_passes (executed : c.own choice = .ok (after,pushed)) : Passes c after pushed := by
  cases choice with
  | call operation =>
    have entered := enter_passes c operation
    cases operation with
    | fork t =>
      simp only [own] at executed
      split at executed <;> cases executed
      · exact entered
      · exact passes_calm rfl rfl rfl (by simp)
    | p | v | acquire | release | wait | signal | yield | finish =>
      cases executed
      exact entered
  | setLevel now => exact setLevel_passes executed
  | oneTick =>
    cases executed
    split
    · exact passes_calm rfl rfl rfl (by simp [Frame.plain])
    · exact passes_calm rfl rfl rfl (by simp)
  | fire | go =>
    cases executed
    exact passes_calm rfl rfl rfl (by simp)

theorem exec_collects (executed : c.exec choice (.switched reason) = .ok (after,pushed)) :
    pushed = [] ∧ after.currentThread = c.currentThread ∧ after.threadToBeDestroyed = none ∧ after.stack = c.stack ∧
      ((c.threadToBeDestroyed = none ∧ after.log = .resumed c.currentThread :: c.log) ∨
        ∃ t, c.threadToBeDestroyed = some t ∧ after.log = .deleted t :: .resumed c.currentThread :: c.log) := by
  simp only [exec] at executed
  split at executed
  · rename_i none_
    cases executed
    exact ⟨rfl,rfl,none_,rfl,.inl ⟨none_,rfl⟩⟩
  · rename_i t recorded
    split at executed <;> cases executed
    exact ⟨rfl,rfl,rfl,rfl,.inr ⟨t,recorded,rfl⟩⟩

-- A thread that had the CPU and lost it is where SWITCH returns in Run.
structure Collected (main : T) (c : Cpu T L C S) : Prop where
  below : ∀ t, ∀ f ∈ (c.stack t).tail, f.plain = true
  waiting : ∀ t, t ≠ c.currentThread → started main c.log t = true → ∃ reason rest, c.stack t = .switched reason :: rest
  fresh : ∀ t, t ≠ c.currentThread → started main c.log t = false → ∀ f ∈ c.stack t, f.plain = true
  running : started main c.log c.currentThread = true
  dead : ∀ t, .deleted t ∈ c.log → .finished t ∈ c.log
  known : ∀ t, c.threadToBeDestroyed = some t → .finished t ∈ c.log ∧ .deleted t ∉ c.log
  record : (∀ f ∈ c.stack c.currentThread, f.plain = true) → c.threadToBeDestroyed.isSome = pending main c.log
  back : ∀ reason rest, c.stack c.currentThread = .switched reason :: rest → pending main c.log = false
  kept : Spaced main c.log → ∀ t, .finished t ∈ c.log → .deleted t ∈ c.log ∨ c.threadToBeDestroyed = some t
  lost : ¬Spaced main c.log →
    ∃ t, t ≠ c.currentThread ∧ .finished t ∈ c.log ∧ .deleted t ∉ c.log ∧ c.threadToBeDestroyed ≠ some t

omit [DecidableEq L] [DecidableEq C] [DecidableEq S] in
theorem initial_collected (main : T) (initialValue : S → Int) :
    Collected main (initial main initialValue : Cpu T L C S) := by
  refine ⟨?_,?_,?_,?_,?_,?_,?_,?_,?_,?_⟩ <;> simp [initial,started,dispatchedOf,pending,Spaced]

-- The stacks of the threads that do not run: they stay, or a thread is forked.
def Forks (main : T) (c after : Cpu T L C S) : Prop :=
  ∀ t, t ≠ c.currentThread →
    after.stack t = c.stack t ∨ (after.stack t = [.root] ∧ started main c.log t = false)

omit [DecidableEq L] [DecidableEq C] [DecidableEq S] in
theorem Forks.below (forks : Forks main c after) (collected : Collected main c)
    (own : ∀ f ∈ (after.stack c.currentThread).tail, f.plain = true) :
    ∀ t, ∀ f ∈ (after.stack t).tail, f.plain = true := by
  intro t
  by_cases self : t = c.currentThread
  · exact self ▸ own
  · rcases forks t self with same | ⟨forked,_⟩
    · rw [same]
      exact collected.below t
    · simp [forked]

omit [DecidableEq L] [DecidableEq C] [DecidableEq S] in
theorem Forks.waiting (forks : Forks main c after) (collected : Collected main c) {t : T} (other : t ≠ c.currentThread)
    (ran : started main c.log t = true) : ∃ reason rest, after.stack t = .switched reason :: rest := by
  rcases forks t other with same | ⟨_,fresh⟩
  · rw [same]
    exact collected.waiting t other ran
  · simp [ran] at fresh

omit [DecidableEq L] [DecidableEq C] [DecidableEq S] in
theorem Forks.fresh (forks : Forks main c after) (collected : Collected main c) {t : T} (other : t ≠ c.currentThread)
    (fresh : started main c.log t = false) : ∀ f ∈ after.stack t, f.plain = true := by
  rcases forks t other with same | ⟨forked,_⟩
  · rw [same]
    exact collected.fresh t other fresh
  · simp [forked,Frame.plain]

omit [DecidableEq T] [DecidableEq L] [DecidableEq C] [DecidableEq S] in
theorem plain_tail {frames : List (Frame T L C S)} (plain : ∀ f ∈ frames, f.plain = true) :
    ∀ f ∈ frames.tail, f.plain = true := fun f member => plain f (List.mem_of_mem_tail member)

omit [DecidableEq T] [DecidableEq L] [DecidableEq C] [DecidableEq S] in
theorem plain_head {frames rest : List (Frame T L C S)} (plain : ∀ f ∈ frames, f.plain = true)
    (top : frames = .switched reason :: rest) : False := by
  have head := plain (.switched reason) (by simp [top])
  simp [Frame.plain] at head

omit [DecidableEq L] [DecidableEq C] [DecidableEq S] in
theorem quiet_collected (collected : Collected main c) (forks : Forks main c after)
    (thread : after.currentThread = c.currentThread) (carcass : after.threadToBeDestroyed = c.threadToBeDestroyed)
    (log : after.log = front ++ c.log) (quiet : ∀ e ∈ front, e.quiet = true)
    (own : after.stack c.currentThread = c.stack c.currentThread ∨
      ((∀ f ∈ c.stack c.currentThread, f.plain = true) ∧ ∀ f ∈ after.stack c.currentThread, f.plain = true)) :
    Collected main after := by
  have ran := started_quiet quiet main c.log
  have ends := ends_quiet quiet c.log
  refine ⟨forks.below collected ?_,?_,?_,?_,?_,?_,?_,?_,?_,?_⟩
  · rcases own with same | ⟨_,plain⟩
    · rw [same]
      exact collected.below _
    · exact plain_tail plain
  · intro t other before
    rw [thread] at other
    rw [log,ran] at before
    exact forks.waiting collected other before
  · intro t other before
    rw [thread] at other
    rw [log,ran] at before
    exact forks.fresh collected other before
  · rw [log,ran,thread]
    exact collected.running
  · intro t deleted
    rw [log,(ends t).2] at deleted
    rw [log,(ends t).1]
    exact collected.dead t deleted
  · intro t recorded
    rw [carcass] at recorded
    rw [log,(ends t).1,(ends t).2]
    exact collected.known t recorded
  · intro plain
    rw [thread] at plain
    rw [carcass,log,pending_quiet quiet]
    rcases own with same | ⟨before,_⟩
    · exact collected.record (same ▸ plain)
    · exact collected.record before
  · intro reason rest top
    rw [thread] at top
    rw [log,pending_quiet quiet]
    rcases own with same | ⟨_,plain⟩
    · exact collected.back reason rest (same ▸ top)
    · exact (plain_head plain top).elim
  · intro spaced t finished
    rw [log,spaced_quiet quiet] at spaced
    rw [log,(ends t).1] at finished
    rw [log,(ends t).2,carcass]
    exact collected.kept spaced t finished
  · intro spaced
    rw [log,spaced_quiet quiet] at spaced
    obtain ⟨t,other,finished,deleted,unrecorded⟩ := collected.lost spaced
    refine ⟨t,?_,?_,?_,?_⟩
    · rwa [thread]
    · rwa [log,(ends t).1]
    · rwa [log,(ends t).2]
    · rwa [carcass]

-- The CPU goes to a thread that had it before, which is about to delete, or to a new one.
omit [DecidableEq L] [DecidableEq C] [DecidableEq S] in
theorem hands_collected {front : List (Event T L C S)} (collected : Collected main c) (forks : Forks main c after)
    (thread : after.currentThread = next) (carcass : after.threadToBeDestroyed = c.threadToBeDestroyed)
    (log : after.log = .dispatched next off :: (front ++ c.log)) (quiet : ∀ e ∈ front, e.quiet = true)
    (plain : ∀ f ∈ c.stack c.currentThread, f.plain = true)
    (own : after.stack c.currentThread = .switched reason :: rest) (under : ∀ f ∈ rest, f.plain = true)
    (living : .finished next ∉ c.log) : Collected main after := by
  have ran : ∀ t, started main after.log t = (started main c.log t || decide (t = next)) := by
    intro t
    rw [log,started_dispatched,started_quiet quiet]
  have due : pending main after.log = (pending main c.log && !started main c.log next) := by
    rw [log,pending,pending_quiet quiet,started_quiet quiet]
  have finishes : ∀ t, .finished t ∈ after.log ↔ .finished t ∈ c.log := by
    intro t
    simpa [log] using (ends_quiet quiet c.log t).1
  have deletes : ∀ t, .deleted t ∈ after.log ↔ .deleted t ∈ c.log := by
    intro t
    simpa [log] using (ends_quiet quiet c.log t).2
  have apart : Spaced main after.log ↔ Spaced main c.log := by
    rw [log,Spaced,spaced_quiet quiet]
  refine ⟨forks.below collected ?_,?_,?_,?_,?_,?_,?_,?_,?_,?_⟩
  · simpa [own] using under
  · intro t other before
    rw [thread] at other
    by_cases self : t = c.currentThread
    · exact ⟨reason,rest,self ▸ own⟩
    · rw [ran,decide_eq_false other,Bool.or_false] at before
      exact forks.waiting collected self before
  · intro t other before
    rw [thread] at other
    rw [ran,decide_eq_false other,Bool.or_false] at before
    by_cases self : t = c.currentThread
    · rw [self,collected.running] at before
      cases before
    · exact forks.fresh collected self before
  · simp [thread,ran]
  · intro t deleted
    exact (finishes t).mpr (collected.dead t ((deletes t).mp deleted))
  · intro t recorded
    rw [finishes,deletes]
    exact collected.known t (carcass ▸ recorded)
  · -- No frame of the next thread deletes: it is new.
    intro new
    rw [thread] at new
    have first : started main c.log next = false := by
      by_contra old
      have old : started main c.log next = true := by simpa using old
      by_cases self : next = c.currentThread
      · exact plain_head (self ▸ new) own
      · obtain ⟨_,_,top⟩ := forks.waiting collected self old
        exact plain_head new top
    rw [carcass,due,first,Bool.not_false,Bool.and_true]
    exact collected.record plain
  · intro reason' rest' top
    rw [thread] at top
    have old : started main c.log next = true := by
      by_contra first
      have first : started main c.log next = false := by simpa using first
      by_cases self : next = c.currentThread
      · rw [self,collected.running] at first
        cases first
      · exact plain_head (forks.fresh collected self first) top
    rw [due,old,Bool.not_true,Bool.and_false]
  · intro spaced t finished
    rw [deletes,carcass]
    exact collected.kept (apart.mp spaced) t ((finishes t).mp finished)
  · intro spaced
    obtain ⟨t,_,finished,deleted,unrecorded⟩ := collected.lost fun before => spaced (apart.mpr before)
    refine ⟨t,?_,(finishes t).mpr finished,fun now => deleted ((deletes t).mp now),?_⟩
    · rw [thread]
      rintro rfl
      exact living finished
    · rwa [carcass]

omit [DecidableEq L] [DecidableEq C] [DecidableEq S] in
theorem finishes_collected (collected : Collected main c) (forks : Forks main c after)
    (thread : after.currentThread = c.currentThread) (carcass : after.threadToBeDestroyed = some c.currentThread)
    (log : after.log = .finished c.currentThread :: c.log) (plain : ∀ f ∈ c.stack c.currentThread, f.plain = true)
    (own : ∀ f ∈ after.stack c.currentThread, f.plain = true) (living : .finished c.currentThread ∉ c.log) :
    Collected main after := by
  have ran : ∀ t, started main after.log t = started main c.log t := by
    intro t
    rw [log,started_finished]
  have due := collected.record plain
  have deletes : ∀ t, .deleted t ∈ after.log ↔ .deleted t ∈ c.log := by simp [log]
  refine ⟨forks.below collected (plain_tail own),?_,?_,?_,?_,?_,?_,?_,?_,?_⟩
  · intro t other before
    rw [thread] at other
    exact forks.waiting collected other (ran t ▸ before)
  · intro t other before
    rw [thread] at other
    exact forks.fresh collected other (ran t ▸ before)
  · rw [ran,thread]
    exact collected.running
  · intro t deleted
    rw [log]
    exact List.mem_cons_of_mem _ (collected.dead t ((deletes t).mp deleted))
  · intro t recorded
    obtain rfl : c.currentThread = t := by simpa [carcass] using recorded
    refine ⟨by simp [log],?_⟩
    rw [deletes]
    exact fun deleted => living (collected.dead _ deleted)
  · intro _
    rw [carcass,log]
    rfl
  · intro reason rest top
    rw [thread] at top
    exact (plain_head own top).elim
  · intro spaced t finished
    rw [log,Spaced] at spaced
    rw [log,List.mem_cons] at finished
    rw [deletes]
    rcases finished with same | earlier
    · cases same
      exact .inr carcass
    · refine (collected.kept spaced.2 t earlier).imp_right ?_
      intro recorded
      rw [recorded,spaced.1] at due
      cases due
  · intro spaced
    rw [log,Spaced] at spaced
    -- The thread recorded before is lost, unless one was lost already.
    have candidate : ∃ t, .finished t ∈ c.log ∧ .deleted t ∉ c.log := by
      by_cases before : Spaced main c.log
      · have late : pending main c.log = true := by
          by_contra early
          exact spaced ⟨by simpa using early,before⟩
        rw [late,Option.isSome_iff_exists] at due
        obtain ⟨t,recorded⟩ := due
        exact ⟨t,collected.known t recorded⟩
      · obtain ⟨t,_,finished,deleted,_⟩ := collected.lost before
        exact ⟨t,finished,deleted⟩
    obtain ⟨t,finished,deleted⟩ := candidate
    have other : t ≠ c.currentThread := by
      rintro rfl
      exact living finished
    refine ⟨t,?_,?_,?_,?_⟩
    · rwa [thread]
    · rw [log]
      exact List.mem_cons_of_mem _ finished
    · rwa [deletes]
    · rw [carcass]
      exact fun same => other (Option.some.inj same).symm

-- Where SWITCH returns in Run the recorded thread is deleted.
omit [DecidableEq L] [DecidableEq C] [DecidableEq S] in
theorem collects_collected (collected : Collected main c) (forks : Forks main c after)
    (thread : after.currentThread = c.currentThread) (carcass : after.threadToBeDestroyed = none)
    (top : c.stack c.currentThread = .switched reason :: rest) (own : after.stack c.currentThread = rest)
    (log : (c.threadToBeDestroyed = none ∧ after.log = .resumed c.currentThread :: c.log) ∨
      ∃ t, c.threadToBeDestroyed = some t ∧ after.log = .deleted t :: .resumed c.currentThread :: c.log) :
    Collected main after := by
  have plain : ∀ f ∈ rest, f.plain = true := by simpa [top] using collected.below c.currentThread
  have ran : ∀ t, started main after.log t = started main c.log t := by
    intro t
    have calm : ∀ e ∈ ([.resumed c.currentThread] : List (Event T L C S)), e.quiet = true := by simp [Event.quiet]
    have resumed := started_quiet calm main c.log t
    rcases log with ⟨_,equal⟩ | ⟨u,_,equal⟩
    · rw [equal]
      exact resumed
    · rw [equal,started_deleted]
      exact resumed
  have due : pending main after.log = false := by
    have before := collected.back reason rest top
    rcases log with ⟨_,equal⟩ | ⟨u,_,equal⟩
    · rwa [equal,pending]
    · rwa [equal,pending,pending]
  have apart : Spaced main after.log ↔ Spaced main c.log := by
    rcases log with ⟨_,equal⟩ | ⟨u,_,equal⟩
    · rw [equal,Spaced]
    · rw [equal,Spaced,Spaced]
  have finishes : ∀ t, .finished t ∈ after.log ↔ .finished t ∈ c.log := by
    intro t
    rcases log with ⟨_,equal⟩ | ⟨u,_,equal⟩
    · simp [equal]
    · simp [equal]
  have deletes : ∀ t, .deleted t ∈ after.log ↔ c.threadToBeDestroyed = some t ∨ .deleted t ∈ c.log := by
    intro t
    rcases log with ⟨none_,equal⟩ | ⟨u,recorded,equal⟩
    · simp [equal,none_]
    · simp [equal,recorded,eq_comm]
  refine ⟨forks.below collected ?_,?_,?_,?_,?_,?_,?_,?_,?_,?_⟩
  · rw [own]
    exact plain_tail plain
  · intro t other before
    rw [thread] at other
    exact forks.waiting collected other (ran t ▸ before)
  · intro t other before
    rw [thread] at other
    exact forks.fresh collected other (ran t ▸ before)
  · rw [ran,thread]
    exact collected.running
  · intro t deleted
    rw [finishes]
    rcases (deletes t).mp deleted with recorded | earlier
    · exact (collected.known t recorded).1
    · exact collected.dead t earlier
  · intro t recorded
    simp [carcass] at recorded
  · intro _
    rw [carcass,due]
    rfl
  · intro _ _ _
    exact due
  · intro spaced t finished
    refine .inl ((deletes t).mpr ?_)
    exact (collected.kept (apart.mp spaced) t ((finishes t).mp finished)).symm
  · intro spaced
    obtain ⟨t,other,finished,deleted,unrecorded⟩ := collected.lost fun before => spaced (apart.mpr before)
    refine ⟨t,?_,(finishes t).mpr finished,?_,?_⟩
    · rwa [thread]
    · intro now
      exact ((deletes t).mp now).elim unrecorded deleted
    · simp [carcass]

theorem turn_stacks {v w : View T L C S} (turn : Turn v w) :
    ∀ t, t ≠ v.currentThread → w.stack t = v.stack t ∨ (w.stack t = [.root] ∧ v.status t = .JUST_CREATED) := by
  intro t other
  cases turn with
  | forks fresh _ _ =>
    rename_i u _ _ _
    by_cases same : t = u
    · subst same
      exact .inr ⟨by simp [other],fresh⟩
    · exact .inl (by simp [other,same])
  | still | joins | wakes | sleeps | runs | yields | finishes => exact .inl (by simp [View.frames,other])

-- A thread that was created stays so, and a dispatched one was.
theorem turn_created {v w : View T L C S} (turn : Turn v w) (t : T) :
    (v.status t ≠ .JUST_CREATED → w.status t ≠ .JUST_CREATED) ∧
      (t ∈ w.dispatched → t ∈ v.dispatched ∨ w.status t ≠ .JUST_CREATED) := by
  have update : ∀ {status : T → CpuStatus} {u : T} {new : CpuStatus}, new ≠ .JUST_CREATED →
      status t ≠ .JUST_CREATED → Function.update status u new t ≠ .JUST_CREATED := by
    intro status u new old before
    by_cases same : t = u
    · subst same; simpa using old
    · simpa [same] using before
  cases turn with
  | still | joins | finishes => exact ⟨fun before => before,fun member => .inl member⟩
  | wakes | forks | sleeps => exact ⟨update (by simp),fun member => .inl member⟩
  | runs =>
    refine ⟨update (by simp),?_⟩
    intro member
    rcases List.mem_append.mp member with earlier | now
    · exact .inl earlier
    · obtain rfl := List.mem_singleton.mp now
      exact .inr (by simp)
  | yields =>
    refine ⟨fun before => update (by simp) (update (by simp) before),?_⟩
    intro member
    rcases List.mem_append.mp member with earlier | now
    · exact .inl earlier
    · obtain rfl := List.mem_singleton.mp now
      exact .inr (by simp)

theorem reached_created (reached : Reached main initialValue c) (t : T) (ran : started main c.log t = true) :
    c.status t ≠ .JUST_CREATED := by
  simp only [started,decide_eq_true_eq] at ran
  induction reached with
  | initial =>
    rcases ran with rfl | listed
    · simp [Cpu.initial]
    · simp [Cpu.initial,dispatchedOf] at listed
  | step prior stepped ih =>
    rename_i before choice after
    rcases (step_turn (reached_leveled prior) (reached_orderly prior) stepped).2 with turn | same
    · obtain ⟨stays,dispatched⟩ := turn_created turn t
      rcases ran with rfl | listed
      · exact stays (ih (.inl rfl))
      · rcases dispatched listed with earlier | created
        · exact stays (ih (.inr earlier))
        · exact created
    · have status : after.status = before.status := congrArg View.status same
      have dispatched : dispatchedOf after.log = dispatchedOf before.log := congrArg View.dispatched same
      rw [dispatched] at ran
      rw [status]
      exact ih ran

theorem step_forks (reached : Reached main initialValue c) (stepped : c.step choice = .ok after) : Forks main c after := by
  intro t other
  rcases (step_turn (reached_leveled reached) (reached_orderly reached) stepped).2 with turn | same
  · refine (turn_stacks turn t other).imp_right ?_
    rintro ⟨forked,fresh⟩
    refine ⟨forked,?_⟩
    by_contra ran
    exact reached_created reached t (by simpa using ran) fresh
  · exact .inl (congrFun (congrArg View.stack same) t)

-- A finished thread never has the CPU again.
theorem turn_living {v w : View T L C S} (conserved : Conserved v bed) (turn : Turn v w)
    (moved : v.dispatched.length < w.dispatched.length) : w.currentThread ∉ v.finished := by
  intro finished
  obtain ⟨_,state⟩ := conserved.gone _ finished
  cases turn with
  | still | joins | wakes | forks | sleeps | finishes => exact absurd moved (Nat.lt_irrefl _)
  | runs top clear ready =>
    have waits := (conserved.ready _).mp (ready ▸ List.mem_cons_self ..)
    rcases state with asleep | ⟨_,sleeps⟩
    · rw [waits] at asleep
      cases asleep
    · rw [top] at sleeps
      simp [(clear_sleeps clear _).1] at sleeps
  | yields clear _ ready =>
    have waits := (conserved.ready _).mp (ready ▸ List.mem_cons_self ..)
    rcases state with asleep | ⟨_,sleeps⟩
    · rw [waits] at asleep
      cases asleep
    · exact (clear_sleeps clear _).1 sleeps

omit [DecidableEq L] [DecidableEq C] [DecidableEq S] in
theorem readyToRun_quiet (c : Cpu T L C S) (woken : Option T) :
    (c.readyToRun woken).threadToBeDestroyed = c.threadToBeDestroyed ∧
      ∃ front, (c.readyToRun woken).log = front ++ c.log ∧ ∀ e ∈ front, e.quiet = true := by
  cases woken with
  | none => exact ⟨rfl,[],rfl,by simp⟩
  | some t => exact ⟨rfl,[.enqueued t],rfl,by simp [Event.quiet]⟩

theorem handler_quiet (handles : frame.Handles) (executed : c.exec choice frame = .ok (after,pushed)) :
    after.threadToBeDestroyed = c.threadToBeDestroyed ∧ ∃ front, after.log = front ++ c.log ∧ ∀ e ∈ front, e.quiet = true := by
  cases frame with
  | call operation =>
    cases operation with
    | v s =>
      cases executed
      exact readyToRun_quiet _ _
    | p | acquire | release | wait | signal | fork | yield | finish => cases handles
  | restore oldLevel =>
    cases oldLevel with
    | IntOff =>
      simp only [exec,setLevel,true_or,if_true] at executed
      cases executed
      exact ⟨rfl,[],rfl,by simp⟩
    | IntOn => cases handles
  | ret operation entry =>
    cases executed
    exact ⟨rfl,[_],rfl,by simp [Event.quiet]⟩
  | test | sleep | sleepLoop | switched | root | tick | ticking | idle | idling => cases handles

-- A step of the current thread in its own code or at a frame other than the end of Run.
theorem passes_collected (reached : Reached main initialValue c) (collected : Collected main c)
    (passes : Passes c middle pushed) (stepped : c.step choice = .ok after)
    (result : after = {middle with stack := Function.update middle.stack c.currentThread (pushed ++ rest)})
    (plain : ∀ f ∈ c.stack c.currentThread, f.plain = true) (under : ∀ f ∈ rest, f.plain = true) :
    Collected main after := by
  have forks := step_forks reached stepped
  obtain ⟨bed,conserved⟩ := reached_conserved (.step reached stepped)
  have own : after.stack c.currentThread = pushed ++ rest := by simp [result]
  have passed := passes.before under
  generalize pushed ++ rest = frames at own passed
  cases passed with
  | quiet front thread carcass log quiet pushes =>
    exact quiet_collected collected forks (by simpa [result] using thread) (by simpa [result] using carcass)
      (by simpa [result] using log) quiet (.inr ⟨plain,own ▸ pushes⟩)
  | hands front off ready thread carcass log quiet pushes =>
    rename_i next _ _
    have log : after.log = .dispatched next off :: (front ++ c.log) := by simpa [result] using log
    have thread : after.currentThread = next := by simpa [result] using thread
    refine hands_collected collected forks thread (by simpa [result] using carcass) log quiet plain own pushes ?_
    have longer : dispatchedOf after.log = dispatchedOf c.log ++ dispatchedOf front ++ [next] := by
      simp [dispatchedOf,log]
    have moved : c.view.dispatched.length < after.view.dispatched.length := by
      simp only [view,longer,List.length_append,List.length_singleton]
      omega
    obtain ⟨bed,before⟩ := reached_conserved reached
    rcases (step_turn (reached_leveled reached) (reached_orderly reached) stepped).2 with turn | same
    · intro finished
      have gone : after.view.currentThread ∈ c.view.finished := by
        rw [show after.view.currentThread = next from thread]
        exact mem_finishedOf.mpr finished
      exact turn_living before turn moved gone
    · rw [same] at moved
      exact absurd moved (Nat.lt_irrefl _)
  | finishes thread carcass log pushes =>
    have log : after.log = .finished c.currentThread :: c.log := by simpa [result] using log
    have living : .finished c.currentThread ∉ c.log := by
      have once := conserved.distinct
      simp only [view,log,finishedOf,List.filterMap_cons] at once
      exact fun earlier => (List.nodup_cons.mp once).1 (mem_finishedOf.mpr earlier)
    exact finishes_collected collected forks (by simpa [result] using thread) (by simpa [result] using carcass)
      log plain (own ▸ pushes) living

theorem step_collected (reached : Reached main initialValue c) (collected : Collected main c)
    (stepped : c.step choice = .ok after) : Collected main after := by
  have forks := step_forks reached stepped
  have leveled := reached_leveled reached
  have ran := stepped
  unfold step at stepped
  split at stepped
  · cases stepped
    exact collected
  · split at stepped
    · rename_i inside
      obtain ⟨off,handles⟩ := leveled.handling inside
      split at stepped
      · cases stepped
        exact quiet_collected collected forks rfl rfl (List.nil_append _).symm (by simp) (.inl rfl)
      · rename_i frame rest handler
        obtain ⟨⟨middle,pushed⟩,executed,result⟩ := bind_ok stepped
        cases result
        have here := handles frame (by simp [handler])
        obtain ⟨_,_,_,stack,thread⟩ := exec_handles off here executed
        obtain ⟨carcass,front,log,quiet⟩ := handler_quiet here executed
        exact quiet_collected collected forks thread carcass log quiet (.inl (congrFun stack _))
    · split at stepped
      · rename_i empty
        obtain ⟨⟨middle,pushed⟩,executed,result⟩ := bind_ok stepped
        refine passes_collected reached collected (own_passes executed) ran ?_ ?_ (List.forall_mem_nil _)
        · cases result
          simp
        · simp [empty]
      · rename_i frame rest frames
        obtain ⟨⟨middle,pushed⟩,executed,result⟩ := bind_ok stepped
        have under : ∀ f ∈ rest, f.plain = true := by simpa [frames] using collected.below c.currentThread
        by_cases plain : frame.plain = true
        · refine passes_collected reached collected (exec_passes plain executed) ran ?_ ?_ under
          · cases result
            rfl
          · rw [frames]
            exact List.forall_mem_cons.mpr ⟨plain,under⟩
        · cases frame with
          | switched reason =>
            obtain ⟨rfl,thread,carcass,stack,log⟩ := exec_collects executed
            cases result
            exact collects_collected collected forks thread carcass frames (by simp) log
          | call | restore | ret | test | sleep | sleepLoop | root | tick | ticking | idle | idling =>
            exact absurd rfl plain

theorem reached_collected (reached : Reached main initialValue c) : Collected main c := by
  induction reached with
  | initial => exact initial_collected main initialValue
  | step prior stepped ih => exact step_collected prior ih stepped

-- Finish is not called where SWITCH has yet to return in Run.
theorem finish_plain (reached : Reached main initialValue c) (collected : Collected main c)
    (stepped : c.step choice = .ok after) (log : after.log = .finished c.currentThread :: c.log) :
    ∀ f ∈ c.stack c.currentThread, f.plain = true := by
  have loud : ∀ front : List (Event T L C S), (∀ e ∈ front, e.quiet = true) → after.log ≠ front ++ c.log := by
    intro front quiet same
    have both : [Event.finished c.currentThread] ++ c.log = front ++ c.log := log.symm.trans same
    obtain rfl := List.append_cancel_right both
    simp [Event.quiet] at quiet
  unfold step at stepped
  split at stepped
  · cases stepped
    exact absurd rfl (loud [] (by simp))
  · split at stepped
    · rename_i inside
      obtain ⟨off,handles⟩ := (reached_leveled reached).handling inside
      split at stepped
      · cases stepped
        exact absurd rfl (loud [] (by simp))
      · rename_i frame rest handler
        obtain ⟨⟨middle,pushed⟩,executed,result⟩ := bind_ok stepped
        cases result
        obtain ⟨_,front,same,quiet⟩ := handler_quiet (handles frame (by simp [handler])) executed
        exact absurd same (loud front quiet)
    · split at stepped
      · rename_i empty
        simp [empty]
      · rename_i frame rest frames
        obtain ⟨⟨middle,pushed⟩,executed,result⟩ := bind_ok stepped
        cases result
        have under : ∀ f ∈ rest, f.plain = true := by simpa [frames] using collected.below c.currentThread
        rw [frames]
        refine List.forall_mem_cons.mpr ⟨?_,under⟩
        cases frame with
        | switched reason =>
          obtain ⟨_,_,_,_,⟨_,same⟩ | ⟨t,_,same⟩⟩ := exec_collects executed
          · exact absurd same (loud [.resumed c.currentThread] (by simp [Event.quiet]))
          · have longer := congrArg List.length (log.symm.trans same)
            simp at longer
        | call | restore | ret | test | sleep | sleepLoop | root | tick | ticking | idle | idling => rfl

-- The threads that finished and left the CPU are all recorded or deleted exactly
-- while no Finish was called after a Finish since which only new threads had the
-- CPU. Finish then finds no thread recorded exactly when there is none such.
theorem finished_recorded (reached : Reached main initialValue c) :
    (Recorded c ↔ Spaced main c.log) ∧
      ∀ choice after, c.step choice = .ok after → after.log = .finished c.currentThread :: c.log →
        (c.threadToBeDestroyed = none ↔ pending main c.log = false) := by
  have collected := reached_collected reached
  refine ⟨⟨?_,?_⟩,?_⟩
  · intro recorded
    by_contra crowded
    obtain ⟨t,other,finished,deleted,unrecorded⟩ := collected.lost crowded
    exact unrecorded (recorded t finished other deleted)
  · intro spaced t finished _ alive
    exact (collected.kept spaced t finished).resolve_left alive
  · intro choice after stepped log
    have due := collected.record (finish_plain reached collected stepped log)
    rw [← due]
    simp

end

-- The main thread sleeps in P; the thread it forked raises the semaphore, finishes
-- and is deleted when the main thread runs again.
theorem finished_recorded_deleted : ∃ c, sleepAndReturn = .ok c ∧ .deleted true ∈ c.log ∧ Recorded c := by
  have found : (sleepAndReturn.toOption.map fun c => decide (.deleted true ∈ c.log ∧ Spaced false c.log)) = some true := by
    decide +kernel
  cases ran : sleepAndReturn with
  | error fault => simp [ran,Except.toOption] at found
  | ok c =>
    simp only [ran,Except.toOption,Option.map_some,Option.some.injEq,decide_eq_true_eq] at found
    exact ⟨c,rfl,found.1,(finished_recorded (steps_reached .initial ran)).1.mpr found.2⟩

-- The main thread forks two threads and sleeps in P. Each of them finishes in its
-- first turn.
def finishTwice : Except Fault (Cpu Nat Unit Unit Unit) :=
  (initial 0 fun _ => 0).steps <|
    Choice.call (.fork 1) :: List.replicate 4 Choice.go ++ Choice.call (.fork 2) :: List.replicate 4 Choice.go ++
      Choice.call (.p ()) :: List.replicate 7 Choice.go ++ Choice.call .finish :: List.replicate 5 Choice.go ++
      [Choice.call .finish]

-- The second Finish overwrites the first thread, which has left the CPU and is not
-- deleted.
theorem finished_overwritten : ∃ c : Cpu Nat Unit Unit Unit, Reached 0 (fun _ => 0) c ∧ .finished 1 ∈ c.log ∧
    1 ≠ c.currentThread ∧ .deleted 1 ∉ c.log ∧ c.threadToBeDestroyed = some 2 ∧ ¬Recorded c := by
  have found : (finishTwice.toOption.map fun c => decide (.finished 1 ∈ c.log ∧ 1 ≠ c.currentThread ∧
      .deleted 1 ∉ c.log ∧ c.threadToBeDestroyed = some 2)) = some true := by decide +kernel
  cases ran : finishTwice with
  | error fault => simp [ran,Except.toOption] at found
  | ok c =>
    simp only [ran,Except.toOption,Option.map_some,Option.some.injEq,decide_eq_true_eq] at found
    obtain ⟨finished,left,alive,overwritten⟩ := found
    refine ⟨c,steps_reached .initial ran,finished,left,alive,overwritten,?_⟩
    intro recorded
    have first := recorded 1 finished left alive
    rw [overwritten] at first
    cases first

end Nachos.Cpu
