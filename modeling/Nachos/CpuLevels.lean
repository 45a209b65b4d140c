import Nachos.Cpu
import Nachos.Library.Monitor

-- The interrupt level is one global, but every frame knows at which level it is
-- reached: the frames of a thread bring the level back to what its callers had.
namespace Nachos.Cpu
open Monitor

-- The frames can run from this level. A thread that was switched out goes on with
-- interrupts off.
def Balanced : IntStatus → List (Frame T L C S) → Prop
  | _,[] => True
  | level,.call operation :: rest => operation ≠ .finish ∧ Balanced level rest
  | level,.ret _ entry :: rest => level = entry ∧ Balanced level rest
  | level,.restore oldLevel :: rest => level = .IntOff ∧ Balanced oldLevel rest
  | level,.tick :: rest => level = .IntOn ∧ Balanced .IntOn rest
  | level,.root :: rest | level,.ticking :: rest => level = .IntOff ∧ Balanced .IntOn rest
  | level,.test _ :: rest | level,.sleep _ :: rest | level,.sleepLoop _ :: rest | level,.switched _ :: rest
  | level,.idle :: rest | level,.idling :: rest => level = .IntOff ∧ Balanced .IntOff rest

-- What stands in a handler: Vs, entered and left with interrupts off.
def Frame.Handles : Frame T L C S → Prop
  | .call (.v _) | .ret (.v _) .IntOff | .restore .IntOff => True
  | _ => False

-- What the log says about the level: a return at the level of the entry, and a
-- context switch with interrupts off.
def Event.Leveled : Event T L C S → Prop
  | .returned _ _ entry level => level = entry
  | .dispatched _ level => level = .IntOff
  | _ => True

structure Leveled (c : Cpu T L C S) : Prop where
  handling : c.inHandler = true → c.level = .IntOff ∧ ∀ frame ∈ c.handler, frame.Handles
  current : Balanced c.level (c.stack c.currentThread)
  others : ∀ t, t ≠ c.currentThread → Balanced .IntOff (c.stack t)
  logged : ∀ e ∈ c.log, e.Leveled

section
variable [DecidableEq T] [DecidableEq L] [DecidableEq C] [DecidableEq S] {c after : Cpu T L C S}

omit [DecidableEq L] [DecidableEq C] [DecidableEq S] in
theorem readyToRun_fields (c : Cpu T L C S) (thread : Option T) :
    (c.readyToRun thread).level = c.level ∧ (c.readyToRun thread).inHandler = c.inHandler ∧
      (c.readyToRun thread).handler = c.handler ∧ (c.readyToRun thread).stack = c.stack ∧
      (c.readyToRun thread).currentThread = c.currentThread := by
  cases thread <;> exact ⟨rfl,rfl,rfl,rfl,rfl⟩

omit [DecidableEq L] [DecidableEq C] [DecidableEq S] in
theorem readyToRun_leveled (logged : ∀ e ∈ c.log, e.Leveled) (thread : Option T) :
    ∀ e ∈ (c.readyToRun thread).log, e.Leveled := by
  cases thread with
  | none => exact logged
  | some t => simpa [readyToRun,Event.Leveled] using logged

-- What an operation does to the level, the frames and the log.
structure Steady (c after : Cpu T L C S) : Prop where
  level : after.level = c.level
  inHandler : after.inHandler = c.inHandler
  handler : after.handler = c.handler
  logged : (∀ e ∈ c.log, e.Leveled) → ∀ e ∈ after.log, e.Leveled
  stack : ∀ t, after.stack t = c.stack t ∨ after.stack t = [.root]
  thread : after.currentThread ≠ c.currentThread → after.level = .IntOff

omit [DecidableEq L] [DecidableEq C] [DecidableEq S] in
theorem readyToRun_steady {c' : Cpu T L C S} (level : c'.level = c.level) (inHandler : c'.inHandler = c.inHandler)
    (handler : c'.handler = c.handler) (log : c'.log = c.log)
    (stack : ∀ t, c'.stack t = c.stack t ∨ c'.stack t = [.root]) (thread : c'.currentThread = c.currentThread)
    (woken : Option T) : Steady c (c'.readyToRun woken) := by
  obtain ⟨a,b,d,e,f⟩ := readyToRun_fields c' woken
  refine ⟨a.trans level,b.trans inHandler,d.trans handler,?_,?_,fun moved => absurd (f.trans thread) moved⟩
  · intro logged
    exact readyToRun_leveled (by rwa [log]) woken
  · intro t
    rw [e]
    exact stack t

theorem body_steady (off : c.level = .IntOff) (operation : Operation T L C S) : Steady c (c.body operation).1 := by
  have still : ∀ t, c.stack t = c.stack t ∨ c.stack t = [.root] := fun t => .inl rfl
  cases operation with
  | p s => exact ⟨rfl,rfl,rfl,id,still,fun moved => absurd rfl moved⟩
  | v s =>
    simp only [body]
    apply readyToRun_steady <;> first | rfl | exact still
  | acquire l => exact ⟨rfl,rfl,rfl,id,still,fun moved => absurd rfl moved⟩
  | release l =>
    simp only [body]
    apply readyToRun_steady <;> first | rfl | exact still
  | wait d conditionLock =>
    simp only [body]
    split <;> exact ⟨rfl,rfl,rfl,id,still,fun moved => absurd rfl moved⟩
  | signal d conditionLock =>
    simp only [body]
    apply readyToRun_steady <;> first | rfl | exact still
  | fork thread =>
    simp only [body]
    apply readyToRun_steady <;> try rfl
    intro t
    by_cases same : t = thread
    · subst same; simp
    · simp [same]
  | yield =>
    simp only [body]
    split
    · exact ⟨rfl,rfl,rfl,id,still,fun moved => absurd rfl moved⟩
    · refine ⟨rfl,rfl,rfl,?_,still,fun _ => off⟩
      intro logged
      simpa [run,readyToRun,Event.Leveled,off] using logged
  | finish =>
    refine ⟨rfl,rfl,rfl,?_,still,fun moved => absurd rfl moved⟩
    intro logged
    simpa [body,Event.Leveled] using logged

theorem body_balanced (c : Cpu T L C S) (operation : Operation T L C S) (rest : Balanced .IntOff tail) :
    Balanced .IntOff ((c.body operation).2 ++ tail) := by
  cases operation with
  | p s => exact ⟨rfl,rest⟩
  | v s | release l | signal d conditionLock | fork thread => exact rest
  | acquire l =>
    simp only [body]
    split
    · exact ⟨rfl,rest⟩
    · exact rest
  | wait d conditionLock =>
    simp only [body]
    split
    · exact rest
    · exact ⟨by simp,rfl,by simp,rest⟩
  | yield =>
    simp only [body]
    split
    · exact rest
    · exact ⟨rfl,rest⟩
  | finish => exact ⟨rfl,rest⟩

-- One frame, or one call from a thread's own code, against the level.
structure Keeps (c : Cpu T L C S) (rest : List (Frame T L C S)) (after : Cpu T L C S)
    (pushed : List (Frame T L C S)) : Prop where
  balanced : Balanced after.level (pushed ++ rest)
  handling : after.inHandler = true → after.level = .IntOff ∧ ∀ frame ∈ after.handler, frame.Handles
  logged : (∀ e ∈ c.log, e.Leveled) → ∀ e ∈ after.log, e.Leveled
  stack : ∀ t, after.stack t = c.stack t ∨ after.stack t = [.root]
  thread : after.currentThread ≠ c.currentThread → after.level = .IntOff

theorem enter_keeps (outside : c.inHandler = false) (rest : Balanced c.level tail)
    (ends : operation = .finish → tail = []) : Keeps c tail (c.enter operation).1 (c.enter operation).2 := by
  have steady := body_steady (c := {c with level := .IntOff}) rfl operation
  refine ⟨?_,?_,steady.logged,steady.stack,fun _ => steady.level⟩
  · simp only [enter]
    rw [steady.level,List.append_assoc]
    refine body_balanced _ operation ?_
    cases operation with
    | finish =>
      rw [ends rfl]
      trivial
    | p | v | acquire | release | wait | signal | fork | yield => exact ⟨rfl,rfl,rest⟩
  · intro inside
    simp only [enter,steady.inHandler] at inside
    simp [outside] at inside

omit [DecidableEq T] [DecidableEq L] [DecidableEq C] [DecidableEq S] in
theorem setLevel_keeps (outside : c.inHandler = false) (rest : Balanced now tail)
    (changed : c.setLevel now = .ok (after,pushed)) : Keeps c tail after pushed := by
  unfold setLevel at changed
  split at changed
  · cases changed
    refine ⟨?_,?_,id,fun t => .inl rfl,fun moved => absurd rfl moved⟩
    · dsimp only
      split
      · rename_i raised
        obtain ⟨rfl,_⟩ := raised
        exact ⟨rfl,rest⟩
      · exact rest
    · intro inside
      simp [outside] at inside
  · cases changed

-- The handler that CheckIfDue calls.
omit [DecidableEq T] [DecidableEq L] [DecidableEq C] [DecidableEq S] in
theorem fire_keeps (off : c.level = .IntOff) (raises : List S) (yields : Bool) (rest : Balanced .IntOff (pushed ++ tail)) :
    Keeps c tail (c.fire raises yields) pushed := by
  refine ⟨?_,?_,id,fun t => .inl rfl,fun moved => absurd rfl moved⟩
  · rwa [show (c.fire raises yields).level = .IntOff from off]
  · intro _
    refine ⟨off,?_⟩
    intro frame member
    obtain ⟨s,_,rfl⟩ := List.mem_map.mp member
    trivial

-- A step that changes neither the level nor who runs.
omit [DecidableEq T] [DecidableEq L] [DecidableEq C] [DecidableEq S] in
theorem calm_keeps (outside : c.inHandler = false) (level : after.level = c.level) (inHandler : after.inHandler = c.inHandler)
    (stack : after.stack = c.stack) (thread : after.currentThread = c.currentThread)
    (logged : (∀ e ∈ c.log, e.Leveled) → ∀ e ∈ after.log, e.Leveled) (rest : Balanced c.level (pushed ++ tail)) :
    Keeps c tail after pushed := by
  refine ⟨level ▸ rest,?_,logged,fun t => .inl (by rw [stack]),fun moved => absurd thread moved⟩
  intro inside
  rw [inHandler,outside] at inside
  cases inside

theorem exec_keeps (outside : c.inHandler = false) (balanced : Balanced c.level (frame :: rest))
    (executed : c.exec choice frame = .ok (after,pushed)) : Keeps c rest after pushed := by
  cases frame with
  | call operation =>
    cases executed
    exact enter_keeps outside balanced.2 fun finish => absurd finish balanced.1
  | restore oldLevel => exact setLevel_keeps outside balanced.2 executed
  | ret operation entry =>
    cases executed
    refine calm_keeps outside rfl rfl rfl rfl ?_ balanced.2
    intro logged
    simpa [Event.Leveled,balanced.1] using logged
  | test s =>
    obtain ⟨off,later⟩ := balanced
    cases executed
    refine calm_keeps outside rfl rfl rfl rfl id ?_
    rw [off]
    split
    · exact ⟨rfl,rfl,later⟩
    · exact later
  | sleep reason =>
    obtain ⟨off,later⟩ := balanced
    simp only [exec,off,if_true] at executed
    cases executed
    exact calm_keeps outside off.symm rfl rfl rfl id ⟨off,later⟩
  | sleepLoop reason =>
    obtain ⟨off,later⟩ := balanced
    simp only [exec] at executed
    split at executed
    · cases executed
      exact calm_keeps outside rfl rfl rfl rfl id ⟨off,rfl,later⟩
    · cases executed
      refine ⟨⟨off,later⟩,?_,?_,fun t => .inl rfl,fun _ => off⟩
      · intro inside
        simp [run,outside] at inside
      · intro logged
        simpa [run,Event.Leveled,off] using logged
  | switched reason =>
    obtain ⟨off,later⟩ := balanced
    simp only [exec] at executed
    split at executed
    · cases executed
      refine calm_keeps outside rfl rfl rfl rfl ?_ (off ▸ later)
      intro logged
      simpa [Event.Leveled] using logged
    · split at executed
      · cases executed
      · cases executed
        refine calm_keeps outside rfl rfl rfl rfl ?_ (off ▸ later)
        intro logged
        simpa [Event.Leveled] using logged
  | root => exact setLevel_keeps outside balanced.2 executed
  | tick =>
    cases executed
    refine ⟨⟨rfl,balanced.2⟩,?_,id,fun t => .inl rfl,fun moved => absurd rfl moved⟩
    intro inside
    simp [outside] at inside
  | ticking =>
    obtain ⟨off,later⟩ := balanced
    simp only [exec,off,ne_eq,not_true,if_false] at executed
    split at executed
    · cases executed
      exact fire_keeps off _ _ ⟨rfl,later⟩
    · cases executed
      refine ⟨?_,?_,id,fun t => .inl rfl,fun moved => absurd rfl moved⟩
      · dsimp only
        split
        · exact ⟨by simp,later⟩
        · exact later
      · intro inside
        simp [outside] at inside
  | idle =>
    obtain ⟨off,later⟩ := balanced
    simp only [exec,off,ne_eq,not_true,if_false] at executed
    split at executed
    · cases executed
      exact fire_keeps off _ _ ⟨rfl,later⟩
    · cases executed
      exact calm_keeps outside off.symm rfl rfl rfl id ⟨off,later⟩
  | idling =>
    obtain ⟨off,later⟩ := balanced
    simp only [exec,off,ne_eq,not_true,if_false] at executed
    split at executed
    · cases executed
      exact fire_keeps off _ _ ⟨rfl,later⟩
    · cases executed
      exact calm_keeps outside off.symm rfl rfl rfl id (off ▸ later)

theorem own_keeps (outside : c.inHandler = false) (executed : c.own choice = .ok (after,pushed)) :
    Keeps c [] after pushed := by
  have stays : Keeps c [] c [] := calm_keeps outside rfl rfl rfl rfl id trivial
  cases choice with
  | call operation =>
    have entered : Keeps c [] (c.enter operation).1 (c.enter operation).2 := enter_keeps outside trivial fun _ => rfl
    cases operation with
    | fork thread =>
      simp only [own] at executed
      split at executed <;> cases executed
      · exact entered
      · exact stays
    | p | v | acquire | release | wait | signal | yield | finish =>
      cases executed
      exact entered
  | setLevel now => exact setLevel_keeps outside trivial executed
  | oneTick =>
    cases executed
    refine calm_keeps outside rfl rfl rfl rfl id ?_
    split
    · rename_i on
      exact ⟨on,trivial⟩
    · trivial
  | fire | go =>
    cases executed
    exact stays

-- The new stacks: the frames went to the thread that ran, and the thread that runs
-- now was switched out, forked or is the same.
omit [DecidableEq L] [DecidableEq C] [DecidableEq S] in
theorem Keeps.leveled (keeps : Keeps c rest after pushed) (leveled : Leveled c) :
    Leveled {after with stack := Function.update after.stack c.currentThread (pushed ++ rest)} := by
  have others : ∀ t, t ≠ c.currentThread → Balanced .IntOff (after.stack t) := by
    intro t other
    rcases keeps.stack t with same | forked
    · rw [same]
      exact leveled.others t other
    · rw [forked]
      exact ⟨rfl,trivial⟩
  refine ⟨keeps.handling,?_,?_,keeps.logged leveled.logged⟩
  · by_cases same : after.currentThread = c.currentThread
    · simpa [same] using keeps.balanced
    · simp only [Function.update_of_ne same]
      rw [keeps.thread same]
      exact others _ same
  · intro t other
    by_cases same : t = c.currentThread
    · subst same
      have off := keeps.thread (Ne.symm other)
      simpa [off] using keeps.balanced
    · simpa [same] using others t same

-- A step inside a handler moves no thread.
structure Handled (c after : Cpu T L C S) (pushed : List (Frame T L C S)) : Prop where
  level : after.level = .IntOff
  pushes : ∀ frame ∈ pushed, frame.Handles
  logged : (∀ e ∈ c.log, e.Leveled) → ∀ e ∈ after.log, e.Leveled
  stack : after.stack = c.stack
  thread : after.currentThread = c.currentThread

theorem exec_handles (off : c.level = .IntOff) (handles : frame.Handles)
    (executed : c.exec choice frame = .ok (after,pushed)) : Handled c after pushed := by
  cases frame with
  | call operation =>
    cases operation with
    | v s =>
      cases executed
      have steady := body_steady (c := {c with level := .IntOff}) rfl (.v s)
      obtain ⟨_,_,_,stack,thread⟩ := readyToRun_fields
        {c with level := .IntOff, semaphore := Function.update c.semaphore s (c.semaphore s).v.1} (c.semaphore s).v.2
      refine ⟨steady.level,?_,steady.logged,stack,thread⟩
      simp [ending,off,Frame.Handles]
    | p | acquire | release | wait | signal | fork | yield | finish => cases handles
  | restore oldLevel =>
    cases oldLevel with
    | IntOff =>
      simp only [exec,setLevel,true_or,if_true] at executed
      cases executed
      refine ⟨rfl,?_,id,rfl,rfl⟩
      simp
    | IntOn => cases handles
  | ret operation entry =>
    cases operation with
    | v s =>
      cases entry with
      | IntOff =>
        cases executed
        refine ⟨off,by simp,?_,rfl,rfl⟩
        intro logged
        simpa [Event.Leveled,off] using logged
      | IntOn => cases handles
    | p | acquire | release | wait | signal | fork | yield | finish => cases handles
  | test | sleep | sleepLoop | switched | root | tick | ticking | idle | idling => cases handles

theorem step_leveled (leveled : Leveled c) (stepped : c.step choice = .ok after) : Leveled after := by
  unfold step at stepped
  split at stepped
  · cases stepped
    exact leveled
  · split at stepped
    · rename_i inside
      obtain ⟨off,handles⟩ := leveled.handling inside
      split at stepped
      · cases stepped
        exact ⟨by simp,leveled.current,leveled.others,leveled.logged⟩
      · rename_i frame rest handler
        obtain ⟨⟨middle,pushed⟩,executed,result⟩ := bind_ok stepped
        cases result
        obtain ⟨level,pushes,logged,stack,thread⟩ := exec_handles off (handles frame (by simp [handler])) executed
        refine ⟨?_,?_,?_,logged leveled.logged⟩
        · intro _
          refine ⟨level,?_⟩
          intro f member
          rcases List.mem_append.mp member with new | old
          · exact pushes f new
          · exact handles f (by simp [handler,old])
        · dsimp only
          rw [level,stack,thread,← off]
          exact leveled.current
        · intro t other
          dsimp only at other ⊢
          rw [stack]
          exact leveled.others t (by rwa [thread] at other)
    · rename_i outside
      have outside : c.inHandler = false := by simpa using outside
      split at stepped
      · rename_i empty
        obtain ⟨⟨middle,pushed⟩,executed,result⟩ := bind_ok stepped
        cases result
        simpa using (own_keeps outside executed).leveled leveled
      · rename_i frame rest frames
        obtain ⟨⟨middle,pushed⟩,executed,result⟩ := bind_ok stepped
        cases result
        have balanced := leveled.current
        rw [frames] at balanced
        exact (exec_keeps outside balanced executed).leveled leveled

omit [DecidableEq L] [DecidableEq C] [DecidableEq S] in
theorem initial_leveled (main : T) (initialValue : S → Int) :
    Leveled (initial main initialValue : Cpu T L C S) := by
  refine ⟨?_,trivial,fun t _ => trivial,?_⟩ <;> simp [initial]

theorem reached_leveled (reached : Reached main initialValue c) : Leveled c := by
  induction reached with
  | initial => exact initial_leveled _ _
  | step _ stepped ih => exact step_leveled ih stepped

theorem exec_safe (outside : c.inHandler = false) (balanced : Balanced c.level (frame :: rest))
    (failed : c.exec choice frame = .error fault) : fault = .deletesCurrent := by
  cases frame with
  | call | ret | test | tick => cases failed
  | restore oldLevel => simp [exec,setLevel,outside] at failed
  | root => simp [exec,setLevel,outside] at failed
  | sleep reason => simp [exec,balanced.1] at failed
  | sleepLoop reason =>
    simp only [exec] at failed
    split at failed <;> cases failed
  | switched reason =>
    simp only [exec] at failed
    split at failed
    · cases failed
    · split at failed <;> cases failed
      rfl
  | ticking | idle | idling =>
    simp only [exec,balanced.1,ne_eq,not_true,if_false] at failed
    split at failed <;> cases failed

theorem handler_safe (handles : frame.Handles) : c.exec choice frame ≠ .error fault := by
  cases frame with
  | call | ret => simp [exec]
  | restore oldLevel =>
    cases oldLevel with
    | IntOff => simp [exec,setLevel]
    | IntOn => cases handles
  | test | sleep | sleepLoop | switched | root | tick | ticking | idle | idling => cases handles

theorem own_safe (outside : c.inHandler = false) : c.own choice ≠ .error fault := by
  cases choice with
  | call operation =>
    cases operation with
    | fork thread =>
      simp only [own]
      split <;> simp
    | p | v | acquire | release | wait | signal | yield | finish => simp [own]
  | setLevel now => simp [own,setLevel,outside]
  | oneTick | fire | go => simp [own]

theorem bind_error {value : Except Fault α} {next : α → Except Fault β} (failed : value >>= next = .error fault) :
    value = .error fault ∨ ∃ produced, value = .ok produced ∧ next produced = .error fault := by
  cases value with
  | error found =>
    cases failed
    exact .inl rfl
  | ok produced => exact .inr ⟨produced,rfl,failed⟩

-- The one ASSERT that the levels do not exclude is that of ~Thread.
theorem step_safe (leveled : Leveled c) (failed : c.step choice = .error fault) : fault = .deletesCurrent := by
  unfold step at failed
  split at failed
  · cases failed
  · split at failed
    · rename_i inside
      obtain ⟨off,handles⟩ := leveled.handling inside
      split at failed
      · cases failed
      · rename_i frame rest handler
        rcases bind_error failed with first | ⟨_,_,last⟩
        · exact absurd first (handler_safe (handles frame (by simp [handler])))
        · cases last
    · rename_i outside
      have outside : c.inHandler = false := by simpa using outside
      split at failed
      · rcases bind_error failed with first | ⟨_,_,last⟩
        · exact absurd first (own_safe outside)
        · cases last
      · rename_i frame rest frames
        rcases bind_error failed with first | ⟨_,_,last⟩
        · have balanced := leveled.current
          rw [frames] at balanced
          exact exec_safe outside balanced first
        · cases last

theorem steps_reached (reached : Reached main initialValue c) (ran : c.steps choices = .ok after) :
    Reached main initialValue after := by
  induction choices generalizing c with
  | nil =>
    cases ran
    exact reached
  | cons choice later ih =>
    obtain ⟨middle,stepped,rest⟩ := bind_ok ran
    exact ih (reached.step stepped) rest

-- Every operation returns at the level it was entered with, every SWITCH happens
-- with interrupts off, and the ASSERTs about the level hold.
theorem interrupt_levels (reached : Reached main initialValue c) :
    (∀ t operation entry level, .returned t operation entry level ∈ c.log → level = entry) ∧
    (∀ t level, .dispatched t level ∈ c.log → level = .IntOff) ∧
    (∀ choice, c.step choice ≠ .error .setLevel ∧ c.step choice ≠ .error .sleep ∧
      c.step choice ≠ .error .checkIfDue) := by
  have leveled := reached_leveled reached
  refine ⟨?_,?_,?_⟩
  · intro t operation entry level member
    exact leveled.logged _ member
  · intro t level member
    exact leveled.logged _ member
  · intro choice
    refine ⟨?_,?_,?_⟩ <;> intro failed <;> cases step_safe leveled failed

end

-- The main thread sleeps in P with interrupts on; the thread it forked raises the
-- semaphore and finishes, and P returns with interrupts on again.
def sleepAndReturn : Except Fault (Cpu Bool Unit Unit Unit) :=
  (initial false fun _ => 0).steps <|
    Choice.call (.fork true) :: List.replicate 4 Choice.go ++ Choice.call (.p ()) :: List.replicate 7 Choice.go ++
      Choice.call (.v ()) :: List.replicate 4 Choice.go ++ Choice.call .finish :: List.replicate 8 Choice.go

theorem interrupt_levels_sleeping : ∃ c, sleepAndReturn = .ok c ∧
    .returned false (.p ()) .IntOn .IntOn ∈ c.log ∧ .dispatched true .IntOff ∈ c.log ∧
    ∀ choice, c.step choice ≠ .error .sleep := by
  have found : (sleepAndReturn.toOption.map fun c => decide
      (.returned false (.p ()) .IntOn .IntOn ∈ c.log ∧ .dispatched true .IntOff ∈ c.log)) = some true := by decide +kernel
  cases ran : sleepAndReturn with
  | error fault => simp [ran,Except.toOption] at found
  | ok c =>
    simp only [ran,Except.toOption,Option.map_some,Option.some.injEq,decide_eq_true_eq] at found
    have levels := interrupt_levels (steps_reached .initial ran)
    exact ⟨c,rfl,found.1,found.2,fun choice => (levels.2.2 choice).2.1⟩

end Nachos.Cpu
