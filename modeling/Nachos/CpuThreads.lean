import Nachos.CpuLevels
import Mathlib.Data.List.Basic

-- What a step of the CPU does to the threads: which queue each is on, its status,
-- and the frames that say it is about to sleep.
namespace Nachos.Cpu
open Monitor

section
variable {T L C S : Type}

-- Frames other than those of Sleep before its SWITCH.
def Frame.calm : Frame T L C S → Bool
  | .sleep _ | .sleepLoop _ => false
  | _ => true

def Clear (frames : List (Frame T L C S)) : Prop := ∀ frame ∈ frames, frame.calm = true

-- The operation may give up the CPU.
def Operation.gives : Operation T L C S → Bool
  | .p _ | .acquire _ | .wait _ _ | .yield | .finish => true
  | .v _ | .release _ | .signal _ _ | .fork _ => false

-- The queue from which the operation takes a thread.
def Operation.pops : Operation T L C S → Option (Bed L C S)
  | .v s => some (.semaphore s)
  | .release l => some (.lock l)
  | .signal d _ => some (.condition d)
  | .p _ | .acquire _ | .wait _ _ | .yield | .finish | .fork _ => none

-- A thread is about to sleep in at most one place, and only Release stands before it.
def Tidy : List (Frame T L C S) → Prop
  | [] => True
  | .call operation :: rest => (operation.gives = true → Clear rest) ∧
      (∀ bed, operation.pops = some bed → .sleep (.waits bed) ∉ rest) ∧ (∀ thread, operation ≠ .fork thread) ∧ Tidy rest
  | .test _ :: rest | .sleep _ :: rest | .sleepLoop _ :: rest | .switched _ :: rest => Clear rest ∧ Tidy rest
  | .idle :: rest | .idling :: rest => (∃ reason later, rest = .sleepLoop reason :: later) ∧ Tidy rest
  | .restore _ :: rest | .ret _ _ :: rest | .root :: rest | .tick :: rest | .ticking :: rest => Tidy rest

structure Orderly (c : Cpu T L C S) : Prop where
  current : Tidy (c.stack c.currentThread)
  others : ∀ t, t ≠ c.currentThread → Clear (c.stack t) ∧ Tidy (c.stack t)
  handled : c.inHandler = true → ∀ reason, .sleep reason ∉ c.stack c.currentThread

-- What of the state the conservation of threads is about.
@[ext] structure View (T L C S : Type) where
  currentThread : T
  readyList : List T
  status : T → CpuStatus
  queue : Bed L C S → List T
  stack : T → List (Frame T L C S)
  finished : List T
  enqueued : List T
  dispatched : List T

def queue (c : Cpu T L C S) : Bed L C S → List T
  | .lock l => (c.lock l).waitQueue
  | .condition d => (c.condition d).waitQueue
  | .semaphore s => (c.semaphore s).queue

-- Newest first.
def finishedOf (log : List (Event T L C S)) : List T :=
  log.filterMap fun
    | .finished t => some t
    | _ => none

-- Oldest first.
def enqueuedOf (log : List (Event T L C S)) : List T :=
  log.reverse.filterMap fun
    | .enqueued t => some t
    | _ => none

def dispatchedOf (log : List (Event T L C S)) : List T :=
  log.reverse.filterMap fun
    | .dispatched t _ => some t
    | _ => none

def view (c : Cpu T L C S) : View T L C S :=
  ⟨c.currentThread,c.readyList,c.status,c.queue,c.stack,finishedOf c.log,enqueuedOf c.log,dispatchedOf c.log⟩

-- The same Sleeps are under way in both.
def SameSleeps (old new : List (Frame T L C S)) : Prop :=
  ∀ reason, (.sleep reason ∈ new ↔ .sleep reason ∈ old) ∧ (.sleepLoop reason ∈ new ↔ .sleepLoop reason ∈ old)

-- The running thread's frames are replaced.
def View.frames [DecidableEq T] (v : View T L C S) (frames : List (Frame T L C S)) : View T L C S :=
  {v with stack := Function.update v.stack v.currentThread frames}

section
variable [DecidableEq T] (v : View T L C S) (frames : List (Frame T L C S))

@[simp] theorem View.frames_currentThread : (v.frames frames).currentThread = v.currentThread := rfl
@[simp] theorem View.frames_readyList : (v.frames frames).readyList = v.readyList := rfl
@[simp] theorem View.frames_status : (v.frames frames).status = v.status := rfl
@[simp] theorem View.frames_queue : (v.frames frames).queue = v.queue := rfl
@[simp] theorem View.frames_finished : (v.frames frames).finished = v.finished := rfl
@[simp] theorem View.frames_enqueued : (v.frames frames).enqueued = v.enqueued := rfl
@[simp] theorem View.frames_dispatched : (v.frames frames).dispatched = v.dispatched := rfl
@[simp] theorem View.frames_top : (v.frames frames).stack v.currentThread = frames := Function.update_self _ _ _
end

-- What a step can do to the threads.
inductive Turn [DecidableEq T] [DecidableEq L] [DecidableEq C] [DecidableEq S] (v : View T L C S) :
    View T L C S → Prop where
  | still : SameSleeps (v.stack v.currentThread) frames → Turn v (v.frames frames)
  | joins : Clear (v.stack v.currentThread) →
      (∀ reason, (.sleep reason ∈ frames ↔ reason = .waits bed) ∧ .sleepLoop reason ∉ frames) →
      Turn v {v.frames frames with queue := Function.update v.queue bed (v.queue bed ++ [v.currentThread])}
  | wakes : v.queue bed = t :: rest → .sleep (.waits bed) ∉ v.stack v.currentThread →
      SameSleeps (v.stack v.currentThread) frames →
      Turn v {v.frames frames with
        queue := Function.update v.queue bed rest
        status := Function.update v.status t .READY
        readyList := v.readyList ++ [t]
        enqueued := v.enqueued ++ [t]}
  | forks : v.status t = .JUST_CREATED → Clear (v.stack v.currentThread) → Clear frames →
      Turn v {v with
        stack := Function.update (Function.update v.stack t [.root]) v.currentThread frames
        status := Function.update v.status t .READY
        readyList := v.readyList ++ [t]
        enqueued := v.enqueued ++ [t]}
  | sleeps : v.stack v.currentThread = .sleep reason :: rest → Clear rest →
      Turn v {v.frames (.sleepLoop reason :: rest) with
        status := Function.update v.status v.currentThread .BLOCKED}
  | runs : v.stack v.currentThread = .sleepLoop reason :: rest → Clear rest → v.readyList = next :: later →
      Turn v {v.frames (.switched reason :: rest) with
        currentThread := next
        status := Function.update v.status next .RUNNING
        readyList := later
        dispatched := v.dispatched ++ [next]}
  | yields : Clear (v.stack v.currentThread) → Clear frames → v.readyList = next :: later →
      Turn v {v.frames frames with
        currentThread := next
        status := Function.update (Function.update v.status v.currentThread .READY) next .RUNNING
        readyList := later ++ [v.currentThread]
        enqueued := v.enqueued ++ [v.currentThread]
        dispatched := v.dispatched ++ [next]}
  | finishes : Clear (v.stack v.currentThread) →
      Turn v {v.frames [.sleep .finishes] with finished := v.currentThread :: v.finished}

theorem clear_sleeps {frames : List (Frame T L C S)} (clear : Clear frames) (reason : Reason L C S) :
    .sleep reason ∉ frames ∧ .sleepLoop reason ∉ frames := by
  constructor
  · intro member
    have calm := clear _ member
    simp [Frame.calm] at calm
  · intro member
    have calm := clear _ member
    simp [Frame.calm] at calm

theorem clear_cons {frame : Frame T L C S} {rest : List (Frame T L C S)} :
    Clear (frame :: rest) ↔ frame.calm = true ∧ Clear rest := by
  simp [Clear]

theorem clear_append {front rest : List (Frame T L C S)} : Clear (front ++ rest) ↔ Clear front ∧ Clear rest := by
  constructor
  · exact fun clear => ⟨fun f member => clear f (by simp [member]),fun f member => clear f (by simp [member])⟩
  · rintro ⟨one,two⟩ f member
    rcases List.mem_append.mp member with here | here
    · exact one f here
    · exact two f here

theorem sameSleeps_clear {old new : List (Frame T L C S)} (before : Clear old) (after : Clear new) :
    SameSleeps old new := by
  intro reason
  have none_ := clear_sleeps before reason
  have none' := clear_sleeps after reason
  simp [none_,none']

theorem sameSleeps_refl (frames : List (Frame T L C S)) : SameSleeps frames frames := fun _ => ⟨Iff.rfl,Iff.rfl⟩

-- Frames that are not those of Sleep come and go in front of the rest.
theorem sameSleeps_front (front : List (Frame T L C S)) {new : List (Frame T L C S)} (before : Clear front) (after : Clear new)
    (rest : List (Frame T L C S)) : SameSleeps (front ++ rest) (new ++ rest) := by
  intro reason
  have none_ := clear_sleeps before reason
  have none' := clear_sleeps after reason
  simp [none_,none']

-- At a level with interrupts on there is nothing of Sleep below.
theorem balanced_clear {frames : List (Frame T L C S)} (balanced : Balanced .IntOn frames) : Clear frames := by
  induction frames with
  | nil => simp [Clear]
  | cons frame rest ih =>
    cases frame with
    | call operation => exact clear_cons.mpr ⟨rfl,ih balanced.2⟩
    | ret operation entry => exact clear_cons.mpr ⟨rfl,ih balanced.2⟩
    | tick => exact clear_cons.mpr ⟨rfl,ih balanced.2⟩
    | restore | test | sleep | sleepLoop | switched | root | ticking | idle | idling =>
      exact absurd balanced.1 (by simp)

end

section
variable [DecidableEq T] [DecidableEq L] [DecidableEq C] [DecidableEq S] {c : Cpu T L C S}

omit [DecidableEq T] in
theorem queue_lock (c : Cpu T L C S) (l : L) (lock : Lock T) :
    queue {c with lock := Function.update c.lock l lock} = Function.update c.queue (.lock l) lock.waitQueue := by
  funext bed
  cases bed with
  | lock m =>
    by_cases same : m = l
    · subst same; simp [queue]
    · simp [queue,same]
  | condition | semaphore => simp [queue]

omit [DecidableEq T] in
theorem queue_condition (c : Cpu T L C S) (d : C) (condition : Condition T L) :
    queue {c with condition := Function.update c.condition d condition} =
      Function.update c.queue (.condition d) condition.waitQueue := by
  funext bed
  cases bed with
  | condition m =>
    by_cases same : m = d
    · subst same; simp [queue]
    · simp [queue,same]
  | lock | semaphore => simp [queue]

omit [DecidableEq T] in
theorem queue_semaphore (c : Cpu T L C S) (s : S) (semaphore : Semaphore T) :
    queue {c with semaphore := Function.update c.semaphore s semaphore} =
      Function.update c.queue (.semaphore s) semaphore.queue := by
  funext bed
  cases bed with
  | semaphore m =>
    by_cases same : m = s
    · subst same; simp [queue]
    · simp [queue,same]
  | lock | condition => simp [queue]

-- A change of one queue, and of nothing else the view shows.
theorem view_queue {c' : Cpu T L C S} (changed : c'.queue = Function.update c.queue bed threads)
    (thread : c'.currentThread = c.currentThread) (ready : c'.readyList = c.readyList) (status : c'.status = c.status)
    (stack : c'.stack = c.stack) (log : c'.log = c.log) (frames : List (Frame T L C S)) :
    view {c' with stack := Function.update c'.stack c.currentThread frames} =
      {c.view.frames frames with queue := Function.update c.view.queue bed threads} := by
  have queues : queue {c' with stack := Function.update c'.stack c.currentThread frames} = c'.queue := by
    funext bed; cases bed <;> rfl
  refine View.ext thread ready status (queues.trans changed) ?_ ?_ ?_ ?_ <;> simp only [view,View.frames,stack,log]

-- The same, with a thread made ready.
theorem view_woken {c' : Cpu T L C S} (changed : c'.queue = Function.update c.queue bed threads)
    (thread : c'.currentThread = c.currentThread) (ready : c'.readyList = c.readyList) (status : c'.status = c.status)
    (stack : c'.stack = c.stack) (log : c'.log = c.log) (t : T) (frames : List (Frame T L C S)) :
    view {c'.readyToRun (some t) with stack := Function.update (c'.readyToRun (some t)).stack c.currentThread frames} =
      {c.view.frames frames with
        queue := Function.update c.view.queue bed threads
        status := Function.update c.view.status t .READY
        readyList := c.view.readyList ++ [t]
        enqueued := c.view.enqueued ++ [t]} := by
  have queues : queue {c'.readyToRun (some t) with
      stack := Function.update (c'.readyToRun (some t)).stack c.currentThread frames} = c'.queue := by
    funext bed; cases bed <;> rfl
  refine View.ext thread ?_ ?_ (queues.trans changed) ?_ ?_ ?_ ?_
  · simp only [view,readyToRun,ready]
  · simp only [view,readyToRun,status]
  · simp only [view,View.frames,readyToRun,stack]
  · simp [view,View.frames,readyToRun,log,finishedOf]
  · simp [view,readyToRun,log,enqueuedOf]
  · simp [view,View.frames,readyToRun,log,dispatchedOf]

-- The queue loses its first thread, or is empty and stays so.
theorem pops_turn {c' : Cpu T L C S} {bed : Bed L C S} (changed : c'.queue = Function.update c.queue bed threads)
    (thread : c'.currentThread = c.currentThread) (ready : c'.readyList = c.readyList) (status : c'.status = c.status)
    (stack : c'.stack = c.stack) (log : c'.log = c.log)
    (popped : (woken = none ∧ threads = c.queue bed) ∨ (∃ t, woken = some t ∧ c.queue bed = t :: threads))
    (awake : .sleep (.waits bed) ∉ c.stack c.currentThread) (same : SameSleeps (c.stack c.currentThread) frames) :
    Turn c.view (view {c'.readyToRun woken with
      stack := Function.update (c'.readyToRun woken).stack c.currentThread frames}) := by
  rcases popped with ⟨rfl,rfl⟩ | ⟨t,rfl,queued⟩
  · have equal := view_queue changed thread ready status stack log frames
    have still : Function.update c.view.queue bed (c.queue bed) = c.view.queue := Function.update_eq_self _ _
    simp only [readyToRun]
    rw [equal,still]
    exact .still same
  · rw [view_woken changed thread ready status stack log t frames]
    exact .wakes queued awake same

theorem release_pops (lock : Lock T) (t : T) :
    ((lock.release t).2.1 = none ∧ (lock.release t).1.waitQueue = lock.waitQueue) ∨
      ∃ u, (lock.release t).2.1 = some u ∧ lock.waitQueue = u :: (lock.release t).1.waitQueue := by
  by_cases held : lock.ownerThread = some t
  · cases waiting : lock.waitQueue with
    | nil => exact .inl (by simp [Lock.release_freed held waiting,waiting])
    | cons u rest => exact .inr ⟨u,by simp [Lock.release_handed held waiting]⟩
  · exact .inl (by simp [Lock.release_refused held])

omit [DecidableEq T] in
theorem signal_pops (condition : Condition T L) (conditionLock : Option L) :
    ((condition.signal conditionLock).2.1 = none ∧ (condition.signal conditionLock).1.waitQueue = condition.waitQueue) ∨
      ∃ u, (condition.signal conditionLock).2.1 = some u ∧
        condition.waitQueue = u :: (condition.signal conditionLock).1.waitQueue := by
  cases waiting : condition.waitQueue with
  | nil => exact .inl (by simp [Condition.signal_empty waiting,waiting])
  | cons u rest =>
    by_cases bound : condition.waitLock = conditionLock
    · exact .inr ⟨u,by simp [Condition.signal_wakes waiting bound]⟩
    · exact .inl (by simp [Condition.signal_mismatch waiting bound,waiting])

omit [DecidableEq T] in
theorem v_pops (semaphore : Semaphore T) :
    (semaphore.v.2 = none ∧ semaphore.v.1.queue = semaphore.queue) ∨
      ∃ u, semaphore.v.2 = some u ∧ semaphore.queue = u :: semaphore.v.1.queue := by
  cases waiting : semaphore.queue with
  | nil => exact .inl (by simp [Semaphore.v,waiting])
  | cons u rest => exact .inr ⟨u,by simp [Semaphore.v,waiting]⟩

theorem Turn.as {v w w' : View T L C S} (turn : Turn v w) (equal : w' = w) : Turn v w' := equal ▸ turn

-- A queue that stays as it is.
theorem quiet_turn {c' : Cpu T L C S} {bed : Bed L C S} (changed : c'.queue = Function.update c.queue bed threads)
    (thread : c'.currentThread = c.currentThread) (ready : c'.readyList = c.readyList) (status : c'.status = c.status)
    (stack : c'.stack = c.stack) (log : c'.log = c.log) (stays : threads = c.queue bed)
    (same : SameSleeps (c.stack c.currentThread) frames) :
    Turn c.view (view {c' with stack := Function.update c'.stack c.currentThread frames}) := by
  have equal := view_queue changed thread ready status stack log frames
  have still : Function.update c.view.queue bed threads = c.view.queue := by
    rw [stays]
    exact Function.update_eq_self _ _
  rw [equal,still]
  exact .still same

theorem joins_turn {c' : Cpu T L C S} {bed : Bed L C S} (changed : c'.queue = Function.update c.queue bed threads)
    (thread : c'.currentThread = c.currentThread) (ready : c'.readyList = c.readyList) (status : c'.status = c.status)
    (stack : c'.stack = c.stack) (log : c'.log = c.log) (joined : threads = c.queue bed ++ [c.currentThread])
    (clear : Clear (c.stack c.currentThread))
    (sleeps : ∀ reason, (.sleep reason ∈ frames ↔ reason = .waits bed) ∧ .sleepLoop reason ∉ frames) :
    Turn c.view (view {c' with stack := Function.update c'.stack c.currentThread frames}) := by
  rw [view_queue changed thread ready status stack log frames,joined]
  exact .joins clear sleeps

-- One frame of Sleep, and nothing of it after.
omit [DecidableEq T] [DecidableEq L] [DecidableEq C] [DecidableEq S] in
theorem sleeps_alone (front : List (Frame T L C S)) {tail : List (Frame T L C S)} (front_clear : Clear front) (clear : Clear tail)
    (bed : Bed L C S) (reason : Reason L C S) :
    (.sleep reason ∈ front ++ .sleep (.waits bed) :: tail ↔ reason = .waits bed) ∧
      .sleepLoop reason ∉ front ++ .sleep (.waits bed) :: tail := by
  have one := clear_sleeps front_clear reason
  have two := clear_sleeps clear reason
  simp [one,two]

theorem acquire_turn (l : L) (same : SameSleeps (c.stack c.currentThread) tail) (clear : Clear tail)
    (before : Clear (c.stack c.currentThread)) :
    Turn c.view (view {(c.body (.acquire l)).1 with
      stack := Function.update (c.body (.acquire l)).1.stack c.currentThread ((c.body (.acquire l)).2 ++ tail)}) := by
  have changed := queue_lock c l ((c.lock l).acquire c.currentThread).1
  simp only [body]
  by_cases held : (c.lock l).ownerThread = some c.currentThread
  · simp only [Lock.acquire_held held] at changed ⊢
    exact quiet_turn changed rfl rfl rfl rfl rfl rfl same
  · cases busy : (c.lock l).isBusy with
    | false =>
      simp only [Lock.acquire_free held busy] at changed ⊢
      exact quiet_turn changed rfl rfl rfl rfl rfl rfl same
    | true =>
      simp only [Lock.acquire_busy held busy] at changed ⊢
      refine joins_turn changed rfl rfl rfl rfl rfl rfl before ?_
      intro reason
      exact sleeps_alone [] (by simp [Clear]) clear _ reason

theorem wait_turn (d : C) (conditionLock : Option L) (same : SameSleeps (c.stack c.currentThread) tail)
    (clear : Clear tail) (before : Clear (c.stack c.currentThread)) :
    Turn c.view (view {(c.body (.wait d conditionLock)).1 with
      stack := Function.update (c.body (.wait d conditionLock)).1.stack c.currentThread
        ((c.body (.wait d conditionLock)).2 ++ tail)}) := by
  cases conditionLock with
  | none =>
    have changed := queue_condition c d (c.condition d)
    simp only [body,Condition.wait_null]
    exact quiet_turn changed rfl rfl rfl rfl rfl rfl same
  | some l =>
    by_cases bound : (c.condition d).waitLock = none ∨ (c.condition d).waitLock = some l
    · have changed := queue_condition c d ⟨some l,(c.condition d).waitQueue ++ [c.currentThread]⟩
      simp only [body,Condition.wait_enqueued bound]
      refine joins_turn changed rfl rfl rfl rfl rfl rfl before ?_
      intro reason
      refine sleeps_alone [.call (.release l)] ?_ ?_ _ reason
      · simp [Clear,Frame.calm]
      · exact clear_cons.mpr ⟨rfl,clear⟩
    · cases holder : (c.condition d).waitLock with
      | none => simp [holder] at bound
      | some other =>
        have differs : other ≠ l := by rintro rfl; simp [holder] at bound
        have changed := queue_condition c d (c.condition d)
        simp only [body,Condition.wait_mismatch holder differs]
        exact quiet_turn changed rfl rfl rfl rfl rfl rfl same

-- An operation after its SetLevel(IntOff).
theorem body_turn (tail : List (Frame T L C S)) (operation : Operation T L C S) (same : SameSleeps (c.stack c.currentThread) tail)
    (gives : operation.gives = true → Clear tail)
    (awake : ∀ bed, operation.pops = some bed → .sleep (.waits bed) ∉ c.stack c.currentThread)
    (forks : ∀ t, operation = .fork t → c.status t = .JUST_CREATED ∧ Clear tail)
    (ends : operation = .finish → tail = []) :
    Turn c.view (view {(c.body operation).1 with
      stack := Function.update (c.body operation).1.stack c.currentThread ((c.body operation).2 ++ tail)}) := by
  have before : Clear tail → Clear (c.stack c.currentThread) := by
    intro clear frame member
    cases frame with
    | sleep reason => exact absurd (((same reason).1).mpr member) (clear_sleeps clear reason).1
    | sleepLoop reason => exact absurd (((same reason).2).mpr member) (clear_sleeps clear reason).2
    | call | restore | ret | test | switched | root | tick | ticking | idle | idling => rfl
  cases operation with
  | p s =>
    refine .still ?_
    exact sameSleeps_clear (before (gives rfl)) (clear_cons.mpr ⟨rfl,gives rfl⟩)
  | v s =>
    simp only [body,List.nil_append]
    exact pops_turn (queue_semaphore c s (c.semaphore s).v.1) rfl rfl rfl rfl rfl (v_pops _) (awake _ rfl) same
  | acquire l => exact acquire_turn l same (gives rfl) (before (gives rfl))
  | release l =>
    simp only [body,List.nil_append]
    exact pops_turn (queue_lock c l ((c.lock l).release c.currentThread).1) rfl rfl rfl rfl rfl (release_pops _ _)
      (awake _ rfl) same
  | wait d conditionLock => exact wait_turn d conditionLock same (gives rfl) (before (gives rfl))
  | signal d conditionLock =>
    simp only [body,List.nil_append]
    exact pops_turn (queue_condition c d ((c.condition d).signal conditionLock).1) rfl rfl rfl rfl rfl (signal_pops _ _)
      (awake _ rfl) same
  | fork t =>
    obtain ⟨fresh,clear⟩ := forks t rfl
    have turn := Turn.forks (v := c.view) (t := t) fresh (before clear) clear
    refine turn.as (View.ext rfl rfl rfl rfl rfl rfl ?_ ?_)
    · simp [body,readyToRun,view,enqueuedOf]
    · simp [body,readyToRun,view,dispatchedOf]
  | yield =>
    simp only [body]
    split
    · exact .still same
    · rename_i next later ready
      have frames : Clear (Frame.switched .yields :: tail) := clear_cons.mpr ⟨rfl,gives rfl⟩
      have turn := Turn.yields (v := c.view) (before (gives rfl)) frames ready
      refine turn.as (View.ext rfl rfl rfl rfl rfl rfl ?_ ?_)
      · simp [run,readyToRun,view,enqueuedOf]
      · simp [run,readyToRun,view,dispatchedOf]
  | finish =>
    have clear := before (gives rfl)
    rw [ends rfl]
    refine (Turn.finishes (v := c.view) clear).as (View.ext rfl rfl rfl rfl rfl rfl ?_ ?_)
    · simp [body,view,View.frames,enqueuedOf]
    · simp [body,view,View.frames,dispatchedOf]

omit [DecidableEq T] [DecidableEq L] [DecidableEq C] [DecidableEq S] in
theorem ending_clear (operation : Operation T L C S) (level : IntStatus) : Clear (ending operation level) := by
  cases operation <;> simp [ending,Clear,Frame.calm]

omit [DecidableEq T] [DecidableEq L] [DecidableEq C] [DecidableEq S] in
theorem ending_tidy (operation : Operation T L C S) (level : IntStatus) (tidy : Tidy rest) :
    Tidy (ending operation level ++ rest) := by
  cases operation <;> simpa [ending,Tidy] using tidy

theorem enter_turn (operation : Operation T L C S) (same : SameSleeps (c.stack c.currentThread) rest)
    (gives : operation.gives = true → Clear rest)
    (awake : ∀ bed, operation.pops = some bed → .sleep (.waits bed) ∉ c.stack c.currentThread)
    (forks : ∀ t, operation = .fork t → c.status t = .JUST_CREATED ∧ Clear rest)
    (ends : operation = .finish → rest = []) :
    Turn c.view (view {(c.enter operation).1 with
      stack := Function.update (c.enter operation).1.stack c.currentThread ((c.enter operation).2 ++ rest)}) := by
  have clear : Clear rest → Clear (ending operation c.level ++ rest) :=
    fun clear => clear_append.mpr ⟨ending_clear _ _,clear⟩
  have turn := body_turn (c := {c with level := .IntOff}) (ending operation c.level ++ rest) operation ?_
    (fun given => clear (gives given)) awake (fun t fork => ⟨(forks t fork).1,clear (forks t fork).2⟩) ?_
  · simp only [enter,List.append_assoc]
    exact turn
  · intro reason
    have none_ := clear_sleeps (ending_clear operation c.level) reason
    obtain ⟨one,two⟩ := same reason
    simp [none_,one,two]
  · rintro rfl
    simp [ends rfl,ending]

theorem setLevel_turn (same : SameSleeps (c.stack c.currentThread) rest) (changed : c.setLevel now = .ok (after,pushed)) :
    Turn c.view (view {after with stack := Function.update after.stack c.currentThread (pushed ++ rest)}) := by
  unfold setLevel at changed
  split at changed
  · cases changed
    refine .still ?_
    change SameSleeps (c.stack c.currentThread) _
    split
    · intro reason
      obtain ⟨one,two⟩ := same reason
      simp [one,two]
    · exact same
  · cases changed

-- A frame that leaves the queues, the statuses and the ready list alone.
omit [DecidableEq T] [DecidableEq L] [DecidableEq C] [DecidableEq S] in
theorem still_turn {frame : Frame T L C S} (frames : c.stack c.currentThread = frame :: rest) (calm : frame.calm = true)
    (pushed : List (Frame T L C S)) (pushes : Clear pushed) : SameSleeps (c.stack c.currentThread) (pushed ++ rest) := by
  rw [frames]
  exact sameSleeps_front [frame] (by simpa [Clear] using calm) pushes rest

theorem test_turn (s : S) (frames : c.stack c.currentThread = .test s :: rest) (clear : Clear rest)
    (executed : c.exec choice (.test s) = .ok (after,pushed)) :
    Turn c.view (view {after with stack := Function.update after.stack c.currentThread (pushed ++ rest)}) := by
  have changed := queue_semaphore c s ((c.semaphore s).p c.currentThread).1
  by_cases empty : (c.semaphore s).value = 0
  · simp only [exec,Semaphore.p,empty,if_true] at changed executed
    cases executed
    refine joins_turn changed rfl rfl rfl rfl rfl rfl ?_ ?_
    · rw [frames]
      exact clear_cons.mpr ⟨rfl,clear⟩
    · intro reason
      exact sleeps_alone [] (by simp [Clear]) (clear_cons.mpr ⟨rfl,clear⟩) _ reason
  · simp only [exec,Semaphore.p,empty,if_false] at changed executed
    cases executed
    exact quiet_turn changed rfl rfl rfl rfl rfl rfl (still_turn frames rfl [] (by simp [Clear]))

theorem exec_turn {frame : Frame T L C S} (frames : c.stack c.currentThread = frame :: rest)
    (balanced : Balanced c.level (frame :: rest)) (tidy : Tidy (frame :: rest))
    (executed : c.exec choice frame = .ok (after,pushed)) :
    Turn c.view (view {after with stack := Function.update after.stack c.currentThread (pushed ++ rest)}) := by
  have clears : Clear ([] : List (Frame T L C S)) := by simp [Clear]
  cases frame with
  | call operation =>
    cases executed
    obtain ⟨gives,pops,forks,_⟩ := tidy
    refine enter_turn operation ?_ gives ?_ ?_ ?_
    · exact still_turn frames rfl [] clears
    · intro bed popped
      rw [frames]
      simpa using pops bed popped
    · exact fun t fork => absurd fork (forks t)
    · exact fun finish => absurd finish balanced.1
  | restore oldLevel => exact setLevel_turn (still_turn frames rfl [] clears) executed
  | root => exact setLevel_turn (still_turn frames rfl [] clears) executed
  | ret operation entry =>
    cases executed
    refine (Turn.still (still_turn frames rfl [] clears)).as (View.ext rfl rfl rfl rfl rfl rfl ?_ ?_)
    · simp [view,View.frames,enqueuedOf]
    · simp [view,View.frames,dispatchedOf]
  | test s => exact test_turn s frames tidy.1 executed
  | sleep reason =>
    simp only [exec] at executed
    split at executed <;> cases executed
    exact .sleeps frames tidy.1
  | sleepLoop reason =>
    simp only [exec] at executed
    split at executed
    · cases executed
      refine .still ?_
      intro reason'
      change (_ ∈ _ ↔ _ ∈ c.stack c.currentThread) ∧ (_ ∈ _ ↔ _ ∈ c.stack c.currentThread)
      simp [frames]
    · rename_i next later ready
      cases executed
      have turn := Turn.runs (v := c.view) frames tidy.1 ready
      refine turn.as (View.ext rfl rfl rfl rfl rfl rfl ?_ ?_)
      · simp [run,view,View.frames,enqueuedOf]
      · simp [run,view,dispatchedOf]
  | switched reason =>
    have turn := Turn.still (v := c.view) (still_turn frames rfl [] clears)
    simp only [exec] at executed
    split at executed
    · cases executed
      refine turn.as (View.ext rfl rfl rfl rfl rfl rfl ?_ ?_)
      · simp [view,View.frames,enqueuedOf]
      · simp [view,View.frames,dispatchedOf]
    · split at executed <;> cases executed
      refine turn.as (View.ext rfl rfl rfl rfl rfl rfl ?_ ?_)
      · simp [view,View.frames,enqueuedOf]
      · simp [view,View.frames,dispatchedOf]
  | tick =>
    cases executed
    exact .still (still_turn frames rfl [.ticking] (by simp [Clear,Frame.calm]))
  | ticking =>
    simp only [exec] at executed
    split at executed
    · cases executed
    · split at executed <;> cases executed
      · exact .still (still_turn frames rfl [.ticking] (by simp [Clear,Frame.calm]))
      · refine .still (still_turn frames rfl _ ?_)
        split <;> simp [Clear,Frame.calm]
  | idle =>
    simp only [exec] at executed
    split at executed
    · cases executed
    · split at executed <;> cases executed
      · exact .still (still_turn frames rfl [.idling] (by simp [Clear,Frame.calm]))
      · exact .still (still_turn frames rfl [.idle] (by simp [Clear,Frame.calm]))
  | idling =>
    simp only [exec] at executed
    split at executed
    · cases executed
    · split at executed <;> cases executed
      · exact .still (still_turn frames rfl [.idling] (by simp [Clear,Frame.calm]))
      · exact .still (still_turn frames rfl [] clears)

theorem own_turn (frames : c.stack c.currentThread = []) (executed : c.own choice = .ok (after,pushed)) :
    Turn c.view (view {after with stack := Function.update after.stack c.currentThread pushed}) := by
  have clears : Clear ([] : List (Frame T L C S)) := by simp [Clear]
  have same : SameSleeps (c.stack c.currentThread) [] := by
    rw [frames]
    exact sameSleeps_refl _
  have stays : Turn c.view (view {c with stack := Function.update c.stack c.currentThread []}) := .still same
  cases choice with
  | call operation =>
    have entered : (∀ t, operation = .fork t → c.status t = .JUST_CREATED) →
        Turn c.view (view {(c.enter operation).1 with
          stack := Function.update (c.enter operation).1.stack c.currentThread (c.enter operation).2}) := by
      intro fresh
      have turn := enter_turn operation same (fun _ => clears) (by simp [frames]) (fun t fork => ⟨fresh t fork,clears⟩)
        (fun _ => rfl)
      simpa only [List.append_nil] using turn
    cases operation with
    | fork t =>
      simp only [own] at executed
      split at executed <;> cases executed
      · rename_i fresh
        exact entered fun u fork => by cases fork; exact fresh
      · exact stays
    | p | v | acquire | release | wait | signal | yield | finish =>
      cases executed
      exact entered (by simp)
  | setLevel now => simpa using setLevel_turn same executed
  | oneTick =>
    cases executed
    refine .still ?_
    change SameSleeps (c.stack c.currentThread) _
    rw [frames]
    exact sameSleeps_clear clears (by split <;> simp [Clear,Frame.calm])
  | fire | go =>
    cases executed
    exact stays

-- The frames that a step leaves to the thread that ran.
structure Leaves (c : Cpu T L C S) (rest : List (Frame T L C S)) (after : Cpu T L C S)
    (pushed : List (Frame T L C S)) : Prop where
  tidy : Tidy (pushed ++ rest)
  switches : after.currentThread ≠ c.currentThread → Clear (pushed ++ rest)
  handled : after.inHandler = true → after.currentThread = c.currentThread ∧ ∀ reason, .sleep reason ∉ pushed ++ rest

theorem body_leaves (outside : c.inHandler = false) (operation : Operation T L C S) (tidy : Tidy tail)
    (gives : operation.gives = true → Clear tail) : Leaves c tail (c.body operation).1 (c.body operation).2 := by
  have quiet : ∀ {after : Cpu T L C S}, after.inHandler = c.inHandler → ¬after.inHandler = true := by
    intro after same inside
    rw [same,outside] at inside
    cases inside
  cases operation with
  | p s => exact ⟨⟨gives rfl,tidy⟩,fun moved => absurd rfl moved,fun inside => (quiet rfl inside).elim⟩
  | v s | release l | signal d conditionLock | fork t =>
    simp only [body]
    exact ⟨tidy,fun moved => absurd (readyToRun_fields _ _).2.2.2.2 moved,
      fun inside => absurd inside (by rw [(readyToRun_fields _ _).2.1]; simp [outside])⟩
  | acquire l =>
    simp only [body]
    refine ⟨?_,fun moved => absurd rfl moved,fun inside => (quiet rfl inside).elim⟩
    split
    · exact ⟨gives rfl,tidy⟩
    · exact tidy
  | wait d conditionLock =>
    simp only [body]
    split
    · exact ⟨tidy,fun moved => absurd rfl moved,fun inside => (quiet rfl inside).elim⟩
    · refine ⟨?_,fun moved => absurd rfl moved,fun inside => (quiet rfl inside).elim⟩
      have clear := gives rfl
      refine ⟨by simp [Operation.gives],?_,by simp,clear_cons.mpr ⟨rfl,clear⟩,fun _ => clear,by simp [Operation.pops],
        by simp,tidy⟩
      intro bed popped
      cases popped
      simpa using (clear_sleeps clear _).1
  | yield =>
    simp only [body]
    split
    · exact ⟨tidy,fun moved => absurd rfl moved,fun inside => (quiet rfl inside).elim⟩
    · exact ⟨⟨gives rfl,tidy⟩,fun _ => clear_cons.mpr ⟨rfl,gives rfl⟩,fun inside => (quiet rfl inside).elim⟩
  | finish => exact ⟨⟨gives rfl,tidy⟩,fun moved => absurd rfl moved,fun inside => (quiet rfl inside).elim⟩

theorem enter_leaves (outside : c.inHandler = false) (operation : Operation T L C S) (tidy : Tidy rest)
    (gives : operation.gives = true → Clear rest) : Leaves c rest (c.enter operation).1 (c.enter operation).2 := by
  obtain ⟨ordered,switches,handled⟩ := body_leaves (c := {c with level := .IntOff}) outside operation
    (ending_tidy operation c.level tidy) fun given => clear_append.mpr ⟨ending_clear _ _,gives given⟩
  refine ⟨?_,?_,?_⟩
  · simpa only [enter,List.append_assoc] using ordered
  · simpa only [enter,List.append_assoc] using switches
  · simpa only [enter,List.append_assoc] using handled

-- A frame after which the same thread runs on, outside of handlers.
omit [DecidableEq T] [DecidableEq L] [DecidableEq C] [DecidableEq S] in
theorem calm_leaves (outside : c.inHandler = false) (same : after.inHandler = c.inHandler)
    (thread : after.currentThread = c.currentThread) (tidy : Tidy (pushed ++ rest)) : Leaves c rest after pushed := by
  refine ⟨tidy,fun moved => absurd thread moved,?_⟩
  intro inside
  rw [same,outside] at inside
  cases inside

omit [DecidableEq T] [DecidableEq L] [DecidableEq C] [DecidableEq S] in
theorem setLevel_leaves (outside : c.inHandler = false) (tidy : Tidy rest)
    (changed : c.setLevel now = .ok (after,pushed)) : Leaves c rest after pushed := by
  unfold setLevel at changed
  split at changed <;> cases changed
  refine calm_leaves outside rfl rfl ?_
  split
  · exact tidy
  · exact tidy

theorem exec_leaves {frame : Frame T L C S} (outside : c.inHandler = false) (balanced : Balanced c.level (frame :: rest))
    (tidy : Tidy (frame :: rest)) (executed : c.exec choice frame = .ok (after,pushed)) : Leaves c rest after pushed := by
  cases frame with
  | call operation =>
    cases executed
    exact enter_leaves outside operation tidy.2.2.2 tidy.1
  | restore oldLevel => exact setLevel_leaves outside tidy executed
  | root => exact setLevel_leaves outside tidy executed
  | ret operation entry =>
    cases executed
    exact calm_leaves outside rfl rfl tidy
  | test s =>
    cases executed
    refine calm_leaves outside rfl rfl ?_
    split
    · exact ⟨clear_cons.mpr ⟨rfl,tidy.1⟩,tidy⟩
    · exact tidy.2
  | sleep reason =>
    simp only [exec] at executed
    split at executed <;> cases executed
    exact calm_leaves outside rfl rfl tidy
  | sleepLoop reason =>
    simp only [exec] at executed
    split at executed
    · cases executed
      exact calm_leaves outside rfl rfl ⟨⟨_,_,rfl⟩,tidy⟩
    · cases executed
      refine ⟨tidy,fun _ => clear_cons.mpr ⟨rfl,tidy.1⟩,?_⟩
      intro inside
      simp [run,outside] at inside
  | switched reason =>
    simp only [exec] at executed
    split at executed
    · cases executed
      exact calm_leaves outside rfl rfl tidy.2
    · split at executed <;> cases executed
      exact calm_leaves outside rfl rfl tidy.2
  | tick =>
    cases executed
    exact calm_leaves outside rfl rfl tidy
  | ticking =>
    have clear := balanced_clear balanced.2
    simp only [exec] at executed
    split at executed
    · cases executed
    · split at executed <;> cases executed
      · refine ⟨tidy,fun moved => absurd rfl moved,fun _ => ⟨rfl,?_⟩⟩
        intro reason
        simpa using (clear_sleeps clear reason).1
      · refine calm_leaves outside rfl rfl ?_
        split
        · exact ⟨fun _ => clear,by simp [Operation.pops],by simp,tidy⟩
        · exact tidy
  | idle =>
    obtain ⟨⟨reason,later,rfl⟩,clear,ordered⟩ := tidy
    simp only [exec] at executed
    split at executed
    · cases executed
    · split at executed <;> cases executed
      · refine ⟨⟨⟨_,_,rfl⟩,clear,ordered⟩,fun moved => absurd rfl moved,fun _ => ⟨rfl,?_⟩⟩
        intro reason
        simpa using (clear_sleeps clear reason).1
      · exact calm_leaves outside rfl rfl ⟨⟨_,_,rfl⟩,clear,ordered⟩
  | idling =>
    obtain ⟨⟨reason,later,rfl⟩,clear,ordered⟩ := tidy
    simp only [exec] at executed
    split at executed
    · cases executed
    · split at executed <;> cases executed
      · refine ⟨⟨⟨_,_,rfl⟩,clear,ordered⟩,fun moved => absurd rfl moved,fun _ => ⟨rfl,?_⟩⟩
        intro reason
        simpa using (clear_sleeps clear reason).1
      · exact calm_leaves outside rfl rfl ⟨clear,ordered⟩

theorem own_leaves (outside : c.inHandler = false) (executed : c.own choice = .ok (after,pushed)) :
    Leaves c [] after pushed := by
  have clears : Clear ([] : List (Frame T L C S)) := by simp [Clear]
  have stays : Leaves c [] c [] := calm_leaves outside rfl rfl trivial
  cases choice with
  | call operation =>
    have entered : Leaves c [] (c.enter operation).1 (c.enter operation).2 :=
      enter_leaves outside operation trivial fun _ => clears
    cases operation with
    | fork t =>
      simp only [own] at executed
      split at executed <;> cases executed
      · exact entered
      · exact stays
    | p | v | acquire | release | wait | signal | yield | finish =>
      cases executed
      exact entered
  | setLevel now => exact setLevel_leaves outside trivial executed
  | oneTick =>
    cases executed
    refine calm_leaves outside rfl rfl ?_
    split
    · trivial
    · trivial
  | fire | go =>
    cases executed
    exact stays

omit [DecidableEq L] [DecidableEq C] [DecidableEq S] in
theorem Leaves.orderly (leaves : Leaves c rest after pushed) (orderly : Orderly c)
    (spread : ∀ t, after.stack t = c.stack t ∨ after.stack t = [.root]) :
    Orderly {after with stack := Function.update after.stack c.currentThread (pushed ++ rest)} := by
  have others : ∀ t, t ≠ c.currentThread → Clear (after.stack t) ∧ Tidy (after.stack t) := by
    intro t other
    rcases spread t with same | forked
    · rw [same]
      exact orderly.others t other
    · rw [forked]
      exact ⟨by simp [Clear,Frame.calm],trivial⟩
  refine ⟨?_,?_,?_⟩
  · by_cases same : after.currentThread = c.currentThread
    · simpa [same] using leaves.tidy
    · simpa [same] using (others _ same).2
  · intro t other
    by_cases same : t = c.currentThread
    · subst same
      simpa using ⟨leaves.switches (Ne.symm other),leaves.tidy⟩
    · simpa [same] using others t same
  · intro inside
    obtain ⟨thread,awake⟩ := leaves.handled inside
    simpa [thread] using awake

-- A step inside a handler: a V, or nothing that the view shows.
theorem handler_turn (orderly : Orderly c) (inside : c.inHandler = true) (handles : frame.Handles)
    (executed : c.exec choice frame = .ok (after,pushed)) (rest : List (Frame T L C S)) :
    Turn c.view (view {after with handler := rest}) := by
  have self : c.view.frames (c.stack c.currentThread) = c.view :=
    View.ext rfl rfl rfl rfl (Function.update_eq_self _ _) rfl rfl rfl
  have stays : Turn c.view c.view := (Turn.still (sameSleeps_refl _)).as self.symm
  cases frame with
  | call operation =>
    cases operation with
    | v s =>
      cases executed
      have turn := body_turn (c := {c with level := .IntOff}) (c.stack c.currentThread) (.v s)
        (sameSleeps_refl _) (by simp [Operation.gives]) (fun _ _ => orderly.handled inside _) (by simp) (by simp)
      have stack := (readyToRun_fields {c with
        level := .IntOff, semaphore := Function.update c.semaphore s (c.semaphore s).v.1} (c.semaphore s).v.2).2.2.2.1
      refine turn.as (View.ext rfl rfl rfl rfl ?_ rfl rfl rfl)
      simp only [view,body,List.nil_append,stack]
      rw [Function.update_eq_self]
      exact stack
    | p | acquire | release | wait | signal | fork | yield | finish => cases handles
  | restore oldLevel =>
    cases oldLevel with
    | IntOff =>
      simp only [exec,setLevel,true_or,if_true] at executed
      cases executed
      exact stays
    | IntOn => cases handles
  | ret operation entry =>
    cases executed
    refine stays.as (View.ext rfl rfl rfl rfl rfl rfl ?_ ?_)
    · simp [view,enqueuedOf]
    · simp [view,dispatchedOf]
  | test | sleep | sleepLoop | switched | root | tick | ticking | idle | idling => cases handles

-- Every step is one of the turns, or the view does not change.
theorem step_turn (leveled : Leveled c) (orderly : Orderly c) (stepped : c.step choice = .ok after) :
    Orderly after ∧ (Turn c.view after.view ∨ after.view = c.view) := by
  unfold step at stepped
  split at stepped
  · cases stepped
    exact ⟨orderly,.inr rfl⟩
  · split at stepped
    · rename_i inside
      obtain ⟨off,handles⟩ := leveled.handling inside
      split at stepped
      · cases stepped
        exact ⟨⟨orderly.current,orderly.others,by simp⟩,.inr rfl⟩
      · rename_i frame rest handler
        obtain ⟨⟨middle,pushed⟩,executed,result⟩ := bind_ok stepped
        cases result
        have here := handles frame (by simp [handler])
        obtain ⟨_,_,_,stack,thread⟩ := exec_handles off here executed
        refine ⟨⟨?_,?_,?_⟩,.inl (handler_turn orderly inside here executed _)⟩
        · dsimp only
          rw [stack,thread]
          exact orderly.current
        · dsimp only
          rw [stack,thread]
          exact orderly.others
        · intro _
          dsimp only
          rw [stack,thread]
          exact orderly.handled inside
    · rename_i outside
      have outside : c.inHandler = false := by simpa using outside
      split at stepped
      · rename_i empty
        obtain ⟨⟨middle,pushed⟩,executed,result⟩ := bind_ok stepped
        cases result
        have ordered := (own_leaves outside executed).orderly orderly (own_keeps outside executed).stack
        exact ⟨by simpa using ordered,.inl (own_turn empty executed)⟩
      · rename_i frame rest frames
        obtain ⟨⟨middle,pushed⟩,executed,result⟩ := bind_ok stepped
        cases result
        have balanced := leveled.current
        have tidy := orderly.current
        rw [frames] at balanced tidy
        exact ⟨(exec_leaves outside balanced tidy executed).orderly orderly (exec_keeps outside balanced executed).stack,
          .inl (exec_turn frames balanced tidy executed)⟩

theorem reached_orderly (reached : Reached main initialValue c) : Orderly c := by
  induction reached with
  | initial => exact ⟨trivial,fun t _ => ⟨by simp [Cpu.initial,Clear],trivial⟩,by simp [Cpu.initial]⟩
  | step prior stepped ih => exact (step_turn (reached_leveled prior) ih stepped).1

end
end Nachos.Cpu
