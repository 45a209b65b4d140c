import Nachos.CpuFinish
import Nachos.KernelHistory

-- Interrupts off make the operations on locks and conditions atomic: a run of the CPU,
-- with its ticks, handlers and context switches, is a run of the kernel in which each
-- operation is one step, and so is each return to an operation that had slept.
namespace Nachos.Cpu
open Monitor

section
variable {T L C S : Type}

def Frame.sleeps : Frame T L C S → Bool
  | .sleep _ => true
  | _ => false

-- The Wait to which the frames go back next.
def waitOf : List (Frame T L C S) → Option C
  | .restore _ :: .ret (.wait d _) _ :: _ => some d
  | _ => none

-- What the frame says about the operation the thread is inside; `below` is what the
-- frames under it say. An Acquire that sleeps has its own two frames before those of
-- the Wait it ends.
def Frame.inside (rest : List (Frame T L C S)) (below : Inside L C) : Frame T L C S → Inside L C
  | .sleep reason | .sleepLoop reason | .switched reason => match reason with
    | .waits (.lock l) => match waitOf (rest.drop 2) with
      | some d => .reacquire d l
      | none => .acquire l
    | .finishes => .finished
    | .yields | .waits (.condition _) | .waits (.semaphore _) => below
  | .call (.acquire l) => match waitOf rest with
    | some d => .wait d l
    | none => below
  | .call _ | .restore _ | .ret _ _ | .test _ | .root | .tick | .ticking | .idle | .idling => below

def insideOf : List (Frame T L C S) → Inside L C
  | [] => .none
  | frame :: rest => frame.inside rest (insideOf rest)

def Operation.kernelCall : Operation T L C S → Option (Call L C)
  | .acquire l => some (.acquire l)
  | .release l => some (.release l)
  | .wait d conditionLock => some (.wait d conditionLock)
  | .signal d conditionLock => some (.signal d conditionLock)
  | .yield => some .yield
  | .finish => some .finish
  | .p _ | .v _ | .fork _ => none

-- What may stand under the frame.
def Frame.Fits (rest : List (Frame T L C S)) : Frame T L C S → Prop
  | .sleep reason | .sleepLoop reason | .switched reason => match reason with
    | .waits (.lock _) | .waits (.semaphore _) | .finishes => insideOf rest = .none
    | .yields | .waits (.condition _) => True
  | .call (.acquire _) => (∃ d, waitOf rest = some d) ∧ insideOf rest = .none
  | .call (.release _) =>
    (∃ d later, rest = .sleep (.waits (.condition d)) :: later) ∧ ∀ l entry, .ret (.acquire l) entry ∉ rest
  | .call operation => operation = .yield
  | .test _ | .ret (.acquire _) _ => insideOf rest = .none
  | .restore _ | .ret _ _ | .root | .tick | .ticking | .idle | .idling => True

-- The nested Release of a Wait is not under way.
def Settled (frames : List (Frame T L C S)) : Prop := ∀ l, .call (.release l) ∉ frames

def Shaped : List (Frame T L C S) → Prop
  | [] => True
  | frame :: rest => frame.Fits rest ∧ Settled rest ∧ Shaped rest

theorem settled_nil : Settled ([] : List (Frame T L C S)) := by simp [Settled]

theorem settled_cons {frame : Frame T L C S} {rest : List (Frame T L C S)} (other : ∀ l, frame ≠ .call (.release l))
    (settled : Settled rest) : Settled (frame :: rest) := by
  intro l member
  rcases List.mem_cons.mp member with here | later
  · exact other l here.symm
  · exact settled l later

-- The nested Release stands over a Sleep.
theorem clear_settled {frames : List (Frame T L C S)} (shaped : Shaped frames) (clear : Clear frames) :
    Settled frames := by
  cases frames with
  | nil => exact settled_nil
  | cons frame rest =>
    refine settled_cons ?_ shaped.2.1
    rintro l rfl
    obtain ⟨⟨d,later,rfl⟩,_⟩ := shaped.1
    exact (clear_sleeps clear (.waits (.condition d))).1 (by simp)

theorem clear_asleep {frames : List (Frame T L C S)} (clear : Clear frames) : frames.any Frame.sleeps = false := by
  rw [List.any_eq_false]
  intro frame member sleeps
  cases frame with
  | sleep reason => exact (clear_sleeps clear reason).1 member
  | call | restore | ret | test | sleepLoop | switched | root | tick | ticking | idle | idling => cases sleeps

-- The last frames of an operation are nothing to the kernel.
theorem ending_frames (operation : Operation T L C S) (level : IntStatus) {rest : List (Frame T L C S)} (settled : Settled rest)
    (shaped : Shaped rest) (outside : ∀ l, operation = .acquire l → insideOf rest = .none) :
    Settled (ending operation level ++ rest) ∧ Shaped (ending operation level ++ rest) ∧
      insideOf (ending operation level ++ rest) = insideOf rest ∧
      (ending operation level ++ rest).any Frame.sleeps = rest.any Frame.sleeps := by
  have last : Settled (.restore level :: .ret operation level :: rest) :=
    settled_cons (by simp) (settled_cons (by simp) settled)
  have shape : (Frame.ret operation level).Fits rest → Shaped (.restore level :: .ret operation level :: rest) :=
    fun fits => ⟨trivial,settled_cons (by simp) settled,fits,settled,shaped⟩
  cases operation with
  | finish => exact ⟨settled,shaped,rfl,rfl⟩
  | acquire l => exact ⟨last,shape (outside l rfl),rfl,rfl⟩
  | p | v | release | wait | signal | fork | yield => exact ⟨last,shape trivial,rfl,rfl⟩
end

section
variable [DecidableEq T] [DecidableEq L] [DecidableEq C] [DecidableEq S]

-- Wait calls Release before it sleeps, with interrupts off. To the kernel the lock is
-- free from the call of Wait on.
def settled (c : Cpu T L C S) : Cpu T L C S :=
  match c.stack c.currentThread with
  | .call (.release l) :: _ => (c.body (.release l)).1
  | _ => c

-- The thread sleeps or is about to.
def asleep (c : Cpu T L C S) (t : T) : Bool :=
  decide (c.status t = .BLOCKED) || (c.stack t).any Frame.sleeps

-- A thread in P, or one that has yielded, is READY to the kernel and makes no step.
def standing (inside : Inside L C) (asleep : Bool) : ThreadStatus :=
  if inside ≠ .none ∧ asleep = true then .BLOCKED else .READY

-- The kernel that the state of the CPU stands for.
def kernel (c : Cpu T L C S) (printed : List (Message T)) : Kernel T L C where
  lock := c.settled.lock
  condition := c.settled.condition
  status t := standing (insideOf (c.stack t)) (c.settled.asleep t)
  inside t := insideOf (c.stack t)
  printed := printed

-- The step of the kernel that a step of the CPU takes. An operation takes effect as it
-- begins, and a Sleep in it is over where SWITCH returns in Run, or where Wait goes on
-- to its Acquire.
def Choice.point (currentThread : T) : Choice T L C S → Option (Kernel.Action T L C)
  | .call operation => operation.kernelCall.map (.call currentThread)
  | .setLevel _ | .oneTick | .fire _ _ | .go => none

def Frame.point (currentThread : T) : Frame T L C S → Option (Kernel.Action T L C)
  | .switched (.waits (.lock _)) | .call (.acquire _) => some (.resume currentThread)
  | _ => none

def point (c : Cpu T L C S) (choice : Choice T L C S) : Option (Kernel.Action T L C) :=
  if c.halted || c.inHandler then none
  else match c.stack c.currentThread with
    | [] => choice.point c.currentThread
    | frame :: _ => frame.point c.currentThread

def points (c : Cpu T L C S) : List (Choice T L C S) → List (Kernel.Action T L C)
  | [] => []
  | choice :: later => (c.point choice).toList ++ match c.step choice with
    | .ok after => after.points later
    | .error _ => []

variable {c after : Cpu T L C S}

theorem settled_same (settled : Settled (c.stack c.currentThread)) : c.settled = c := by
  unfold Cpu.settled
  split
  · rename_i l rest frames
    exact absurd (by simp [frames]) (settled l)
  · rfl

-- A thread that is awake is READY to the kernel.
theorem awake_ready {old : List (Frame T L C S)} (frames : c.stack c.currentThread = old) (settled : Settled old)
    (running : c.status c.currentThread = .RUNNING) (awake : old.any Frame.sleeps = false) (printed : List (Message T)) :
    (c.kernel printed).status c.currentThread = .READY := by
  simp only [kernel,settled_same (frames ▸ settled),asleep,frames,running,awake]
  simp [standing]

omit [DecidableEq T] [DecidableEq L] [DecidableEq C] in
theorem kernel_ext {k k' : Kernel T L C} (lock : k.lock = k'.lock) (condition : k.condition = k'.condition)
    (status : ∀ t, k.status t = k'.status t) (inside : ∀ t, k.inside t = k'.inside t) (printed : k.printed = k'.printed) :
    k = k' := by
  cases k
  cases k'
  simp only [Kernel.mk.injEq]
  exact ⟨lock,condition,funext status,funext inside,printed⟩

-- The kernel shows what the state holds.
structure Reads (c : Cpu T L C S) (k : Kernel T L C) : Prop where
  lock : k.lock = c.lock
  condition : k.condition = c.condition
  status : ∀ t, k.status t = standing (insideOf (c.stack t)) (c.asleep t)
  inside : ∀ t, k.inside t = insideOf (c.stack t)

theorem kernel_reads (settled : Settled (c.stack c.currentThread)) (printed : List (Message T)) :
    Reads c (c.kernel printed) := by
  refine ⟨?_,?_,?_,fun _ => rfl⟩
  · simp only [kernel,settled_same settled]
  · simp only [kernel,settled_same settled]
  · simp only [kernel,settled_same settled,implies_true]

theorem Reads.kernel {k : Kernel T L C} (reads : Reads c.settled k) (stack : c.settled.stack = c.stack) :
    k = c.kernel k.printed := by
  obtain ⟨lock,condition,status,inside⟩ := reads
  rw [stack] at status inside
  exact kernel_ext lock condition status inside rfl

theorem Reads.settled {k : Kernel T L C} (reads : Reads c k) (settled : Settled (c.stack c.currentThread)) :
    k = c.kernel k.printed := by
  have same := settled_same settled
  exact Reads.kernel (same.symm ▸ reads) (by rw [same])

-- A lock or a condition changes, and a thread that is awake or asleep is woken.
omit [DecidableEq S] in
theorem Reads.wakes {k : Kernel T L C} (reads : Reads c k) (lock : L → Lock T) (condition : C → Condition T L)
    (printed : List (Message T)) (woken : Option T) (up : ∀ u, woken = some u → (c.stack u).any Frame.sleeps = false) :
    Reads (readyToRun {c with lock := lock, condition := condition} woken)
      (Kernel.readyToRun {k with lock := lock, condition := condition, printed := printed} woken) := by
  cases woken with
  | none => exact ⟨rfl,rfl,reads.status,reads.inside⟩
  | some u =>
    refine ⟨rfl,rfl,?_,reads.inside⟩
    intro t
    by_cases same : t = u
    · subst same
      simp only [Kernel.readyToRun,readyToRun,asleep,Function.update_self,up t rfl]
      simp [standing]
    · simpa [Kernel.readyToRun,readyToRun,asleep,same] using reads.status t

variable {c' : Cpu T L C S} {k : Kernel T L C} {new : List (Frame T L C S)}

-- The current thread has other frames and is as it was.
omit [DecidableEq S] in
theorem Reads.frames (reads : Reads c k) (lock : c'.lock = c.lock) (condition : c'.condition = c.condition)
    (status : c'.status = c.status) (stack : c'.stack = Function.update c.stack c.currentThread new)
    (inside : insideOf new = insideOf (c.stack c.currentThread))
    (sleeps : new.any Frame.sleeps = (c.stack c.currentThread).any Frame.sleeps) : Reads c' k := by
  refine ⟨lock ▸ reads.lock,condition ▸ reads.condition,?_,?_⟩
  · intro t
    by_cases same : t = c.currentThread
    · subst same
      simpa only [asleep,status,stack,Function.update_self,inside,sleeps] using reads.status c.currentThread
    · simpa only [asleep,status,stack,Function.update_of_ne same] using reads.status t
  · intro t
    by_cases same : t = c.currentThread
    · subst same
      simpa only [stack,Function.update_self,inside] using reads.inside c.currentThread
    · simpa only [stack,Function.update_of_ne same] using reads.inside t

-- It goes to sleep inside an operation.
omit [DecidableEq S] in
theorem Reads.sleep (reads : Reads c k) (lock : c'.lock = c.lock) (condition : c'.condition = c.condition)
    (status : c'.status = c.status) (stack : c'.stack = Function.update c.stack c.currentThread new)
    (enters : insideOf new = place) (out : place ≠ .none) (sleeps : new.any Frame.sleeps = true) :
    Reads c' (k.sleep c.currentThread place) := by
  refine ⟨lock ▸ reads.lock,condition ▸ reads.condition,?_,?_⟩
  · intro t
    by_cases same : t = c.currentThread
    · subst same
      simp [Kernel.sleep,stack,enters,out,asleep,sleeps,standing]
    · simpa [Kernel.sleep,same,stack,asleep,status] using reads.status t
  · intro t
    by_cases same : t = c.currentThread
    · subst same
      simp [Kernel.sleep,stack,enters]
    · simpa [Kernel.sleep,same,stack] using reads.inside t

-- It returns to its own code.
omit [DecidableEq S] in
theorem Reads.return_ (reads : Reads c k) (ready : k.status c.currentThread = .READY) (lock : c'.lock = c.lock)
    (condition : c'.condition = c.condition) (status : c'.status = c.status)
    (stack : c'.stack = Function.update c.stack c.currentThread new) (leaves : insideOf new = .none) :
    Reads c' (k.return_ c.currentThread) := by
  refine ⟨lock ▸ reads.lock,condition ▸ reads.condition,?_,?_⟩
  · intro t
    by_cases same : t = c.currentThread
    · subst same
      simpa [Kernel.return_,stack,leaves,standing] using ready
    · simpa [Kernel.return_,same,stack,asleep,status] using reads.status t
  · intro t
    by_cases same : t = c.currentThread
    · subst same
      simp [Kernel.return_,stack,leaves]
    · simpa [Kernel.return_,same,stack] using reads.inside t

-- Lock::Acquire, called by the thread itself or at the end of Wait.
theorem acquire_kernel {old : List (Frame T L C S)} (rest : List (Frame T L C S)) (place : Inside L C)
    (frames : c.stack c.currentThread = old) (before : Settled old)
    (running : c.status c.currentThread = .RUNNING) (awake : old.any Frame.sleeps = false) (settled : Settled rest)
    (shaped : Shaped rest) (none_ : insideOf rest = .none)
    (enters : insideOf (.sleep (.waits (.lock l)) :: (ending (.acquire l) c.level ++ rest)) = place) (out : place ≠ .none)
    (printed : List (Message T)) :
    (c.kernel printed).acquire c.currentThread l place =
      kernel {(c.enter (.acquire l)).1 with
        stack := Function.update (c.enter (.acquire l)).1.stack c.currentThread ((c.enter (.acquire l)).2 ++ rest)}
        printed := by
  have ready := awake_ready frames before running awake printed
  have reads := kernel_reads (frames ▸ before) printed
  obtain ⟨now,_,same,_⟩ := ending_frames (.acquire l) c.level settled shaped fun _ _ => none_
  have taken := reads.wakes (Function.update c.lock l ((c.lock l).acquire c.currentThread).1) c.condition printed none (by simp)
  simp only [Kernel.acquire,reads.lock,reads.condition,enter,body]
  cases sleeps : ((c.lock l).acquire c.currentThread).2 with
  | false =>
    simp only [Bool.false_eq_true,if_false,List.nil_append]
    refine Reads.settled ?_ (by simpa using now)
    refine taken.return_ ready rfl rfl rfl rfl ?_
    rw [same,none_]
  | true =>
    simp only [if_true,List.cons_append,List.nil_append]
    refine Reads.settled ?_ (by simpa using settled_cons (by simp) now)
    refine taken.sleep rfl rfl rfl rfl enters out ?_
    simp [Frame.sleeps]

-- The state after an operation that the thread has called from its own code.
def called (c : Cpu T L C S) (operation : Operation T L C S) : Cpu T L C S :=
  {(c.enter operation).1 with
    stack := Function.update (c.enter operation).1.stack c.currentThread (c.enter operation).2}

theorem finish_kernel (empty : c.stack c.currentThread = []) (printed : List (Message T)) :
    (c.kernel printed).sleep c.currentThread .finished = (c.called .finish).kernel printed := by
  have reads := kernel_reads (by rw [empty]; exact settled_nil) printed
  have settled : Settled ([.sleep .finishes] : List (Frame T L C S)) := by simp [Settled]
  refine Reads.settled (reads.sleep rfl rfl rfl rfl ?_ ?_ ?_) (by simpa [called,enter,body,ending] using settled)
  · rfl
  · simp
  · rfl

section
variable (orderly : Orderly c) (empty : c.stack c.currentThread = [])
include orderly empty

-- No thread is about to sleep where the current one is in its own code.
omit [DecidableEq L] [DecidableEq C] [DecidableEq S] in
theorem own_clear (u : T) : (c.stack u).any Frame.sleeps = false := by
  by_cases same : u = c.currentThread
  · simp [same,empty]
  · exact clear_asleep (orderly.others u same).1

theorem release_kernel (l : L) (printed : List (Message T)) :
    ∃ printed', (c.kernel printed).release c.currentThread l = (c.called (.release l)).kernel printed' := by
  have reads := kernel_reads (by rw [empty]; exact settled_nil) printed
  have settled : Settled (ending (.release l) c.level : List (Frame T L C S)) := by simp [Settled,ending]
  simp only [Kernel.release,reads.lock,reads.condition,called,enter,body]
  obtain ⟨lock,thread,output⟩ := (c.lock l).release c.currentThread
  have woken := reads.wakes (Function.update c.lock l lock) c.condition (printed ++ output) thread
    fun u _ => own_clear orderly empty u
  cases thread <;>
    refine ⟨_,Reads.settled (woken.frames rfl rfl rfl rfl ?_ ?_) (by simpa [readyToRun] using settled)⟩ <;>
    simp only [readyToRun,empty] <;> rfl

theorem signal_kernel (d : C) (conditionLock : Option L) (printed : List (Message T)) :
    ∃ printed', (c.kernel printed).signal d conditionLock = (c.called (.signal d conditionLock)).kernel printed' := by
  have reads := kernel_reads (by rw [empty]; exact settled_nil) printed
  have settled : Settled (ending (.signal d conditionLock) c.level : List (Frame T L C S)) := by simp [Settled,ending]
  simp only [Kernel.signal,reads.lock,reads.condition,called,enter,body]
  obtain ⟨condition,thread,output⟩ := (c.condition d).signal conditionLock
  have woken := reads.wakes c.lock (Function.update c.condition d condition) (printed ++ output) thread
    fun u _ => own_clear orderly empty u
  cases thread <;>
    refine ⟨_,Reads.settled (woken.frames rfl rfl rfl rfl ?_ ?_) (by simpa [readyToRun] using settled)⟩ <;>
    simp only [readyToRun,empty] <;> rfl

-- Wait joins the queue and calls Release before it sleeps.
theorem wait_kernel (d : C) (conditionLock : Option L) (printed : List (Message T)) :
    ∃ printed',
      (c.kernel printed).wait c.currentThread d conditionLock = (c.called (.wait d conditionLock)).kernel printed' := by
  have reads := kernel_reads (by rw [empty]; exact settled_nil) printed
  simp only [Kernel.wait,reads.lock,reads.condition,called,enter,body]
  obtain ⟨condition,found⟩ := (c.condition d).wait c.currentThread conditionLock
  have settled : Settled (ending (.wait d conditionLock) c.level : List (Frame T L C S)) := by simp [Settled,ending]
  cases found with
  | error output =>
    have told := reads.wakes c.lock (Function.update c.condition d condition) (printed ++ [output]) none (by simp)
    refine ⟨_,Reads.settled (told.frames rfl rfl rfl rfl ?_ ?_) (by simpa using settled)⟩ <;>
      simp only [readyToRun,empty] <;> rfl
  | ok l =>
    simp only [Kernel.release]
    have woken := reads.wakes (Function.update c.lock l ((c.lock l).release c.currentThread).1)
      (Function.update c.condition d condition) (printed ++ ((c.lock l).release c.currentThread).2.2)
      ((c.lock l).release c.currentThread).2.1 fun u _ => own_clear orderly empty u
    refine ⟨_,Reads.kernel ?_ ?_⟩
    · simp only [Cpu.settled,Function.update_self,List.cons_append,body]
      generalize (c.lock l).release c.currentThread = released at woken ⊢
      obtain ⟨lock,thread,output⟩ := released
      cases thread <;> exact woken.sleep rfl rfl rfl rfl rfl (by simp) rfl
    · simp only [Cpu.settled,Function.update_self,List.cons_append,body]
      generalize (c.lock l).release c.currentThread = released
      obtain ⟨lock,thread,output⟩ := released
      cases thread <;> rfl
end

theorem own_ready (empty : c.stack c.currentThread = []) (printed : List (Message T)) :
    (c.kernel printed).status c.currentThread = .READY ∧ (c.kernel printed).inside c.currentThread = .none := by
  simp [kernel,empty,insideOf,standing]

theorem called_kernel (orderly : Orderly c) (running : c.status c.currentThread = .RUNNING)
    (empty : c.stack c.currentThread = []) (printed : List (Message T)) :
    (∀ operation what, operation.kernelCall = some what → operation ≠ .yield →
      ∃ printed', (c.kernel printed).call c.currentThread what = (c.called operation).kernel printed') := by
  intro operation what seen other
  cases operation with
  | p | v | fork => cases seen
  | yield => exact absurd rfl other
  | acquire l =>
    cases seen
    have taken := acquire_kernel (l := l) [] (.acquire l) empty settled_nil running rfl settled_nil trivial rfl rfl
      (by simp) printed
    simp only [List.append_nil] at taken
    exact ⟨printed,taken⟩
  | release l =>
    cases seen
    exact release_kernel orderly empty l printed
  | wait d conditionLock =>
    cases seen
    exact wait_kernel orderly empty d conditionLock printed
  | signal d conditionLock =>
    cases seen
    exact signal_kernel orderly empty d conditionLock printed
  | finish =>
    cases seen
    exact ⟨printed,finish_kernel empty printed⟩

-- A thread whose frames are all its own code's last ones.
theorem called_shaped (operation : Operation T L C S) : Shaped (c.enter operation).2 := by
  obtain ⟨settled,last,none_,_⟩ := ending_frames (T := T) (S := S) operation c.level settled_nil trivial fun _ _ => rfl
  rw [List.append_nil] at settled last none_
  cases operation with
  | p s => exact ⟨none_,settled,last⟩
  | v | release | signal | fork => exact last
  | acquire l =>
    simp only [enter,body]
    split
    · exact ⟨none_,settled,last⟩
    · exact last
  | wait d conditionLock =>
    simp only [enter,body]
    split
    · exact last
    · refine ⟨⟨⟨d,_,rfl⟩,by simp [ending]⟩,?_,trivial,?_,⟨⟨d,rfl⟩,none_⟩,settled,last⟩
      · exact settled_cons (by simp) (settled_cons (by simp) settled)
      · exact settled_cons (by simp) settled
  | yield =>
    simp only [enter,body]
    split
    · exact last
    · exact ⟨trivial,settled,last⟩
  | finish => exact ⟨rfl,settled_nil,trivial⟩

-- What a call that the kernel sees leaves alone.
theorem called_fields (operation : Operation T L C S) (seen : operation.kernelCall = some what) (other : operation ≠ .yield) :
    (c.enter operation).1.semaphore = c.semaphore ∧ (c.enter operation).1.stack = c.stack ∧
      (insideOf (c.enter operation).2 = .finished → c.currentThread ∈ finishedOf (c.enter operation).1.log) := by
  cases operation with
  | p | v | fork => cases seen
  | yield => exact absurd rfl other
  | acquire l =>
    refine ⟨rfl,rfl,?_⟩
    simp only [enter,body]
    split <;> intro ends <;> cases ends
  | release l =>
    simp only [enter,body]
    obtain ⟨lock,thread,output⟩ := (c.lock l).release c.currentThread
    cases thread <;> exact ⟨rfl,rfl,by intro ends; cases ends⟩
  | wait d conditionLock =>
    simp only [enter,body]
    split <;> exact ⟨rfl,rfl,by intro ends; cases ends⟩
  | signal d conditionLock =>
    simp only [enter,body]
    obtain ⟨condition,thread,output⟩ := (c.condition d).signal conditionLock
    cases thread <;> exact ⟨rfl,rfl,by intro ends; cases ends⟩
  | finish => exact ⟨rfl,rfl,fun _ => List.mem_cons_self ..⟩
end
end Nachos.Cpu
