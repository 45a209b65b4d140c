import Nachos.KernelHistory
import Nachos.Library.Handover

-- In what order threads become owner of a lock.
namespace Nachos.Kernel
open Protocol Handover

variable [DecidableEq T] [DecidableEq L] [DecidableEq C] {k after : Kernel T L C}

-- What a step does to a lock, read off the states before and after it: the change
-- of ownerThread and what is appended to waitQueue. The new owner slept where it
-- is in the Sleep of an Acquire of the lock.
def turns (k after : Kernel T L C) (l : L) : List (Turn T) :=
  (if (after.lock l).ownerThread = (k.lock l).ownerThread then []
    else match (after.lock l).ownerThread with
      | some t => [Turn.granted t (decide ((k.inside t).entering = some l))]
      | none => [Turn.freed]) ++
    ((after.lock l).waitQueue.drop (k.lock l).waitQueue.length).map Turn.joined

-- The runs from a state on, with what they do to the lock.
inductive Turns (l : L) (start : Kernel T L C) : List (Turn T) → Kernel T L C → Prop where
  | start : Turns l start [] start
  | step {k after : Kernel T L C} : Turns l start log k → Steps k action after →
      Turns l start (turns k after l ++ log) after

-- The thread calls Acquire, directly or at the end of a Wait.
def Acquires (k : Kernel T L C) (t : T) (l : L) (action : Action T L C) : Prop :=
  action = .call t (.acquire l) ∨ (action = .resume t ∧ ∃ c, k.inside t = .wait c l)

def line (k : Kernel T L C) (l : L) : Line T := ⟨(k.lock l).ownerThread,(k.lock l).waitQueue⟩

-- At most one turn of the lock in one step.
def Turned (k after : Kernel T L C) (l : L) : Prop :=
  (turns k after l = [] ∧ after.line l = k.line l) ∨ ∃ turn, turns k after l = [turn] ∧ Pass (k.line l) turn (after.line l)

omit [DecidableEq C] in
theorem turned_same (same : after.lock l = k.lock l) : Turned k after l :=
  Or.inl (by simp [turns,line,same])

omit [DecidableEq C] in
theorem acquire_turned (locks : LockValid k) (outside : (k.inside t).entering = none) (m : L) (place : Inside L C)
    (l : L) : Turned k (k.acquire t m place) l := by
  by_cases same : l = m
  · subst same
    rcases acquire_cases k locks t l place with ⟨held,result⟩ | ⟨free,empty,result⟩ | ⟨owner,held,other,result⟩
    · exact turned_same (by simp [result,return_])
    · refine Or.inr ⟨.granted t false,by simp [turns,result,free,empty,outside],?_⟩
      simpa [line,result,free,empty,Line.free] using Pass.takes (p := t)
    · refine Or.inr ⟨.joined t,by simp [turns,result,held,sleep],?_⟩
      simpa [line,result,held,sleep] using Pass.joins
  · refine turned_same ?_
    rcases acquire_cases k locks t m place with ⟨_,result⟩ | ⟨_,_,result⟩ | ⟨_,_,_,result⟩ <;>
      simp [result,return_,sleep,same]

omit [DecidableEq C] in
theorem release_turned (locks : LockValid k) (t : T) (m : L) (l : L) : Turned k (k.release t m) l := by
  by_cases same : l = m
  · subst same
    rcases release_cases k locks t l with ⟨_,result⟩ | ⟨next,rest,held,waiting,result⟩ | ⟨held,empty,result⟩
    · exact turned_same (by simp [result])
    · have differs : t ≠ next := by
        rintro rfl
        exact locks.ownerOut l t held (by simp [waiting])
      have asleep := (locks.queued l next (by simp [waiting])).2
      refine Or.inr ⟨.granted next true,by simp [turns,result,held,waiting,asleep,Ne.symm differs],?_⟩
      simpa [line,result,held,waiting] using Pass.hands
    · refine Or.inr ⟨.freed,by simp [turns,result,held,empty,Lock.new],?_⟩
      simpa [line,result,held,empty,Lock.new,Line.free] using Pass.frees
  · refine turned_same ?_
    rcases release_cases k locks t m with ⟨_,result⟩ | ⟨_,_,_,_,result⟩ | ⟨_,_,result⟩ <;> simp [result,same]

theorem signal_lock (k : Kernel T L C) (c : C) (conditionLock : Option L) : (k.signal c conditionLock).lock = k.lock := by
  rcases signal_cases k c conditionLock with ⟨_,_,result⟩ | ⟨_,_,_,_,result⟩ <;> simp [result]

theorem broadcast_lock (k : Kernel T L C) (t : T) (c : C) (conditionLock : Option L) :
    (k.broadcast t c conditionLock).lock = k.lock := by
  unfold broadcast
  split
  · rfl
  · exact signal_lock k c conditionLock

theorem step_turned (valid : Valid k) (steps : Steps k action after) (l : L) : Turned k after l := by
  cases steps with
  | @call t what ready outside =>
    have entering : (k.inside t).entering = none := by rw [outside]; rfl
    cases what with
    | acquire m => exact acquire_turned valid.locks entering m _ l
    | release m => exact release_turned valid.locks t m l
    | wait c m =>
      rcases wait_cases k t c m with ⟨output,_,result⟩ | ⟨m,rfl,_,result⟩
      · exact turned_same (by simp [call,result])
      · -- The append to the condition's queue is no concern of the lock.
        have given := release_turned valid.locks t m l
        have same : ((k.wait t c (some m)).lock l) = (k.release t m).lock l := by
          rw [result]
          simp only [sleep,release]
          cases ((k.lock m).release t).2.1 <;> rfl
        simpa only [Turned,turns,line,call,same] using given
    | signal c m => exact turned_same (by simp only [call,signal_lock])
    | broadcast c m => exact turned_same (by simp only [call,broadcast_lock])
    | yield => exact turned_same rfl
    | finish => exact turned_same rfl
  | returns ready place => exact turned_same rfl
  | reacquires ready place => exact acquire_turned valid.locks (by rw [place]; rfl) _ _ l
  | loops ready place => exact turned_same (by rw [broadcast_lock])

theorem turns_valid (valid : Valid start) (path : Turns l start log k) : Valid k := by
  induction path with
  | start => exact valid
  | step _ steps ih => exact step_valid ih steps

theorem turns_trace (valid : Valid start) (path : Turns l start log k) :
    Trace (start.line l) Pass (k.line l) log := by
  induction path with
  | start => exact .start
  | step before steps ih =>
    rcases step_turned (turns_valid valid before) steps l with ⟨none_,same⟩ | ⟨turn,one,passed⟩
    · rw [none_,same]
      exact ih
    · rw [one]
      exact ih.step passed

theorem Turns.before (steps : Steps k action middle) (path : Turns l middle log after) :
    Turns l k (log ++ turns k middle l) after := by
  induction path with
  | start => simpa using Turns.start.step steps
  | step _ next ih => simpa using ih.step next

-- Whoever calls Acquire is in no lock's queue.
theorem acquires_outside (valid : Valid k) (acquires : Acquires k u l action) (steps : Steps k action after) :
    u ∉ (k.lock l).waitQueue := by
  intro queued
  have blocked := (valid.locks.queued l u queued).1
  rcases acquires with rfl | ⟨rfl,_⟩
  · cases steps with
    | call ready => simp [blocked] at ready
  · cases steps with
    | returns ready | reacquires ready | loops ready => simp [blocked] at ready

-- Locks are granted first come, first served: the threads that slept in Acquire
-- become owner in the order in which they were appended to waitQueue, and a thread
-- that calls Acquire does not become owner before those that wait already.
theorem locks_first_come (path : Turns l (.initial : Kernel T L C) log k) :
    joined log = grantedAsleep log ++ (k.lock l).waitQueue ∧
    ∀ (u : T) (action : Action T L C) (middle : Kernel T L C) (since : List (Turn T)) (after : Kernel T L C), Acquires k u l action → Steps k action middle → Turns l middle since after →
      ∀ t ∈ (k.lock l).waitQueue, ∀ (newer older : List (Turn T)) (slept : Bool),
        since ++ turns k middle l = newer ++ .granted u slept :: older →
        ∃ slept : Bool, Turn.granted t slept ∈ older := by
  have valid := turns_valid initial_valid path
  refine ⟨trace_fifo (turns_trace initial_valid path),?_⟩
  intro u action middle since after acquires steps later t waits newer older slept turn
  have outside := acquires_outside valid acquires steps
  obtain ⟨ahead,behind,queue⟩ := List.append_of_mem waits
  have trace := turns_trace valid (Turns.before steps later)
  refine trace_turn trace queue ?_ ?_ turn
  · intro member
    exact outside (by rw [queue]; simp [member])
  · rintro rfl
    exact outside waits

-- The same for a given list of actions, oldest first.
def runTurns (l : L) (k : Kernel T L C) (log : List (Turn T)) :
    List (Action T L C) → Option (List (Turn T) × Kernel T L C)
  | [] => some (log,k)
  | action :: later => do
    let after ← k.step action
    after.runTurns l (turns k after l ++ log) later

theorem runTurns_sound {start : Kernel T L C} (actions : List (Action T L C)) (path : Turns l start log k)
    (ran : k.runTurns l log actions = some (newer,after)) : Turns l start newer after := by
  induction actions generalizing log k with
  | nil =>
    simp only [runTurns,Option.some.injEq,Prod.mk.injEq] at ran
    obtain ⟨rfl,rfl⟩ := ran
    exact path
  | cons action later ih =>
    simp only [runTurns,Option.bind_eq_bind,Option.bind_eq_some_iff] at ran
    obtain ⟨middle,stepped,rest⟩ := ran
    exact ih (path.step (step_sound stepped)) rest

-- Thread 1 waits for the lock when thread 2 calls Acquire; then 0 and 1 release it.
def twoWait : List (Action Nat Nat Nat) := [.call 0 (.acquire 0),.call 1 (.acquire 0)]

def bothGranted : List (Action Nat Nat Nat) :=
  [.call 0 (.release 0),.resume 1,.call 1 (.release 0),.resume 2]

theorem locks_first_come_two : ∃ log older : List (Turn Nat),
    log = [.granted 2 true,.granted 1 true,.joined 2] ∧ log = .granted 2 true :: older ∧
      ∃ slept : Bool, Turn.granted 1 slept ∈ older := by
  obtain ⟨start,k,path,waits⟩ : ∃ start, ∃ k : Kernel Nat Nat Nat, Turns 0 .initial start k ∧
      1 ∈ (k.lock 0).waitQueue ∧ ∃ middle after since, k.step (.call 2 (.acquire 0)) = some middle ∧
        middle.runTurns 0 [] bothGranted = some (since,after) ∧
        since ++ turns k middle 0 = [.granted 2 true,.granted 1 true,.joined 2] :=
    ⟨_,_,runTurns_sound twoWait .start rfl,by decide,_,_,_,rfl,rfl,by decide⟩
  obtain ⟨waits,middle,after,since,stepped,later,turn⟩ := waits
  refine ⟨_,_,rfl,rfl,?_⟩
  exact (locks_first_come path).2 2 _ middle since after (Or.inl rfl) (step_sound stepped)
    (runTurns_sound bothGranted .start later) 1 waits [] _ true turn

end Nachos.Kernel
