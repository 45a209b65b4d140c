import Nachos.Synch

namespace Nachos

-- Thread::status. Between two steps the thread that has the CPU counts as READY:
-- the scheduler may let it go on or dispatch any other READY thread.
inductive ThreadStatus where
  | READY
  | BLOCKED
  deriving DecidableEq, Repr

-- The Sleep inside which a thread has given up the CPU, or the Broadcast loop it
-- is in. `acquire` is the Sleep of a direct Lock::Acquire, `wait` the one of
-- Condition::Wait, and `reacquire` the one of the Acquire that ends Wait.
inductive Inside (L C : Type) where
  | none
  | acquire (lock : L)
  | wait (condition : C) (lock : L)
  | reacquire (condition : C) (lock : L)
  | broadcast (condition : C) (conditionLock : Option L)
  | finished
  deriving DecidableEq, Repr

structure Kernel (T L C : Type) where
  lock : L → Lock T
  condition : C → Condition T L
  status : T → ThreadStatus
  inside : T → Inside L C
  printed : List (Message T)

-- The lock whose queue the thread joined, directly or at the end of a Wait.
def Inside.entering : Inside L C → Option L
  | .acquire l | .reacquire _ l => Option.some l
  | _ => Option.none

def Kernel.initial : Kernel T L C :=
  ⟨fun _ => .new,fun _ => .new,fun _ => .READY,fun _ => .none,[]⟩

inductive Call (L C : Type) where
  | acquire (lock : L)
  | release (lock : L)
  | wait (condition : C) (conditionLock : Option L)
  | signal (condition : C) (conditionLock : Option L)
  | broadcast (condition : C) (conditionLock : Option L)
  | yield
  | finish
  deriving DecidableEq, Repr

namespace Kernel
variable [DecidableEq T] [DecidableEq L] [DecidableEq C]

-- Scheduler::ReadyToRun; `none` stands for no call.
def readyToRun (k : Kernel T L C) : Option T → Kernel T L C
  | none => k
  | some thread => {k with status := Function.update k.status thread .READY}

-- Thread::Sleep, with the place where the thread will continue.
def sleep (k : Kernel T L C) (currentThread : T) (place : Inside L C) : Kernel T L C :=
  {k with
    status := Function.update k.status currentThread .BLOCKED
    inside := Function.update k.inside currentThread place}

-- The call returns to the code that made it.
def return_ (k : Kernel T L C) (currentThread : T) : Kernel T L C :=
  {k with inside := Function.update k.inside currentThread .none}

def acquire (k : Kernel T L C) (currentThread : T) (l : L) (place : Inside L C) : Kernel T L C :=
  let (lock,sleeps) := (k.lock l).acquire currentThread
  let k := {k with lock := Function.update k.lock l lock}
  if sleeps then k.sleep currentThread place else k.return_ currentThread

def release (k : Kernel T L C) (currentThread : T) (l : L) : Kernel T L C :=
  let (lock,thread,output) := (k.lock l).release currentThread
  readyToRun {k with lock := Function.update k.lock l lock, printed := k.printed ++ output} thread

def wait (k : Kernel T L C) (currentThread : T) (c : C) (conditionLock : Option L) : Kernel T L C :=
  match (k.condition c).wait currentThread conditionLock with
  | (condition,.error output) =>
    {k with condition := Function.update k.condition c condition, printed := k.printed ++ [output]}
  | (condition,.ok l) =>
    (release {k with condition := Function.update k.condition c condition} currentThread l).sleep
      currentThread (.wait c l)

def signal (k : Kernel T L C) (c : C) (conditionLock : Option L) : Kernel T L C :=
  let (condition,thread,output) := (k.condition c).signal conditionLock
  readyToRun
    {k with condition := Function.update k.condition c condition, printed := k.printed ++ output} thread

-- One round of the while loop: the test of IsEmpty and the Signal it guards.
-- Interrupts go back on at the end of Signal, so rounds are separate steps.
def broadcast (k : Kernel T L C) (currentThread : T) (c : C) (conditionLock : Option L) : Kernel T L C :=
  if (k.condition c).waitQueue.isEmpty then k.return_ currentThread
  else
    let k := k.signal c conditionLock
    {k with inside := Function.update k.inside currentThread (.broadcast c conditionLock)}

def call (k : Kernel T L C) (currentThread : T) : Call L C → Kernel T L C
  | .acquire l => k.acquire currentThread l (.acquire l)
  | .release l => k.release currentThread l
  | .wait c l => k.wait currentThread c l
  | .signal c l => k.signal c l
  | .broadcast c l => k.broadcast currentThread c l
  | .yield => k
  | .finish => k.sleep currentThread .finished

-- The scheduler dispatches a thread that is inside a call: it runs on to the
-- next Sleep or to the end of the call.
def resume (k : Kernel T L C) (currentThread : T) : Option (Kernel T L C) :=
  match k.inside currentThread with
  | .none | .finished => none
  | .acquire _ | .reacquire _ _ => some (k.return_ currentThread)
  | .wait c l => some (k.acquire currentThread l (.reacquire c l))
  | .broadcast c l => some (k.broadcast currentThread c l)

inductive Action (T L C : Type) where
  | call (currentThread : T) (what : Call L C)
  | resume (currentThread : T)
  deriving DecidableEq, Repr

def step (k : Kernel T L C) : Action T L C → Option (Kernel T L C)
  | .call t what => if k.status t = .READY ∧ k.inside t = .none then some (k.call t what) else none
  | .resume t => if k.status t = .READY then k.resume t else none

-- What a step can do: a call from the thread's own code, or one of the three
-- ways to go on inside a call.
inductive Steps (k : Kernel T L C) : Action T L C → Kernel T L C → Prop where
  | call : k.status t = .READY → k.inside t = .none → Steps k (.call t what) (k.call t what)
  | returns : k.status t = .READY → (k.inside t).entering = some l → Steps k (.resume t) (k.return_ t)
  | reacquires : k.status t = .READY → k.inside t = .wait c l →
      Steps k (.resume t) (k.acquire t l (.reacquire c l))
  | loops : k.status t = .READY → k.inside t = .broadcast c conditionLock →
      Steps k (.resume t) (k.broadcast t c conditionLock)

theorem step_sound {k : Kernel T L C} (stepped : k.step action = some after) : Steps k action after := by
  cases action with
  | call t what =>
    simp only [step] at stepped
    split at stepped
    · rename_i guard
      cases Option.some.inj stepped
      exact .call guard.1 guard.2
    · cases stepped
  | resume t =>
    simp only [step] at stepped
    split at stepped
    · rename_i ready
      cases place : k.inside t with
      | none => simp [resume,place] at stepped
      | finished => simp [resume,place] at stepped
      | acquire l =>
        simp only [resume,place,Option.some.injEq] at stepped
        exact stepped ▸ .returns ready (by rw [place]; rfl)
      | reacquire c l =>
        simp only [resume,place,Option.some.injEq] at stepped
        exact stepped ▸ .returns ready (by rw [place]; rfl)
      | wait c l =>
        simp only [resume,place,Option.some.injEq] at stepped
        exact stepped ▸ .reacquires ready place
      | broadcast c l =>
        simp only [resume,place,Option.some.injEq] at stepped
        exact stepped ▸ .loops ready place
    · cases stepped

theorem step_complete {k : Kernel T L C} (steps : Steps k action after) : k.step action = some after := by
  cases steps with
  | call ready outside => simp [step,ready,outside]
  | @returns t l ready place =>
    cases inside : k.inside t with
    | acquire | reacquire => simp [step,resume,ready,inside]
    | none | wait | broadcast | finished => simp [inside,Inside.entering] at place
  | reacquires ready place => simp [step,resume,ready,place]
  | loops ready place => simp [step,resume,ready,place]

end Kernel
end Nachos
