import Nachos.Library.Signed
import Mathlib.Logic.Function.Basic

namespace Nachos

-- Lock and Condition objects of synch.h, and their operations from synch.cc up
-- to the point where the calling thread sleeps. NULL pointers are `none`. Every
-- operation runs with interrupts off, so each is one atomic function here; the
-- caller performs the Sleep and the ReadyToRun that the result asks for.
structure Lock (T : Type) where
  ownerThread : Option T
  isBusy : Bool
  waitQueue : List T

structure Condition (T L : Type) where
  waitLock : Option L
  waitQueue : List T

-- `value` is an int: value++ and value-- keep 32 bits.
structure Semaphore (T : Type) where
  value : Int
  queue : List T

-- What the error branches print.
inductive Message (T : Type) where
  | notLockOwner (currentThread : T)
  | nullLock
  | lockMismatch
  deriving DecidableEq, Repr

def Message.text (getName : T → String) : Message T → String
  | .notLockOwner thread =>
    "Error: currentThread " ++ getName thread ++ " is not Lock owner. Cannot release lock\n"
  | .nullLock => "Error: Lock is NULL, cannot reference an NULL pointer\n"
  | .lockMismatch => "Error: The Waiting Lock and the Condition Lock do not match.\n"

def Lock.new : Lock T := ⟨none,false,[]⟩

def Condition.new : Condition T L := ⟨none,[]⟩

def Lock.isHeldByCurrentThread [DecidableEq T] (lock : Lock T) (currentThread : T) : Bool :=
  decide (lock.ownerThread = some currentThread)

-- The new lock, and whether currentThread->Sleep() is reached.
def Lock.acquire [DecidableEq T] (lock : Lock T) (currentThread : T) : Lock T × Bool :=
  if lock.isHeldByCurrentThread currentThread then (lock,false)
  else if lock.isBusy = false then ({lock with isBusy := true, ownerThread := some currentThread},false)
  else ({lock with waitQueue := lock.waitQueue ++ [currentThread]},true)

-- The new lock, the thread passed to scheduler->ReadyToRun, and the output.
def Lock.release [DecidableEq T] (lock : Lock T) (currentThread : T) :
    Lock T × Option T × List (Message T) :=
  if !lock.isHeldByCurrentThread currentThread then (lock,none,[.notLockOwner currentThread])
  else match lock.waitQueue with
    | thread :: rest => ({lock with waitQueue := rest, ownerThread := some thread},some thread,[])
    | [] => ({lock with isBusy := false, ownerThread := none},none,[])

-- Wait up to the nested Release: the new condition, and either the error that
-- makes it return at once or the lock to release before sleeping.
def Condition.wait [DecidableEq L] (condition : Condition T L) (currentThread : T)
    (conditionLock : Option L) : Condition T L × Except (Message T) L :=
  match conditionLock with
  | none => (condition,.error .nullLock)
  | some lock =>
    let condition := if condition.waitLock = none then {condition with waitLock := some lock} else condition
    if condition.waitLock ≠ some lock then (condition,.error .lockMismatch)
    else ({condition with waitQueue := condition.waitQueue ++ [currentThread]},.ok lock)

def Semaphore.new (initialValue : Int) : Semaphore T := ⟨initialValue,[]⟩

-- One test of the loop in P: either currentThread->Sleep() is reached, and the
-- test comes again after it, or the call is over.
def Semaphore.p (semaphore : Semaphore T) (currentThread : T) : Semaphore T × Bool :=
  if semaphore.value = 0 then ({semaphore with queue := semaphore.queue ++ [currentThread]},true)
  else ({semaphore with value := Signed.wrap 32 (semaphore.value - 1)},false)

-- The new semaphore and the thread passed to scheduler->ReadyToRun.
def Semaphore.v (semaphore : Semaphore T) : Semaphore T × Option T :=
  match semaphore.queue with
  | [] => ({semaphore with value := Signed.wrap 32 (semaphore.value + 1)},none)
  | thread :: rest => (⟨Signed.wrap 32 (semaphore.value + 1),rest⟩,some thread)

-- The new condition, the thread passed to scheduler->ReadyToRun, and the output.
def Condition.signal [DecidableEq L] (condition : Condition T L) (conditionLock : Option L) :
    Condition T L × Option T × List (Message T) :=
  match condition.waitQueue with
  | [] => (condition,none,[])
  | thread :: rest =>
    if condition.waitLock ≠ conditionLock then (condition,none,[.lockMismatch])
    else (⟨if rest.isEmpty then none else condition.waitLock,rest⟩,some thread,[])

-- The steps between 0 and 1.
@[simp] theorem Semaphore.raised : Signed.wrap 32 1 = 1 := rfl

@[simp] theorem Semaphore.lowered : Signed.wrap 32 0 = 0 := rfl

section
variable [DecidableEq T] {lock : Lock T} {t : T}

theorem Lock.acquire_held (held : lock.ownerThread = some t) : lock.acquire t = (lock,false) := by
  simp [acquire,isHeldByCurrentThread,held]

theorem Lock.acquire_free (other : lock.ownerThread ≠ some t) (free : lock.isBusy = false) :
    lock.acquire t = ({lock with isBusy := true, ownerThread := some t},false) := by
  simp [acquire,isHeldByCurrentThread,other,free]

theorem Lock.acquire_busy (other : lock.ownerThread ≠ some t) (busy : lock.isBusy = true) :
    lock.acquire t = ({lock with waitQueue := lock.waitQueue ++ [t]},true) := by
  simp [acquire,isHeldByCurrentThread,other,busy]

theorem Lock.release_refused (other : lock.ownerThread ≠ some t) :
    lock.release t = (lock,none,[.notLockOwner t]) := by
  simp [release,isHeldByCurrentThread,other]

theorem Lock.release_handed (held : lock.ownerThread = some t) (waiting : lock.waitQueue = next :: rest) :
    lock.release t = ({lock with waitQueue := rest, ownerThread := some next},some next,[]) := by
  simp [release,isHeldByCurrentThread,held,waiting]

theorem Lock.release_freed (held : lock.ownerThread = some t) (empty : lock.waitQueue = []) :
    lock.release t = ({lock with isBusy := false, ownerThread := none},none,[]) := by
  simp [release,isHeldByCurrentThread,held,empty]

end

section
variable [DecidableEq L] {condition : Condition T L} {t : T} {l : L}

theorem Condition.wait_null : condition.wait t none = (condition,.error .nullLock) := rfl

theorem Condition.wait_mismatch (bound : condition.waitLock = some other) (differs : other ≠ l) :
    condition.wait t (some l) = (condition,.error .lockMismatch) := by
  simp [wait,bound,differs]

theorem Condition.wait_enqueued (match_ : condition.waitLock = none ∨ condition.waitLock = some l) :
    condition.wait t (some l) = (⟨some l,condition.waitQueue ++ [t]⟩,.ok l) := by
  rcases match_ with free | bound
  · simp [wait,free]
  · simp [wait,bound]

theorem Condition.signal_empty (empty : condition.waitQueue = []) :
    condition.signal conditionLock = (condition,none,[]) := by
  simp [signal,empty]

theorem Condition.signal_mismatch (waiting : condition.waitQueue = next :: rest)
    (differs : condition.waitLock ≠ conditionLock) :
    condition.signal conditionLock = (condition,none,[.lockMismatch]) := by
  simp [signal,waiting,differs]

theorem Condition.signal_wakes (waiting : condition.waitQueue = next :: rest)
    (same : condition.waitLock = conditionLock) :
    condition.signal conditionLock =
      (⟨if rest.isEmpty then none else condition.waitLock,rest⟩,some next,[]) := by
  simp [signal,waiting,same]

end
end Nachos
