import Nachos.Synch
import Nachos.Interrupts

-- One CPU: the threads of thread.cc, the scheduler, the operations of synch.cc and
-- the interrupt level, at the grain of single calls of SetLevel, Sleep, Run and
-- CheckIfDue. What a thread has still to do is a list of frames, the next first.
namespace Nachos

-- Thread::status
inductive CpuStatus where
  | JUST_CREATED
  | RUNNING
  | READY
  | BLOCKED
  deriving DecidableEq, Repr

namespace Cpu

-- A queue on which a thread can sleep.
inductive Bed (L C S : Type) where
  | lock (l : L)
  | condition (c : C)
  | semaphore (s : S)
  deriving DecidableEq, Repr

-- Why a thread gives up the CPU.
inductive Reason (L C S : Type) where
  | yields
  | waits (bed : Bed L C S)
  | finishes
  deriving DecidableEq, Repr

-- Broadcast is a loop of Signals in the caller's own code.
inductive Operation (T L C S : Type) where
  | p (s : S)
  | v (s : S)
  | acquire (l : L)
  | release (l : L)
  | wait (c : C) (conditionLock : Option L)
  | signal (c : C) (conditionLock : Option L)
  | fork (thread : T)
  | yield
  | finish
  deriving DecidableEq, Repr

-- A point inside kernel code. `restore` is the SetLevel(oldLevel) that ends an
-- operation and `ret` the return after it, with the level at the entry; `test` is
-- the loop of P; `sleep` the start of Sleep and `sleepLoop` its loop; `switched`
-- is where SWITCH returns in Run; `root` is ThreadRoot; `tick` and `ticking` are
-- OneTick and its loop; `idle` and `idling` are Idle and its loop.
inductive Frame (T L C S : Type) where
  | call (operation : Operation T L C S)
  | restore (oldLevel : IntStatus)
  | ret (operation : Operation T L C S) (entry : IntStatus)
  | test (s : S)
  | sleep (reason : Reason L C S)
  | sleepLoop (reason : Reason L C S)
  | switched (reason : Reason L C S)
  | root
  | tick
  | ticking
  | idle
  | idling
  deriving DecidableEq, Repr

inductive Event (T L C S : Type) where
  | returned (thread : T) (operation : Operation T L C S) (entry level : IntStatus)
  | enqueued (thread : T)
  | dispatched (thread : T) (level : IntStatus)
  | resumed (thread : T)
  | finished (thread : T)
  | deleted (thread : T)
  deriving DecidableEq, Repr

-- The ASSERTs of SetLevel, Sleep, CheckIfDue and ~Thread.
inductive Fault where
  | setLevel
  | sleep
  | checkIfDue
  | deletesCurrent
  deriving DecidableEq, Repr

-- What is left open: the next call of a thread's own code, and at each test for
-- due interrupts whether there is one, the Vs its handler does and whether it
-- asks for a context switch.
inductive Choice (T L C S : Type) where
  | call (operation : Operation T L C S)
  | setLevel (now : IntStatus)
  | oneTick
  | fire (raises : List S) (yieldOnReturn : Bool)
  | go
  deriving DecidableEq, Repr

end Cpu

-- `handler` is what the running interrupt handler has still to do. The log is kept
-- for the proofs, newest first.
structure Cpu (T L C S : Type) where
  level : IntStatus
  inHandler : Bool
  yieldOnReturn : Bool
  halted : Bool
  currentThread : T
  threadToBeDestroyed : Option T
  readyList : List T
  status : T → CpuStatus
  lock : L → Lock T
  condition : C → Condition T L
  semaphore : S → Semaphore T
  stack : T → List (Cpu.Frame T L C S)
  handler : List (Cpu.Frame T L C S)
  log : List (Cpu.Event T L C S)

namespace Cpu
variable [DecidableEq T] [DecidableEq L] [DecidableEq C] [DecidableEq S]

-- After Initialize: the main thread runs with interrupts on.
def initial (main : T) (initialValue : S → Int) : Cpu T L C S where
  level := .IntOn
  inHandler := false
  yieldOnReturn := false
  halted := false
  currentThread := main
  threadToBeDestroyed := none
  readyList := []
  status := Function.update (fun _ => .JUST_CREATED) main .RUNNING
  lock _ := .new
  condition _ := .new
  semaphore s := .new (initialValue s)
  stack _ := []
  handler := []
  log := []

-- Each operation gives the new state and the frames it leaves in front of the rest.
def setLevel (c : Cpu T L C S) (now : IntStatus) : Except Fault (Cpu T L C S × List (Frame T L C S)) :=
  if now = .IntOff ∨ c.inHandler = false then
    .ok ({c with level := now},if now = .IntOn ∧ c.level = .IntOff then [.tick] else [])
  else .error .setLevel

def readyToRun (c : Cpu T L C S) : Option T → Cpu T L C S
  | none => c
  | some thread => {c with
      status := Function.update c.status thread .READY
      readyList := c.readyList ++ [thread]
      log := .enqueued thread :: c.log}

-- Run up to SWITCH.
def run (c : Cpu T L C S) (nextThread : T) : Cpu T L C S :=
  {c with
    currentThread := nextThread
    status := Function.update c.status nextThread .RUNNING
    log := .dispatched nextThread c.level :: c.log}

-- An operation between its SetLevel(IntOff) and its SetLevel(oldLevel), up to the
-- next call of Sleep, Run or another operation.
def body (c : Cpu T L C S) : Operation T L C S → Cpu T L C S × List (Frame T L C S)
  | .p s => (c,[.test s])
  | .v s =>
    let (semaphore,thread) := (c.semaphore s).v
    (readyToRun {c with semaphore := Function.update c.semaphore s semaphore} thread,[])
  | .acquire l =>
    let (lock,sleeps) := (c.lock l).acquire c.currentThread
    ({c with lock := Function.update c.lock l lock},if sleeps then [.sleep (.waits (.lock l))] else [])
  | .release l =>
    let (lock,thread,_) := (c.lock l).release c.currentThread
    (readyToRun {c with lock := Function.update c.lock l lock} thread,[])
  | .wait d conditionLock => match (c.condition d).wait c.currentThread conditionLock with
    | (condition,.error _) => ({c with condition := Function.update c.condition d condition},[])
    | (condition,.ok l) => ({c with condition := Function.update c.condition d condition},
        [.call (.release l),.sleep (.waits (.condition d)),.call (.acquire l)])
  | .signal d conditionLock =>
    let (condition,thread,_) := (c.condition d).signal conditionLock
    (readyToRun {c with condition := Function.update c.condition d condition} thread,[])
  | .fork thread => (readyToRun {c with stack := Function.update c.stack thread [.root]} (some thread),[])
  | .yield => match c.readyList with
    | [] => (c,[])
    | nextThread :: rest =>
      (run (readyToRun {c with readyList := rest} (some c.currentThread)) nextThread,[.switched .yields])
  | .finish =>
    ({c with threadToBeDestroyed := some c.currentThread, log := .finished c.currentThread :: c.log},
      [.sleep .finishes])

-- Finish does not restore the level; it never returns.
def ending (operation : Operation T L C S) (oldLevel : IntStatus) : List (Frame T L C S) :=
  match operation with
  | .finish => []
  | _ => [.restore oldLevel,.ret operation oldLevel]

-- A call from its SetLevel(IntOff) on, whose ASSERT holds for every level.
def enter (c : Cpu T L C S) (operation : Operation T L C S) : Cpu T L C S × List (Frame T L C S) :=
  let (after,pushed) := body {c with level := .IntOff} operation
  (after,pushed ++ ending operation c.level)

-- CheckIfDue finds an interrupt: its handler gets control.
def fire (c : Cpu T L C S) (raises : List S) (yields : Bool) : Cpu T L C S :=
  {c with
    inHandler := true
    handler := raises.map fun s => .call (.v s)
    yieldOnReturn := c.yieldOnReturn || yields}

def exec (c : Cpu T L C S) (choice : Choice T L C S) :
    Frame T L C S → Except Fault (Cpu T L C S × List (Frame T L C S))
  | .call operation => .ok (c.enter operation)
  | .restore oldLevel => c.setLevel oldLevel
  | .ret operation entry => .ok ({c with log := .returned c.currentThread operation entry c.level :: c.log},[])
  | .test s =>
    let (semaphore,sleeps) := (c.semaphore s).p c.currentThread
    .ok ({c with semaphore := Function.update c.semaphore s semaphore},
      if sleeps then [.sleep (.waits (.semaphore s)),.test s] else [])
  | .sleep reason =>
    if c.level = .IntOff then
      .ok ({c with status := Function.update c.status c.currentThread .BLOCKED},[.sleepLoop reason])
    else .error .sleep
  | .sleepLoop reason => match c.readyList with
    | [] => .ok (c,[.idle,.sleepLoop reason])
    | nextThread :: rest => .ok (run {c with readyList := rest} nextThread,[.switched reason])
  | .switched _ => match c.threadToBeDestroyed with
    | none => .ok ({c with log := .resumed c.currentThread :: c.log},[])
    | some thread =>
      if thread = c.currentThread then .error .deletesCurrent
      else .ok ({c with
        threadToBeDestroyed := none
        log := .deleted thread :: .resumed c.currentThread :: c.log},[])
  | .root => c.setLevel .IntOn
  | .tick => .ok ({c with level := .IntOff},[.ticking])
  | .ticking =>
    if c.level ≠ .IntOff then .error .checkIfDue
    else match choice with
      | .fire raises yields => .ok (c.fire raises yields,[.ticking])
      | _ => .ok ({c with level := .IntOn, yieldOnReturn := false},if c.yieldOnReturn then [.call .yield] else [])
  | .idle =>
    if c.level ≠ .IntOff then .error .checkIfDue
    else match choice with
      | .fire raises yields => .ok (c.fire raises yields,[.idling])
      | _ => .ok ({c with halted := true},[.idle])
  | .idling =>
    if c.level ≠ .IntOff then .error .checkIfDue
    else match choice with
      | .fire raises yields => .ok (c.fire raises yields,[.idling])
      | _ => .ok ({c with yieldOnReturn := false},[])

-- A thread is forked once. A tick in the thread's own code is one of OneTick, by
-- the machine that runs user instructions.
def own (c : Cpu T L C S) : Choice T L C S → Except Fault (Cpu T L C S × List (Frame T L C S))
  | .call (.fork thread) => if c.status thread = .JUST_CREATED then .ok (c.enter (.fork thread)) else .ok (c,[])
  | .call operation => .ok (c.enter operation)
  | .setLevel now => c.setLevel now
  | .oneTick => .ok (c,if c.level = .IntOn then [.tick] else [])
  | .fire _ _ | .go => .ok (c,[])

def step (c : Cpu T L C S) (choice : Choice T L C S) : Except Fault (Cpu T L C S) :=
  if c.halted then .ok c
  else if c.inHandler then match c.handler with
    | [] => .ok {c with inHandler := false}
    | frame :: rest => do
      let (after,pushed) ← c.exec choice frame
      .ok {after with handler := pushed ++ rest}
  else match c.stack c.currentThread with
    | [] => do
      let (after,pushed) ← c.own choice
      .ok {after with stack := Function.update after.stack c.currentThread pushed}
    | frame :: rest => do
      let (after,pushed) ← c.exec choice frame
      .ok {after with stack := Function.update after.stack c.currentThread (pushed ++ rest)}

inductive Reached (main : T) (initialValue : S → Int) : Cpu T L C S → Prop where
  | initial : Reached main initialValue (initial main initialValue)
  | step : Reached main initialValue c → c.step choice = .ok after → Reached main initialValue after

def steps (c : Cpu T L C S) : List (Choice T L C S) → Except Fault (Cpu T L C S)
  | [] => .ok c
  | choice :: later => do
    let after ← c.step choice
    after.steps later

end Cpu
end Nachos
