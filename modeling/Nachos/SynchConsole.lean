import Nachos.ConsoleInput
import Nachos.Library.Completion
import Nachos.Machine

-- The synchronous console of synchconsole.cc over the device of console.cc. Any number of
-- threads write and read lines. The two interrupts of the device are threads of their own
-- here, and a thread that sleeps in P is one that has no step.
namespace Nachos.SynchConsole
open Monitor
open ConsoleInput (EOF)

inductive Mutex where
  | inputMutex
  | outputMutex
  deriving DecidableEq, Repr

inductive Call where
  | writeLine (line : List (BitVec 8))
  | readLine (size : Nat)
  deriving DecidableEq, Repr

-- What a thread outside calls next, if it does not finish, and what PollFile gives.
structure Input where
  call : Option Call
  typed : Bool
  deriving DecidableEq, Repr

inductive Agent (T : Type) where
  | thread (t : T)
  | consoleWriteDone
  | consoleReadPoll
  deriving DecidableEq, Repr

-- A call of WriteLine: at its Acquire, in front of the test of its loop with so many characters
-- put, in P and asleep there. A call of ReadLine: the same with what it has of the line, and
-- between P and GetChar. In P `again` says that the thread has slept there.
inductive Pc where
  | outside
  | writeEntering (line : List (BitVec 8))
  | writing (line : List (BitVec 8)) (put : Nat)
  | writeTesting (number : Nat) (line : List (BitVec 8)) (put : Nat)
  | writeAsleep (number : Nat) (line : List (BitVec 8)) (put : Nat)
  | readEntering (size : Nat)
  | reading (size : Nat) (line : List (BitVec 8))
  | readTesting (again : Bool) (size : Nat) (line : List (BitVec 8))
  | readAsleep (size : Nat) (line : List (BitVec 8))
  | readPassed (size : Nat) (line : List (BitVec 8))
  | ended
  deriving DecidableEq, Repr

inductive Event where
  | wrote (line : List (BitVec 8))
  | got (c : BitVec 8)
  | read (size : Nat) (line : List (BitVec 8))
  deriving DecidableEq, Repr

-- The ASSERT of PutChar, and the agents that cannot go on.
inductive Fault where
  | putBusy
  | asleep
  | noInterrupt
  | noInput
  | ended
  deriving DecidableEq, Repr

-- `display` is what has been written to the file of the display, `scheduled` are the PutChars
-- whose interrupt is pending.
structure State (T : Type) where
  putBusy : Bool
  display : List (BitVec 8)
  scheduled : List Nat
  putChars : Nat
  outputDone : Semaphore T
  incoming : BitVec 8
  keyboard : List (BitVec 8)
  inputAvailable : Semaphore T
  pc : T → Pc

def newline : BitVec 8 := 10

def putChar (s : State T) (c : BitVec 8) : Except Fault (State T) :=
  if s.putBusy then .error .putBusy
  else .ok {s with
    display := s.display ++ [c]
    putBusy := true
    scheduled := s.scheduled ++ [s.putChars]
    putChars := s.putChars + 1}

def Pc.woken : Pc → Pc
  | .writeAsleep number line put => .writeTesting number line put
  | .readAsleep size line => .readTesting true size line
  | pc => pc

section
variable [DecidableEq T]

-- A thread that V makes ready goes back to the test in P.
def wake (s : State T) : Option T → State T
  | none => s
  | some t => {s with pc := Function.update s.pc t (s.pc t).woken}

-- Console::WriteDone, with the V of SynchConsole::WriteDone.
def writeDone (s : State T) (rest : List Nat) : State T :=
  let (outputDone,thread) := s.outputDone.v
  wake {s with putBusy := false, scheduled := rest, outputDone} thread

-- PollFile is not true behind the last byte.
def checkCharAvail (s : State T) (typed : Bool) : Except Fault (State T) :=
  if s.incoming.toInt ≠ EOF ∨ typed = false then .ok s
  else match s.keyboard with
    | [] => .error .noInput
    | c :: rest =>
      let (inputAvailable,thread) := s.inputAvailable.v
      .ok (wake {s with incoming := c, keyboard := rest, inputAvailable} thread)

-- The loop counts the size down and moves the pointer up.
def writeLoop (s : State T) (t : T) (line : List (BitVec 8)) (put : Nat) :
    Except Fault (State T × Op Mutex Empty × List Event) :=
  match (line)[put]? with
  | none => .ok ({s with pc := Function.update s.pc t .outside},.release .outputMutex,[.wrote line])
  | some c => do
    let after ← putChar s c
    .ok ({after with pc := Function.update after.pc t (.writeTesting s.putChars line (put + 1))},.skip,[])

-- The local `c` is the last character of the line, and 0 before the first.
def readLoop (s : State T) (t : T) (size : Nat) (line : List (BitVec 8)) : State T × Op Mutex Empty × List Event :=
  if line.getLast? ≠ some newline ∧ line.length < size then
    ({s with pc := Function.update s.pc t (.readTesting false size line)},.skip,[])
  else ({s with pc := Function.update s.pc t .outside},.release .inputMutex,[.read size line])

def exec : Agent T → State T → Input → Except Fault (State T × Op Mutex Empty × List Event)
  | .consoleWriteDone,s,_ => match s.scheduled with
    | [] => .error .noInterrupt
    | _ :: rest => .ok (writeDone s rest,.skip,[])
  | .consoleReadPoll,s,input => do
    let after ← checkCharAvail s input.typed
    .ok (after,.skip,[])
  | .thread t,s,input => match s.pc t with
    | .outside => match input.call with
      | none => .ok ({s with pc := Function.update s.pc t .ended},.stop,[])
      | some (.writeLine line) => .ok ({s with pc := Function.update s.pc t (.writeEntering line)},.acquire .outputMutex,[])
      | some (.readLine size) => .ok ({s with pc := Function.update s.pc t (.readEntering size)},.acquire .inputMutex,[])
    | .writeEntering line => writeLoop s t line 0
    | .writing line put => writeLoop s t line put
    | .writeTesting number line put =>
      let (outputDone,sleeps) := s.outputDone.p t
      let pc := if sleeps then Pc.writeAsleep number line put else .writing line put
      .ok ({s with outputDone, pc := Function.update s.pc t pc},.skip,[])
    | .readEntering size => .ok (readLoop s t size [])
    | .reading size line => .ok (readLoop s t size line)
    | .readTesting _ size line =>
      let (inputAvailable,sleeps) := s.inputAvailable.p t
      let pc := if sleeps then Pc.readAsleep size line else .readPassed size line
      .ok ({s with inputAvailable, pc := Function.update s.pc t pc},.skip,[])
    -- GetChar
    | .readPassed size line =>
      .ok ({s with incoming := .ofInt 8 EOF, pc := Function.update s.pc t (.reading size (line ++ [s.incoming]))},.skip,
        [.got s.incoming])
    | .writeAsleep .. | .readAsleep .. => .error .asleep
    | .ended => .error .ended

def Pc.held : Pc → List Mutex
  | .outside | .ended => []
  | .writeEntering _ | .writing .. | .writeTesting .. | .writeAsleep .. => [.outputMutex]
  | .readEntering _ | .reading .. | .readTesting .. | .readAsleep .. | .readPassed .. => [.inputMutex]

def Pc.site : Pc → Site Mutex Empty
  | .writeEntering _ => .entering .outputMutex
  | .readEntering _ => .entering .inputMutex
  | .ended => .ended
  | _ => .free

def program (T : Type) [DecidableEq T] (stream : List (BitVec 8)) :
    Program (Agent T) Mutex Empty (State T) Input Event Fault where
  exec := exec
  initial := ⟨false,[],[],0,.new 0,.ofInt 8 EOF,stream,.new 0,fun _ => .outside⟩
  lockOf c := nomatch c
  held s := fun
    | .thread t => (s.pc t).held
    | .consoleWriteDone | .consoleReadPoll => []
  site s := fun
    | .thread t => (s.pc t).site
    | .consoleWriteDone | .consoleReadPoll => .free

-- In front of the test of a loop.
def Pc.WritesOn (pc : Pc) (line : List (BitVec 8)) (put : Nat) : Prop :=
  pc = .writing line put ∨ (pc = .writeEntering line ∧ put = 0)

def Pc.ReadsOn (pc : Pc) (size : Nat) (line : List (BitVec 8)) : Prop :=
  pc = .reading size line ∨ (pc = .readEntering size ∧ line = [])

-- What a step can do.
inductive Changes (s : State T) : Agent T → State T → Op Mutex Empty → List Event → Prop where
  | ends : s.pc t = .outside → Changes s (.thread t) {s with pc := Function.update s.pc t .ended} .stop []
  | writes : s.pc t = .outside →
      Changes s (.thread t) {s with pc := Function.update s.pc t (.writeEntering line)} (.acquire .outputMutex) []
  | reads : s.pc t = .outside →
      Changes s (.thread t) {s with pc := Function.update s.pc t (.readEntering size)} (.acquire .inputMutex) []
  | puts : (s.pc t).WritesOn line put → (line)[put]? = some c → s.putBusy = false →
      Changes s (.thread t) {s with
        display := s.display ++ [c]
        putBusy := true
        scheduled := s.scheduled ++ [s.putChars]
        putChars := s.putChars + 1
        pc := Function.update s.pc t (.writeTesting s.putChars line (put + 1))} .skip []
  | wrote : (s.pc t).WritesOn line put → (line)[put]? = none →
      Changes s (.thread t) {s with pc := Function.update s.pc t .outside} (.release .outputMutex) [.wrote line]
  | writeSleeps : s.pc t = .writeTesting number line put → s.outputDone.value = 0 →
      Changes s (.thread t) {s with
        outputDone := ⟨s.outputDone.value,s.outputDone.queue ++ [t]⟩
        pc := Function.update s.pc t (.writeAsleep number line put)} .skip []
  | writePasses : s.pc t = .writeTesting number line put → s.outputDone.value ≠ 0 →
      Changes s (.thread t) {s with
        outputDone := ⟨Signed.wrap 32 (s.outputDone.value - 1),s.outputDone.queue⟩
        pc := Function.update s.pc t (.writing line put)} .skip []
  | goesOn : (s.pc t).ReadsOn size line → line.getLast? ≠ some newline → line.length < size →
      Changes s (.thread t) {s with pc := Function.update s.pc t (.readTesting false size line)} .skip []
  | read : (s.pc t).ReadsOn size line → line.getLast? = some newline ∨ size ≤ line.length →
      Changes s (.thread t) {s with pc := Function.update s.pc t .outside} (.release .inputMutex) [.read size line]
  | readSleeps : s.pc t = .readTesting again size line → s.inputAvailable.value = 0 →
      Changes s (.thread t) {s with
        inputAvailable := ⟨s.inputAvailable.value,s.inputAvailable.queue ++ [t]⟩
        pc := Function.update s.pc t (.readAsleep size line)} .skip []
  | readPasses : s.pc t = .readTesting again size line → s.inputAvailable.value ≠ 0 →
      Changes s (.thread t) {s with
        inputAvailable := ⟨Signed.wrap 32 (s.inputAvailable.value - 1),s.inputAvailable.queue⟩
        pc := Function.update s.pc t (.readPassed size line)} .skip []
  | gets : s.pc t = .readPassed size line →
      Changes s (.thread t) {s with
        incoming := .ofInt 8 EOF
        pc := Function.update s.pc t (.reading size (line ++ [s.incoming]))} .skip [.got s.incoming]
  | done : s.scheduled = number :: rest → Changes s .consoleWriteDone (writeDone s rest) .skip []
  | quiet : Changes s .consoleReadPoll s .skip []
  | arrives : s.incoming.toInt = EOF → s.keyboard = c :: rest →
      Changes s .consoleReadPoll (wake {s with
        incoming := c
        keyboard := rest
        inputAvailable := s.inputAvailable.v.1} s.inputAvailable.v.2) .skip []

theorem writeLoop_changes {s s' : State T} (place : (s.pc t).WritesOn line put)
    (ran : writeLoop s t line put = .ok (s',op,events)) : Changes s (.thread t) s' op events := by
  unfold writeLoop at ran
  split at ran
  · rename_i last
    cases ran
    exact .wrote place last
  · rename_i c more
    obtain ⟨after,shown,result⟩ := bind_ok ran
    simp only [putChar] at shown
    split at shown
    · cases shown
    · rename_i idle
      cases shown
      cases result
      exact .puts place more (by simpa using idle)

theorem readLoop_changes {s s' : State T} (place : (s.pc t).ReadsOn size line)
    (ran : readLoop s t size line = (s',op,events)) : Changes s (.thread t) s' op events := by
  unfold readLoop at ran
  split at ran
  · rename_i goes
    cases ran
    exact .goesOn place goes.1 goes.2
  · rename_i stops
    cases ran
    refine .read place ?_
    rw [not_and_or,not_not,not_lt] at stops
    exact stops

theorem exec_changes {s s' : State T} (executed : exec agent s input = .ok (s',op,events)) :
    Changes s agent s' op events := by
  cases agent with
  | consoleWriteDone =>
    simp only [exec] at executed
    split at executed
    · cases executed
    · rename_i number rest waiting
      cases executed
      exact .done waiting
  | consoleReadPoll =>
    obtain ⟨after,checked,result⟩ := bind_ok executed
    cases result
    simp only [checkCharAvail] at checked
    split at checked
    · cases checked
      exact .quiet
    · rename_i room
      rw [not_or,not_not] at room
      split at checked
      · cases checked
      · rename_i c rest more
        cases checked
        exact .arrives room.1 more
  | thread t =>
    simp only [exec] at executed
    split at executed
    · rename_i place
      split at executed
      · cases executed
        exact .ends place
      · cases executed
        exact .writes place
      · cases executed
        exact .reads place
    · rename_i line place
      exact writeLoop_changes (.inr ⟨place,rfl⟩) executed
    · rename_i line put place
      exact writeLoop_changes (.inl place) executed
    · rename_i number line put place
      by_cases empty : s.outputDone.value = 0
      · rw [Semaphore.p,if_pos empty] at executed
        cases executed
        exact .writeSleeps place empty
      · rw [Semaphore.p,if_neg empty] at executed
        cases executed
        exact .writePasses place empty
    · rename_i size place
      exact readLoop_changes (.inr ⟨place,rfl⟩) (Except.ok.inj executed)
    · rename_i size line place
      exact readLoop_changes (.inl place) (Except.ok.inj executed)
    · rename_i again size line place
      by_cases empty : s.inputAvailable.value = 0
      · rw [Semaphore.p,if_pos empty] at executed
        cases executed
        exact .readSleeps place empty
      · rw [Semaphore.p,if_neg empty] at executed
        cases executed
        exact .readPasses place empty
    · rename_i size line place
      cases executed
      exact .gets place
    · cases executed
    · cases executed
    · cases executed

-- Only a writer in front of PutChar can meet its ASSERT.
theorem exec_putBusy {s : State T} (failed : exec (.thread t) s input = .error .putBusy) :
    ∃ line put, (s.pc t).WritesOn line put ∧ s.putBusy = true := by
  have loop : ∀ line put, writeLoop s t line put = .error .putBusy → s.putBusy = true := by
    intro line put failed
    by_contra idle
    simp only [writeLoop,putChar,if_neg idle] at failed
    split at failed <;> cases failed
  simp only [exec] at failed
  split at failed
  · split at failed <;> cases failed
  · rename_i line place
    exact ⟨line,0,.inr ⟨place,rfl⟩,loop _ _ failed⟩
  · rename_i line put place
    exact ⟨line,put,.inl place,loop _ _ failed⟩
  all_goals cases failed

@[simp] theorem woken_held (pc : Pc) : pc.woken.held = pc.held := by cases pc <;> rfl

@[simp] theorem woken_site (pc : Pc) : pc.woken.site = pc.site := by cases pc <;> rfl

-- V changes no thread's claim on a lock.
theorem wake_pc (s : State T) (thread : Option T) (u : T) :
    ((wake s thread).pc u).held = (s.pc u).held ∧ ((wake s thread).pc u).site = (s.pc u).site := by
  cases thread with
  | none => exact ⟨rfl,rfl⟩
  | some t =>
    by_cases same : u = t
    · subst same; simp [wake]
    · simp [wake,same]

theorem disciplined (T : Type) [DecidableEq T] (stream : List (BitVec 8)) : (program T stream).Disciplined := by
  refine ⟨?_,?_,?_⟩
  · intro agent
    cases agent <;> exact ⟨rfl,rfl⟩
  · intro agent s input s' op events other executed differs
    cases exec_changes executed with
    | done | arrives =>
      cases other with
      | thread u => exact wake_pc _ _ u
      | consoleWriteDone | consoleReadPoll => exact ⟨rfl,rfl⟩
    | quiet => exact ⟨rfl,rfl⟩
    | ends | writes | reads | puts | wrote | writeSleeps | writePasses | goesOn | read | readSleeps | readPasses | gets =>
      cases other with
      | thread u =>
        have apart := fun same => differs (congrArg Agent.thread same)
        simp [program,Function.update_of_ne apart]
      | consoleWriteDone | consoleReadPoll => exact ⟨rfl,rfl⟩
  · intro agent s input s' op events executed going
    cases exec_changes executed with
    | ends place => exact .stop (by simp [program,place,Pc.held]) (by simp [program,Pc.held]) (by simp [program,Pc.site])
    | writes place | reads place =>
      exact .acquire (by simp [program,place,Pc.held]) (by simp [program,place,Pc.held]) (by simp [program,Pc.site])
    | puts place | goesOn place =>
      rcases place with place | ⟨place,_⟩ <;>
        exact .skip (by simp [program,place,Pc.held]) (by simp [program,Pc.site])
    | writeSleeps place | writePasses place | readSleeps place | readPasses place | gets place =>
      exact .skip (by simp [program,place,Pc.held]) (by simp [program,Pc.site])
    | wrote place | read place =>
      rcases place with place | ⟨place,_⟩ <;>
        exact .release (by simp [program,place,Pc.held]) (by simp [program,place,Pc.held]) (by simp [program,Pc.site])
    | done | quiet | arrives => exact .skip rfl rfl

end
end Nachos.SynchConsole
