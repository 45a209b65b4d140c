import Nachos.ConsoleInput
import Nachos.Library.Monitor

-- ConsoleTest of progtest.cc: one thread that puts on the display what it gets from the
-- keyboard, up to the first q.
namespace Nachos.ConsoleTest
open Monitor
open ConsoleInput (EOF Kept Rests Clean announced)

def q : BitVec 8 := 0x71

-- In the loop: at readAvail->P and at GetChar, at PutChar, at writeDone->P, behind it.
inductive Pc where
  | reads
  | puts (ch : BitVec 8)
  | waits (ch : BitVec 8)
  | tests (ch : BitVec 8)
  | returned
  deriving DecidableEq, Repr

-- `input` is the keyboard with readAvail, `writeDone` the other semaphore, each with where the
-- one thread is in its P. `scheduled` counts the PutChars whose interrupt is pending.
structure State where
  input : ConsoleInput.State
  writeDone : Semaphores Unit Unit
  putBusy : Bool
  scheduled : Nat
  display : List (BitVec 8)
  pc : Pc

def initial (stream : List (BitVec 8)) : State :=
  ⟨ConsoleInput.initial stream,.initial fun _ => 0,false,0,[],.reads⟩

-- A poll, P of readAvail, the return of a Sleep in it and GetChar; PutChar; the same for
-- writeDone; Console::WriteDone; and the test for q.
inductive Action where
  | input (action : ConsoleInput.Action)
  | putChar
  | p
  | resume
  | consoleWriteDone
  | test
  deriving DecidableEq, Repr

-- The ASSERT of PutChar, and the steps that are not possible.
inductive Fault where
  | putBusy
  | notNow
  deriving DecidableEq, Repr

def polls : ConsoleInput.Action → Bool
  | .poll _ => true
  | .p | .resume | .getChar => false

-- P on writeDone, which may sleep.
def waitsOn (s : State) (ch : BitVec 8) : Option (Semaphores Unit Unit) → Except Fault State
  | none => .error .notNow
  | some writeDone => .ok {s with writeDone, pc := if writeDone.inside () = none then .tests ch else .waits ch}

def step (s : State) : Action → Except Fault State
  | .input action =>
    if polls action = false ∧ s.pc ≠ .reads then .error .notNow
    else match ConsoleInput.step s.input action with
      | none => .error .notNow
      | some input => .ok {s with input, pc := if action = .getChar then .puts s.input.incoming else s.pc}
  | .putChar => match s.pc with
    | .puts ch =>
      if s.putBusy then .error .putBusy
      else .ok {s with display := s.display ++ [ch], putBusy := true, scheduled := s.scheduled + 1, pc := .waits ch}
    | .reads | .waits _ | .tests _ | .returned => .error .notNow
  | .p => match s.pc with
    | .waits ch => waitsOn s ch (s.writeDone.step (.p () ()))
    | .reads | .puts _ | .tests _ | .returned => .error .notNow
  | .resume => match s.pc with
    | .waits ch => waitsOn s ch (s.writeDone.step (.resume ()))
    | .reads | .puts _ | .tests _ | .returned => .error .notNow
  | .consoleWriteDone => match s.scheduled with
    | 0 => .error .notNow
    | left + 1 => .ok {s with putBusy := false, scheduled := left, writeDone := s.writeDone.v ()}
  | .test => match s.pc with
    | .tests ch => .ok {s with pc := if ch = q then .returned else .reads}
    | .reads | .puts _ | .waits _ | .returned => .error .notNow

def run (s : State) : List Action → Except Fault State
  | [] => .ok s
  | action :: later => do
    let after ← step s action
    run after later

inductive Reached (stream : List (BitVec 8)) : State → Prop where
  | initial : Reached stream (initial stream)
  | step {s after : State} {action : Action} : Reached stream s → step s action = .ok after → Reached stream after

-- Nothing is left to do but polls, and those find nothing that there is room for.
structure Resting (s : State) : Prop where
  steps : ∀ action, (∀ typed, action ≠ .input (.poll typed)) → (step s action).isOk = false
  polls : s.input.incoming.toInt = EOF → s.input.file = []

-- What is to be on the display in the end.
def echoed : List (BitVec 8) → List (BitVec 8)
  | [] => []
  | ch :: rest => if ch = q then [ch] else ch :: echoed rest

theorem echoed_append {before : List (BitVec 8)} (none : q ∉ before) (rest : List (BitVec 8)) :
    echoed (before ++ rest) = before ++ echoed rest := by
  induction before with
  | nil => rfl
  | cons ch before ih =>
    simp only [List.mem_cons,not_or] at none
    rw [List.cons_append,echoed,if_neg (Ne.symm none.1),ih none.2,List.cons_append]

-- What is on the display ends with the first q or has none.
def Ends (display : List (BitVec 8)) (ch : BitVec 8) : Prop := ∃ before, display = before ++ [ch] ∧ q ∉ before

-- The display and the device at each place of the loop.
def Place (s : State) : Prop :=
  let units := (s.writeDone.semaphore ()).value
  match s.pc with
  | .reads => s.display = s.input.got ∧ q ∉ s.display ∧ units = 0 ∧ s.scheduled = 0
  | .puts ch => s.input.got = s.display ++ [ch] ∧ q ∉ s.display ∧ units = 0 ∧ s.scheduled = 0
  | .waits ch => s.display = s.input.got ∧ Ends s.display ch ∧ 0 ≤ units ∧ units + s.scheduled = 1
  | .tests ch => s.display = s.input.got ∧ Ends s.display ch ∧ units = 0 ∧ s.scheduled = 0
  | .returned => s.display = s.input.got ∧ Ends s.display q ∧ units = 0 ∧ s.scheduled = 0

structure Echoes (stream : List (BitVec 8)) (s : State) : Prop where
  kept : ∃ n, Kept stream s.input n
  rests : Rests s.writeDone
  busy : s.putBusy = true ↔ s.scheduled ≠ 0
  place : Place s

section
variable {stream : List (BitVec 8)} {s after : State} {action : Action} {ch : BitVec 8}

theorem initial_echoes (stream : List (BitVec 8)) : Echoes stream (initial stream) := by
  refine ⟨⟨0,ConsoleInput.initial_kept stream⟩,ConsoleInput.initial_rests,by simp [initial],?_⟩
  simp [Place,initial,ConsoleInput.initial,Semaphores.initial,Semaphore.new]

-- Steps of the reader other than GetChar give nothing to the program.
theorem input_got {i j : ConsoleInput.State} {action : ConsoleInput.Action} (stepped : ConsoleInput.step i action = some j) :
    j.got = if action = .getChar then i.got ++ [i.incoming] else i.got := by
  cases action with
  | poll typed =>
    simp only [ConsoleInput.step,ConsoleInput.CheckCharAvail] at stepped
    split at stepped
    · cases stepped
      rfl
    · split at stepped <;> cases stepped
      rfl
  | p =>
    simp only [ConsoleInput.step] at stepped
    split at stepped
    · cases stepped
    · obtain ⟨k,_,same⟩ := Option.bind_eq_some_iff.mp stepped
      cases same
      rfl
  | resume =>
    simp only [ConsoleInput.step] at stepped
    obtain ⟨k,_,same⟩ := Option.bind_eq_some_iff.mp stepped
    cases same
    rfl
  | getChar =>
    simp only [ConsoleInput.step] at stepped
    split at stepped <;> cases stepped
    rfl

theorem input_echoes (clean : Clean stream) (echoes : Echoes stream s) {action : ConsoleInput.Action}
    (stepped : step s (.input action) = .ok after) : Echoes stream after := by
  obtain ⟨⟨n,kept⟩,rests,busy,place⟩ := echoes
  simp only [step] at stepped
  split at stepped
  · cases stepped
  · rename_i here
    split at stepped <;> cases stepped
    rename_i input moved
    refine ⟨ConsoleInput.step_kept clean kept moved,rests,busy,?_⟩
    have got := input_got moved
    by_cases gets : action = .getChar
    · subst gets
      have reads : s.pc = .reads := by simpa [polls] using here
      rw [if_pos rfl] at got
      simp only [Place,reads] at place
      simp only [Place,if_true,got]
      exact ⟨by rw [place.1],place.2⟩
    · rw [if_neg gets] at got
      simp only [if_neg gets]
      simpa only [Place,got] using place

-- P on writeDone passes where the interrupt has come.
theorem waitsOn_echoes (echoes : Echoes stream s) (waits : s.pc = .waits ch) (ready : s.writeDone.status () = .READY)
    (passed : waitsOn s ch (some (s.writeDone.p () ())) = .ok after) : Echoes stream after := by
  obtain ⟨kept,rests,busy,place⟩ := echoes
  cases passed
  simp only [Place,waits] at place
  obtain ⟨shown,ends,nonneg,units⟩ := place
  obtain ⟨still,⟨free,_,positive,less⟩ | ⟨asleep,_,same⟩⟩ := ConsoleInput.p_value rests ready
  · refine ⟨kept,still,busy,?_⟩
    have one : (s.writeDone.semaphore ()).value = 1 := by omega
    rw [one] at less
    simp only [Place,if_pos free,less]
    exact ⟨shown,ends,rfl,by omega⟩
  · refine ⟨kept,still,busy,?_⟩
    simp only [Place,asleep,reduceCtorEq,if_false,same]
    exact ⟨shown,ends,nonneg,units⟩

theorem step_echoes (clean : Clean stream) (echoes : Echoes stream s) (stepped : step s action = .ok after) :
    Echoes stream after := by
  cases action with
  | input action => exact input_echoes clean echoes stepped
  | putChar =>
    obtain ⟨kept,rests,busy,place⟩ := echoes
    simp only [step] at stepped
    split at stepped
    · rename_i ch puts
      split at stepped
      · cases stepped
      · cases stepped
        simp only [Place,puts] at place
        obtain ⟨got,none,units,idle⟩ := place
        refine ⟨kept,rests,by simp,?_⟩
        simp only [Place,units,idle]
        exact ⟨got.symm,⟨s.display,rfl,none⟩,le_rfl,rfl⟩
    all_goals cases stepped
  | p =>
    simp only [step] at stepped
    split at stepped
    · rename_i ch waits
      simp only [Semaphores.step] at stepped
      split at stepped
      · rename_i ready
        exact waitsOn_echoes echoes waits ready.1 stepped
      · cases stepped
    all_goals cases stepped
  | resume =>
    simp only [step] at stepped
    split at stepped
    · rename_i ch waits
      simp only [Semaphores.step] at stepped
      split at stepped
      · cases stepped
      · split at stepped
        · rename_i ready
          exact waitsOn_echoes echoes waits ready stepped
        · cases stepped
    all_goals cases stepped
  | consoleWriteDone =>
    obtain ⟨kept,rests,busy,place⟩ := echoes
    simp only [step] at stepped
    split at stepped
    · cases stepped
    · rename_i left pending
      cases stepped
      obtain ⟨still,_,_,raised⟩ := ConsoleInput.v_value rests
      simp only [Place,pending] at place
      -- An interrupt is pending only where the program waits for it.
      cases pc : s.pc with
      | waits ch =>
        simp only [pc] at place
        obtain ⟨shown,ends,nonneg,units⟩ := place
        have zero : (s.writeDone.semaphore ()).value = 0 := by omega
        obtain rfl : left = 0 := by omega
        rw [zero] at raised
        refine ⟨kept,still,by simp,?_⟩
        simp only [Place,raised]
        exact ⟨shown,ends,by decide,rfl⟩
      | reads | puts | tests | returned =>
        simp only [pc] at place
        omega
  | test =>
    obtain ⟨kept,rests,busy,place⟩ := echoes
    simp only [step] at stepped
    split at stepped
    · rename_i ch tests
      cases stepped
      simp only [Place,tests] at place
      obtain ⟨shown,⟨before,ends,none⟩,units,idle⟩ := place
      refine ⟨kept,rests,busy,?_⟩
      by_cases quits : ch = q
      · simp only [Place,if_pos quits]
        exact ⟨shown,⟨before,quits ▸ ends,none⟩,units,idle⟩
      · simp only [Place,if_neg quits]
        refine ⟨shown,?_,units,idle⟩
        rw [ends,List.mem_append,List.mem_singleton,not_or]
        exact ⟨none,Ne.symm quits⟩
    all_goals cases stepped

theorem reached_echoes (clean : Clean stream) (reached : Reached stream s) : Echoes stream s := by
  induction reached with
  | initial => exact initial_echoes stream
  | step _ stepped ih => exact step_echoes clean ih stepped

theorem Ends.echoed {display rest : List (BitVec 8)} (ends : Ends display ch) :
    display <+: echoed (display ++ rest) ∧ (ch = q → display = ConsoleTest.echoed (display ++ rest)) := by
  obtain ⟨before,rfl,none⟩ := ends
  rw [List.append_assoc,echoed_append none,List.singleton_append,ConsoleTest.echoed]
  refine ⟨?_,fun quits => by rw [if_pos quits]⟩
  split
  · exact List.prefix_rfl
  · exact ⟨ConsoleTest.echoed rest,by simp⟩

-- The display and what is still to come make up the stream.
theorem Echoes.rest (echoes : Echoes stream s) : ∃ rest, s.input.got ++ rest = stream := by
  obtain ⟨n,kept⟩ := echoes.kept
  exact ⟨announced s.input n ++ s.input.file,by rw [← List.append_assoc,kept.chars]⟩

theorem Echoes.prefix_ (echoes : Echoes stream s) : s.display <+: echoed stream := by
  obtain ⟨rest,whole⟩ := echoes.rest
  have place := echoes.place
  simp only [Place] at place
  split at place
  · obtain ⟨shown,none,_⟩ := place
    rw [← whole,← shown,echoed_append none]
    exact List.prefix_append _ _
  · obtain ⟨got,none,_⟩ := place
    rw [← whole,got,List.append_assoc,echoed_append none]
    exact List.prefix_append _ _
  all_goals
    obtain ⟨shown,ends,_⟩ := place
    rw [← whole,← shown]
    exact ends.echoed.1

theorem Echoes.returned (echoes : Echoes stream s) (done : s.pc = .returned) : s.display = echoed stream ∧ q ∈ stream := by
  obtain ⟨rest,whole⟩ := echoes.rest
  have place := echoes.place
  simp only [Place,done] at place
  obtain ⟨shown,ends,_⟩ := place
  refine ⟨?_,?_⟩
  · rw [← whole,← shown]
    exact ends.echoed.2 rfl
  · obtain ⟨before,display,_⟩ := ends
    rw [← whole,← shown,display]
    simp

-- In front of P and GetChar it only rests asleep in P.
theorem Resting.asleep (resting : Resting s) (pc : s.pc = .reads) :
    s.input.passed = false ∧ s.input.kernel.status () = .BLOCKED := by
  have still := resting.steps
  cases passed : s.input.passed with
  | true =>
    have stuck := still (.input .getChar) (by simp)
    simp only [step,pc,ne_eq,not_true_eq_false,and_false,if_false,ConsoleInput.step,passed,if_true] at stuck
    cases stuck
  | false =>
    refine ⟨rfl,?_⟩
    cases status : s.input.kernel.status () with
    | BLOCKED => rfl
    | READY =>
      cases inside : s.input.kernel.inside () with
      | none =>
        have stuck := still (.input .p) (by simp)
        simp only [step,pc,ne_eq,not_true_eq_false,and_false,if_false,ConsoleInput.step,passed,Bool.false_eq_true,
          Semaphores.step,status,inside,and_self,if_true,Option.bind_eq_bind,Option.bind_some] at stuck
        cases stuck
      | some _ =>
        have stuck := still (.input .resume) (by simp)
        simp only [step,pc,ne_eq,not_true_eq_false,and_false,if_false,ConsoleInput.step,
          Semaphores.step,status,inside,if_true,Option.bind_eq_bind,Option.bind_some] at stuck
        cases stuck

-- At rest the program has returned, or sleeps in front of a keyboard with nothing more.
theorem Echoes.rested (clean : Clean stream) (echoes : Echoes stream s) (resting : Resting s) :
    s.pc = .returned ∨ (s.display = stream ∧ q ∉ stream) := by
  obtain ⟨⟨n,kept⟩,rests,busy,place⟩ := echoes
  have still := resting.steps
  simp only [Place] at place
  cases pc : s.pc with
  | returned => exact .inl rfl
  | tests ch =>
    have stuck := still .test (by simp)
    simp only [step,pc] at stuck
    cases stuck
  | puts ch =>
    simp only [pc] at place
    have idle : s.putBusy = false := by
      cases on : s.putBusy with
      | false => rfl
      | true => exact absurd place.2.2.2 (busy.mp on)
    have stuck := still .putChar (by simp)
    simp only [step,pc,idle,Bool.false_eq_true,if_false] at stuck
    cases stuck
  | waits ch =>
    simp only [pc] at place
    cases status : s.writeDone.status () with
    | READY =>
      cases inside : s.writeDone.inside () with
      | none =>
        have stuck := still .p (by simp)
        simp only [step,pc,Semaphores.step,status,inside,and_self,if_true,waitsOn] at stuck
        cases stuck
      | some _ =>
        have stuck := still .resume (by simp)
        simp only [step,pc,Semaphores.step,status,inside,if_true,waitsOn] at stuck
        cases stuck
    | BLOCKED =>
      have none := (rests.asleep status).1
      obtain ⟨left,pending⟩ : ∃ left, s.scheduled = left + 1 := ⟨0,by omega⟩
      have stuck := still .consoleWriteDone (by simp)
      simp only [step,pending] at stuck
      cases stuck
  | reads =>
    simp only [pc] at place
    obtain ⟨shown,none,_⟩ := place
    have asleep := resting.asleep pc
    obtain rfl := ConsoleInput.kept_empty clean kept asleep.1 (kept.rests.asleep asleep.2).1
    have empty : s.input.incoming = 0xff := by
      by_contra there
      exact absurd (kept.one there) (by decide)
    have chars := kept.chars
    rw [announced,if_pos empty,List.replicate_zero,List.append_nil,
      resting.polls ((ConsoleInput.empty_iff _).mpr empty),List.append_nil,← shown] at chars
    exact .inr ⟨chars,chars ▸ none⟩

end

-- Whatever the polls and interrupts do, no PutChar finds the display busy, the display shows
-- the beginning of what was typed and no more than up to the first q, and at rest all of it.
theorem console_echoes {stream : List (BitVec 8)} {s : State} (clean : Clean stream) (reached : Reached stream s) :
    (∀ action, step s action ≠ .error .putBusy) ∧ s.display <+: echoed stream ∧
    (s.pc = .returned → s.display = echoed stream ∧ q ∈ stream) ∧
    (Resting s → s.display = echoed stream ∧ (s.pc = .returned ↔ q ∈ stream)) := by
  have echoes := reached_echoes clean reached
  refine ⟨?_,echoes.prefix_,echoes.returned,?_⟩
  · intro action failed
    have place := echoes.place
    have busy := echoes.busy
    cases action with
    | putChar =>
      simp only [step] at failed
      split at failed
      · rename_i ch puts
        simp only [Place,puts] at place
        split at failed
        · rename_i on
          exact busy.mp on place.2.2.2
        · cases failed
      all_goals cases failed
    | input action =>
      simp only [step] at failed
      split at failed
      · cases failed
      · split at failed <;> cases failed
    | p | resume =>
      simp only [step] at failed
      split at failed
      · unfold waitsOn at failed
        split at failed <;> cases failed
      all_goals cases failed
    | consoleWriteDone | test =>
      simp only [step] at failed
      split at failed <;> cases failed
  · intro resting
    rcases echoes.rested clean resting with done | ⟨whole,none⟩
    · exact ⟨(echoes.returned done).1,iff_of_true done (echoes.returned done).2⟩
    · refine ⟨?_,iff_of_false (fun done => none (echoes.returned done).2) none⟩
      have same := echoed_append none []
      rw [List.append_nil] at same
      rw [whole,same,echoed,List.append_nil]

theorem run_reached {stream : List (BitVec 8)} {s after : State} (reached : Reached stream s) (actions : List Action)
    (ran : run s actions = .ok after) : Reached stream after := by
  induction actions generalizing s with
  | nil =>
    cases ran
    exact reached
  | cons action later ih =>
    obtain ⟨middle,stepped,rest⟩ := bind_ok ran
    exact ih (reached.step stepped) rest

-- An a and a q are typed, and a b behind them that is not read.
def typed : List (BitVec 8) := [0x61,q,0x62]

def echo : List Action :=
  [.input (.poll true),.input .p,.input .getChar,.putChar,.input (.poll true),.p,.consoleWriteDone,.resume,.test,
    .input .p,.input .getChar,.putChar,.consoleWriteDone,.p,.test]

theorem console_echoes_typed : ∃ s, run (initial typed) echo = .ok s ∧ s.display = [0x61,q] ∧ s.display = echoed typed := by
  have found : (run (initial typed) echo).toOption.map (fun s => (s.pc,s.display)) = some (.returned,[0x61,q]) := by decide
  have clean : Clean typed := ConsoleInput.clean_without (by decide)
  cases ran : run (initial typed) echo with
  | error fault =>
    rw [ran] at found
    cases found
  | ok s =>
    rw [ran] at found
    obtain ⟨done,shown⟩ := Prod.mk.inj (Option.some.inj found)
    exact ⟨s,rfl,shown,((console_echoes clean (run_reached .initial echo ran)).2.2.1 done).1⟩

end Nachos.ConsoleTest
