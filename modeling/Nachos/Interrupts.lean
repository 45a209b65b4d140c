import Nachos.Library.Agenda
import Mathlib.Order.Defs.LinearOrder
import Mathlib.Data.Int.Order.Basic

-- The simulated interrupt hardware of interrupt.cc with the clock of stats.h. The
-- times are int64_t there and integers here: no run gets near the end of the
-- range. One step is the code up to the call of a handler, one call that a
-- handler makes, or the code after a handler returns.
namespace Nachos
open Agenda

inductive IntStatus where
  | IntOff
  | IntOn
  deriving DecidableEq, Repr

inductive MachineStatus where
  | IdleMode
  | SystemMode
  | UserMode
  deriving DecidableEq, Repr

inductive IntType where
  | TimerInt
  | DiskInt
  | ConsoleWriteInt
  | ConsoleReadInt
  | NetworkSendInt
  | NetworkRecvInt
  deriving DecidableEq, Repr

-- `serial` tells apart the objects that the calls of Schedule allocate.
structure PendingInterrupt (H : Type) where
  handler : H
  arg : Int
  when : Int
  type : IntType
  serial : Nat
  deriving DecidableEq, Repr

-- What a handler asks of the hardware while it runs.
inductive Interrupt.Request (H : Type) where
  | schedule (handler : H) (arg : Int) (fromNow : Int) (type : IntType)
  | setLevel (now : IntStatus)
  | yieldOnReturn
  deriving DecidableEq, Repr

-- The loop over CheckIfDue(FALSE) that a handler was called from, and so the
-- place it returns to. OneTick keeps the status it started with.
inductive Interrupt.Loop where
  | oneTick (old : MachineStatus)
  | idle
  deriving DecidableEq, Repr

-- Where the simulation is: outside, about to call CheckIfDue(FALSE), inside the
-- handler that CheckIfDue called (with the status CheckIfDue will restore and
-- what the handler has still to ask for), or stopped by Halt.
inductive Interrupt.Phase (H : Type) where
  | outside
  | looping (loop : Loop)
  | handling (loop : Loop) (old : MachineStatus) (rest : List (Request H))
  | halted
  deriving DecidableEq, Repr

-- A call of a handler, with the clock at that moment.
structure Interrupt.Invocation (H : Type) where
  toOccur : PendingInterrupt H
  ticks : Int
  deriving DecidableEq, Repr

-- `scheduled` and `invoked` are kept for the proofs, newest first.
structure Interrupt (H : Type) where
  level : IntStatus
  pending : List (PendingInterrupt H)
  inHandler : Bool
  yieldOnReturn : Bool
  status : MachineStatus
  totalTicks : Int
  idleTicks : Int
  systemTicks : Int
  userTicks : Int
  phase : Interrupt.Phase H
  scheduled : List (PendingInterrupt H)
  invoked : List (Interrupt.Invocation H)
  deriving DecidableEq, Repr

def UserTick : Int := 1
def SystemTick : Int := 10

namespace Interrupt

def initial : Interrupt H :=
  ⟨.IntOff,[],false,false,.SystemMode,0,0,0,0,.outside,[],[]⟩

-- A failed ASSERT is `none`: it ends the run.
def schedule (s : Interrupt H) (handler : H) (arg : Int) (fromNow : Int) (type : IntType) : Option (Interrupt H) :=
  if 0 < fromNow then
    let toOccur : PendingInterrupt H := ⟨handler,arg,s.totalTicks + fromNow,type,s.scheduled.length⟩
    some {s with
      pending := sortedInsert PendingInterrupt.when toOccur s.pending
      scheduled := toOccur :: s.scheduled}
  else none

-- OneTick up to its loop.
def oneTick (s : Interrupt H) : Interrupt H :=
  let ticked := match s.status with
    | .SystemMode =>
      {s with totalTicks := s.totalTicks + SystemTick, systemTicks := s.systemTicks + SystemTick}
    | _ => {s with totalTicks := s.totalTicks + UserTick, userTicks := s.userTicks + UserTick}
  {ticked with level := .IntOff, phase := .looping (.oneTick s.status)}

def setLevel (s : Interrupt H) (now : IntStatus) : Option (Interrupt H) :=
  if now = .IntOff ∨ s.inHandler = false then
    let changed := {s with level := now}
    if now = .IntOn ∧ s.level = .IntOff then some changed.oneTick else some changed
  else none

-- The idle machine's clock jumps to the next interrupt.
def advance (s : Interrupt H) (advanceClock : Bool) (when : Int) : Interrupt H :=
  if advanceClock = true ∧ s.totalTicks < when then
    {s with idleTicks := s.idleTicks + (when - s.totalTicks), totalTicks := when}
  else s

-- CheckIfDue up to the call of the handler. With it comes the interrupt to
-- invoke, or nothing where the source returns FALSE.
def checkIfDue (s : Interrupt H) (advanceClock : Bool) : Option (Interrupt H × Option (PendingInterrupt H)) :=
  if s.level ≠ .IntOff then none
  else match s.pending with
    | [] => some (s,none)
    | toOccur :: rest =>
      let putBack (s : Interrupt H) := {s with pending := sortedInsert PendingInterrupt.when toOccur rest}
      if advanceClock = false ∧ s.totalTicks < toOccur.when then some (putBack s,none)
      else
        let s := s.advance advanceClock toOccur.when
        if s.status = .IdleMode ∧ toOccur.type = .TimerInt ∧ rest = [] then some (putBack s,none)
        else some ({s with
          pending := rest
          inHandler := true
          status := .SystemMode
          invoked := ⟨toOccur,s.totalTicks⟩ :: s.invoked},some toOccur)

-- What each handler does: by its argument and by how many invocations there were.
abbrev Behaviour (H : Type) := H → Int → Nat → List (Request H)

-- The handler gets control; `old` is the status that CheckIfDue found.
def invoke (behaviour : Behaviour H) (s : Interrupt H) (loop : Loop) (old : MachineStatus)
    (toOccur : PendingInterrupt H) : Interrupt H :=
  {s with phase := .handling loop old (behaviour toOccur.handler toOccur.arg s.invoked.length)}

-- What follows the loop. The Yield of OneTick is code outside; it sets the status
-- back to `old` when the thread goes on, which is a setStatus here.
def leave (s : Interrupt H) : Loop → Interrupt H
  | .oneTick _ =>
    if s.yieldOnReturn then
      {s with level := .IntOn, yieldOnReturn := false, status := .SystemMode, phase := .outside}
    else {s with level := .IntOn, phase := .outside}
  | .idle => {s with yieldOnReturn := false, status := .SystemMode, phase := .outside}

-- One test of the loop condition.
def round (behaviour : Behaviour H) (s : Interrupt H) (loop : Loop) : Option (Interrupt H) := do
  let (checked,fired) ← s.checkIfDue false
  match fired with
  | some toOccur => some (checked.invoke behaviour loop s.status toOccur)
  | none => some (checked.leave loop)

def idle (behaviour : Behaviour H) (s : Interrupt H) : Option (Interrupt H) := do
  let (checked,fired) ← {s with status := MachineStatus.IdleMode}.checkIfDue true
  match fired with
  | some toOccur => some (checked.invoke behaviour .idle .IdleMode toOccur)
  | none => some {checked with phase := .halted}

def request (s : Interrupt H) : Request H → Option (Interrupt H)
  | .schedule handler arg fromNow type => s.schedule handler arg fromNow type
  | .setLevel now => s.setLevel now
  | .yieldOnReturn => if s.inHandler then some {s with yieldOnReturn := true} else none

-- Either the next request of the handler or, after the last, the rest of CheckIfDue.
def handle (s : Interrupt H) (loop : Loop) (old : MachineStatus) : List (Request H) → Option (Interrupt H)
  | [] => some {s with status := old, inHandler := false, phase := .looping loop}
  | asked :: rest => do
    let served ← s.request asked
    some {served with phase := .handling loop old rest}

-- Calls from outside, and `go` for the simulation's own next step. The kernel and
-- the instruction simulator set the status to user or system mode only.
inductive Action (H : Type) where
  | setLevel (now : IntStatus)
  | oneTick
  | idle
  | schedule (handler : H) (arg : Int) (fromNow : Int) (type : IntType)
  | setStatus (user : Bool)
  | halt
  | go
  deriving DecidableEq, Repr

def call (behaviour : Behaviour H) (s : Interrupt H) : Action H → Option (Interrupt H)
  | .setLevel now => s.setLevel now
  | .oneTick => some s.oneTick
  | .idle => s.idle behaviour
  | .schedule handler arg fromNow type => s.schedule handler arg fromNow type
  | .setStatus user => some {s with status := if user then .UserMode else .SystemMode}
  | .halt => some {s with phase := .halted}
  | .go => none

def step (behaviour : Behaviour H) (s : Interrupt H) (action : Action H) : Option (Interrupt H) :=
  match s.phase,action with
  | .outside,_ => s.call behaviour action
  | .looping loop,.go => s.round behaviour loop
  | .handling loop old rest,.go => s.handle loop old rest
  | _,_ => none

inductive Reached (behaviour : Behaviour H) : Interrupt H → Prop where
  | initial : Reached behaviour initial
  | step : Reached behaviour s → s.step behaviour action = some after → Reached behaviour after

def run (behaviour : Behaviour H) (s : Interrupt H) : List (Action H) → Option (Interrupt H)
  | [] => some s
  | action :: later => do
    let after ← s.step behaviour action
    after.run behaviour later

-- So many steps of the simulation's own.
def goes (behaviour : Behaviour H) (s : Interrupt H) (steps : Nat) : Option (Interrupt H) :=
  s.run behaviour (List.replicate steps .go)

-- What the hardware lets a handler ask for.
def Request.Allowed : Request H → Prop
  | .schedule _ _ fromNow _ => 0 < fromNow
  | .setLevel now => now = .IntOff
  | .yieldOnReturn => True

def Behaved (behaviour : Behaviour H) : Prop :=
  ∀ handler arg count, ∀ asked ∈ behaviour handler arg count, asked.Allowed

-- Every interrupt that was scheduled is pending or was invoked, one of the two
-- and once; what is pending is not earlier than what was invoked.
structure Timely (s : Interrupt H) : Prop where
  sorted : Sorted PendingInterrupt.when s.pending
  once : (s.pending ++ s.invoked.map Invocation.toOccur).Perm s.scheduled
  serials : ∀ p ∈ s.scheduled, p.serial < s.scheduled.length
  distinct : (s.scheduled.map PendingInterrupt.serial).Nodup
  onTime : ∀ e ∈ s.invoked, e.toOccur.when ≤ e.ticks
  past : ∀ e ∈ s.invoked, e.toOccur.when ≤ s.totalTicks
  ordered : s.invoked.Pairwise fun newer older => older.toOccur.when ≤ newer.toOccur.when
  ahead : ∀ e ∈ s.invoked, ∀ p ∈ s.pending, e.toOccur.when ≤ p.when
  ticks : s.totalTicks = s.idleTicks + s.systemTicks + s.userTicks

-- What holds of the flags at each place. Only Idle runs in idle mode.
def Fits (s : Interrupt H) : Phase H → Prop
  | .outside => s.inHandler = false ∧ s.status ≠ .IdleMode
  | .looping loop => s.level = .IntOff ∧ s.inHandler = false ∧ (s.status = .IdleMode → loop = .idle)
  | .handling loop old rest => s.level = .IntOff ∧ s.inHandler = true ∧ (old = .IdleMode → loop = .idle) ∧
      ∀ asked ∈ rest, asked.Allowed
  | .halted => True

-- The ways out of CheckIfDue: nothing pending, nothing due, only the timer left
-- on an idle machine, or a handler to call.
inductive Checked (s : Interrupt H) (advanceClock : Bool) : Interrupt H → Option (PendingInterrupt H) → Prop where
  | empty : s.pending = [] → Checked s advanceClock s none
  | early : s.pending = toOccur :: rest → advanceClock = false → s.totalTicks < toOccur.when →
      Checked s advanceClock {s with pending := sortedInsert PendingInterrupt.when toOccur rest} none
  | onlyTimer : s.pending = toOccur :: rest → s.status = .IdleMode → now = s.advance advanceClock toOccur.when →
      Checked s advanceClock {now with pending := sortedInsert PendingInterrupt.when toOccur rest} none
  | fires : s.pending = toOccur :: rest → now = s.advance advanceClock toOccur.when →
      toOccur.when ≤ now.totalTicks →
      Checked s advanceClock {now with
        pending := rest
        inHandler := true
        status := .SystemMode
        invoked := ⟨toOccur,now.totalTicks⟩ :: now.invoked} (some toOccur)

-- What a step can do.
inductive Steps (behaviour : Behaviour H) (s : Interrupt H) : Interrupt H → Prop where
  | setLevel : s.phase = .outside → s.setLevel now = some after → Steps behaviour s after
  | oneTick : s.phase = .outside → Steps behaviour s s.oneTick
  | schedule : s.phase = .outside → s.schedule handler arg fromNow type = some after → Steps behaviour s after
  | setStatus : s.phase = .outside → mode ≠ .IdleMode → Steps behaviour s {s with status := mode}
  | halt : s.phase = .outside → Steps behaviour s {s with phase := .halted}
  | idles : s.phase = .outside → s.level = .IntOff →
      Checked {s with status := .IdleMode} true checked (some toOccur) →
      Steps behaviour s (checked.invoke behaviour .idle .IdleMode toOccur)
  | stops : s.phase = .outside → s.level = .IntOff → Checked {s with status := .IdleMode} true checked none →
      Steps behaviour s {checked with phase := .halted}
  | invokes : s.phase = .looping loop → s.level = .IntOff → Checked s false checked (some toOccur) →
      Steps behaviour s (checked.invoke behaviour loop s.status toOccur)
  | leaves : s.phase = .looping loop → s.level = .IntOff → Checked s false checked none →
      Steps behaviour s (checked.leave loop)
  | requests : s.phase = .handling loop old (asked :: rest) → s.request asked = some served →
      Steps behaviour s {served with phase := .handling loop old rest}
  | returns : s.phase = .handling loop old [] →
      Steps behaviour s {s with status := old, inHandler := false, phase := .looping loop}

section
variable {s after : Interrupt H}

theorem initial_timely : Timely (initial : Interrupt H) := by
  refine ⟨.nil,.refl _,?_,.nil,?_,?_,.nil,?_,rfl⟩ <;> simp [initial]

theorem schedule_timely (timely : Timely s) (scheduled : s.schedule handler arg fromNow type = some after) :
    Timely after := by
  unfold schedule at scheduled
  split at scheduled
  · rename_i later
    cases scheduled
    refine ⟨sortedInsert_sorted timely.sorted _,?_,?_,?_,timely.onTime,timely.past,timely.ordered,?_,timely.ticks⟩
    · exact ((sortedInsert_perm _ _).append_right _).trans (timely.once.cons _)
    · intro p member
      rcases List.mem_cons.mp member with rfl | before
      · simp
      · exact Nat.lt_succ_of_lt (timely.serials p before)
    · refine List.nodup_cons.mpr ⟨?_,timely.distinct⟩
      intro member
      obtain ⟨p,before,same⟩ := List.mem_map.mp member
      exact absurd same (Nat.ne_of_lt (timely.serials p before))
    · intro e invoked p member
      rcases mem_sortedInsert.mp member with rfl | before
      · have past := timely.past e invoked
        change _ ≤ s.totalTicks + fromNow
        omega
      · exact timely.ahead e invoked p before
  · cases scheduled

-- The clock moves and the books with it; nothing else that matters changes.
theorem Timely.advances (timely : Timely s) (pending : after.pending = s.pending)
    (scheduled : after.scheduled = s.scheduled) (invoked : after.invoked = s.invoked)
    (later : s.totalTicks ≤ after.totalTicks)
    (ticks : after.totalTicks = after.idleTicks + after.systemTicks + after.userTicks) : Timely after := by
  obtain ⟨sorted,once,serials,distinct,onTime,past,ordered,ahead,_⟩ := timely
  rw [← pending] at sorted once ahead
  rw [← scheduled] at once serials distinct
  rw [← invoked] at once onTime past ordered ahead
  exact ⟨sorted,once,serials,distinct,onTime,fun e member => le_trans (past e member) later,ordered,ahead,ticks⟩

theorem oneTick_later (s : Interrupt H) : s.totalTicks ≤ s.oneTick.totalTicks := by
  unfold oneTick
  split <;> simp only [SystemTick,UserTick] <;> omega

theorem oneTick_timely (timely : Timely s) : Timely s.oneTick := by
  have ticks := timely.ticks
  refine timely.advances ?_ ?_ ?_ (oneTick_later s) ?_
  all_goals unfold oneTick
  all_goals split <;> first | rfl | skip
  all_goals simp [SystemTick,UserTick]
  all_goals omega

theorem setLevel_cases (changed : s.setLevel now = some after) :
    (after = {s with level := now} ∧ ¬(now = .IntOn ∧ s.level = .IntOff)) ∨
      (after = ({s with level := now} : Interrupt H).oneTick ∧ now = .IntOn) := by
  unfold setLevel at changed
  split at changed
  · split at changed <;> cases changed
    · rename_i raised
      exact Or.inr ⟨rfl,raised.1⟩
    · rename_i same
      exact Or.inl ⟨rfl,same⟩
  · cases changed

theorem setLevel_timely (timely : Timely s) (changed : s.setLevel now = some after) : Timely after := by
  have moved : Timely ({s with level := now} : Interrupt H) := timely.advances rfl rfl rfl le_rfl timely.ticks
  rcases setLevel_cases changed with ⟨rfl,_⟩ | ⟨rfl,_⟩
  · exact moved
  · exact oneTick_timely moved

theorem advance_later (s : Interrupt H) (advanceClock : Bool) (when : Int) :
    s.totalTicks ≤ (s.advance advanceClock when).totalTicks := by
  unfold advance
  split
  · rename_i jump
    exact le_of_lt jump.2
  · exact le_rfl

theorem advance_timely (timely : Timely s) (advanceClock : Bool) (when : Int) :
    Timely (s.advance advanceClock when) := by
  have ticks := timely.ticks
  refine timely.advances ?_ ?_ ?_ (advance_later s advanceClock when) ?_
  all_goals unfold advance
  all_goals split <;> first | rfl | skip
  · dsimp only
    omega
  · exact ticks

@[simp] theorem advance_status (s : Interrupt H) (advanceClock : Bool) (when : Int) :
    (s.advance advanceClock when).status = s.status := by
  unfold advance
  split <;> rfl

@[simp] theorem advance_pending (s : Interrupt H) (advanceClock : Bool) (when : Int) :
    (s.advance advanceClock when).pending = s.pending := by
  unfold advance
  split <;> rfl

theorem checkIfDue_cases (checks : s.checkIfDue advanceClock = some (after,fired)) :
    s.level = .IntOff ∧ Checked s advanceClock after fired := by
  unfold checkIfDue at checks
  split at checks
  · cases checks
  · rename_i off
    refine ⟨by simpa using off,?_⟩
    split at checks
    · rename_i empty
      cases checks
      exact .empty empty
    · rename_i toOccur rest waiting
      dsimp only at checks
      split at checks
      · rename_i early
        cases checks
        exact .early waiting early.1 early.2
      · rename_i come
        split at checks <;> cases checks
        · rename_i only
          exact .onlyTimer waiting (by simpa using only.1) rfl
        · refine .fires waiting rfl ?_
          unfold advance
          split
          · exact le_rfl
          · rename_i stays
            cases advanceClock <;> simp_all

-- Putting the first entry back changes at most its place among equals.
theorem Timely.putBack (timely : Timely s) (waiting : s.pending = toOccur :: rest) :
    Timely ({s with pending := sortedInsert PendingInterrupt.when toOccur rest} : Interrupt H) := by
  obtain ⟨sorted,once,serials,distinct,onTime,past,ordered,ahead,ticks⟩ := timely
  rw [waiting] at sorted once ahead
  refine ⟨sortedInsert_sorted (List.pairwise_cons.mp sorted).2 _,?_,serials,distinct,onTime,past,ordered,?_,ticks⟩
  · exact ((sortedInsert_perm _ _).append_right _).trans once
  · intro e invoked p member
    exact ahead e invoked p (List.mem_cons.mpr (mem_sortedInsert.mp member))

theorem Timely.fires (timely : Timely s) (waiting : s.pending = toOccur :: rest) (come : toOccur.when ≤ s.totalTicks) :
    Timely ({s with
      pending := rest
      inHandler := true
      status := .SystemMode
      invoked := ⟨toOccur,s.totalTicks⟩ :: s.invoked} : Interrupt H) := by
  obtain ⟨sorted,once,serials,distinct,onTime,past,ordered,ahead,ticks⟩ := timely
  rw [waiting] at sorted once ahead
  obtain ⟨least,tail⟩ := List.pairwise_cons.mp sorted
  refine ⟨tail,?_,serials,distinct,?_,?_,?_,?_,ticks⟩
  · exact List.perm_middle.trans once
  · intro e member
    rcases List.mem_cons.mp member with rfl | before
    · exact come
    · exact onTime e before
  · intro e member
    rcases List.mem_cons.mp member with rfl | before
    · exact come
    · exact past e before
  · exact List.pairwise_cons.mpr ⟨fun e member => ahead e member toOccur (by simp),ordered⟩
  · intro e member p later
    rcases List.mem_cons.mp member with rfl | before
    · exact least p later
    · exact ahead e before p (by simp [later])

theorem checked_timely (timely : Timely s) (checked : Checked s advanceClock after fired) : Timely after := by
  cases checked with
  | empty => exact timely
  | early waiting => exact timely.putBack waiting
  | onlyTimer waiting _ clock =>
    subst clock
    exact (advance_timely timely _ _).putBack (by simpa using waiting)
  | fires waiting clock come =>
    subst clock
    exact (advance_timely timely _ _).fires (by simpa using waiting) come

theorem checked_later (checked : Checked s advanceClock after fired) : s.totalTicks ≤ after.totalTicks := by
  cases checked with
  | empty | early => exact le_rfl
  | onlyTimer _ _ clock | fires _ clock => exact clock ▸ advance_later s _ _

theorem call_sound (outside : s.phase = .outside) (called : s.call behaviour action = some after) :
    Steps behaviour s after := by
  cases action with
  | setLevel now => exact .setLevel outside called
  | oneTick =>
    cases called
    exact .oneTick outside
  | idle =>
    simp only [call,idle,Option.bind_eq_bind,Option.bind_eq_some_iff] at called
    obtain ⟨⟨checked,fired⟩,checks,result⟩ := called
    obtain ⟨off,ways⟩ := checkIfDue_cases checks
    cases fired with
    | none =>
      cases result
      exact .stops outside off ways
    | some toOccur =>
      cases result
      exact .idles outside off ways
  | schedule handler arg fromNow type => exact .schedule outside called
  | setStatus user =>
    cases called
    exact .setStatus outside (by cases user <;> simp)
  | halt =>
    cases called
    exact .halt outside
  | go => cases called

theorem step_sound (stepped : s.step behaviour action = some after) : Steps behaviour s after := by
  unfold step at stepped
  split at stepped
  · rename_i outside
    exact call_sound outside stepped
  · rename_i loop looping
    simp only [round,Option.bind_eq_bind,Option.bind_eq_some_iff] at stepped
    obtain ⟨⟨checked,fired⟩,checks,result⟩ := stepped
    obtain ⟨off,ways⟩ := checkIfDue_cases checks
    cases fired with
    | none =>
      cases result
      exact .leaves looping off ways
    | some toOccur =>
      cases result
      exact .invokes looping off ways
  · rename_i loop old rest handling
    cases rest with
    | nil =>
      cases stepped
      exact .returns handling
    | cons asked rest =>
      simp only [handle,Option.bind_eq_bind,Option.bind_eq_some_iff,Option.some.injEq] at stepped
      obtain ⟨served,granted,rfl⟩ := stepped
      exact .requests handling granted
  · cases stepped

-- A change that the books do not show.
theorem Timely.same (timely : Timely s) (pending : after.pending = s.pending)
    (scheduled : after.scheduled = s.scheduled) (invoked : after.invoked = s.invoked)
    (total : after.totalTicks = s.totalTicks) (idle : after.idleTicks = s.idleTicks)
    (system : after.systemTicks = s.systemTicks) (user : after.userTicks = s.userTicks) : Timely after :=
  timely.advances pending scheduled invoked (le_of_eq total.symm) (by rw [total,idle,system,user,timely.ticks])

theorem leave_timely (timely : Timely s) (loop : Loop) : Timely (s.leave loop) := by
  cases loop with
  | oneTick old =>
    unfold leave
    dsimp only
    split <;> exact timely.same rfl rfl rfl rfl rfl rfl rfl
  | idle => exact timely.same rfl rfl rfl rfl rfl rfl rfl

theorem request_timely (timely : Timely s) (granted : s.request asked = some after) : Timely after := by
  cases asked with
  | schedule handler arg fromNow type => exact schedule_timely timely granted
  | setLevel now => exact setLevel_timely timely granted
  | yieldOnReturn =>
    simp only [request] at granted
    split at granted <;> cases granted
    exact timely.same rfl rfl rfl rfl rfl rfl rfl

theorem step_timely (timely : Timely s) (steps : Steps behaviour s after) : Timely after := by
  cases steps with
  | setLevel _ changed => exact setLevel_timely timely changed
  | oneTick => exact oneTick_timely timely
  | schedule _ scheduled => exact schedule_timely timely scheduled
  | setStatus | halt | returns => exact timely.same rfl rfl rfl rfl rfl rfl rfl
  | idles _ _ ways | stops _ _ ways =>
    have idle : Timely ({s with status := .IdleMode} : Interrupt H) := timely.same rfl rfl rfl rfl rfl rfl rfl
    exact (checked_timely idle ways).same rfl rfl rfl rfl rfl rfl rfl
  | invokes _ _ ways => exact (checked_timely timely ways).same rfl rfl rfl rfl rfl rfl rfl
  | leaves _ _ ways => exact leave_timely (checked_timely timely ways) _
  | requests _ granted => exact (request_timely timely granted).same rfl rfl rfl rfl rfl rfl rfl

theorem reached_timely (reached : Reached behaviour s) : Timely s := by
  induction reached with
  | initial => exact initial_timely
  | step _ stepped ih => exact step_timely ih (step_sound stepped)

end
end Interrupt
end Nachos
