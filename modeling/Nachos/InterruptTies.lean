import Nachos.InterruptRuns

-- Which of two interrupts that are due at the same tick is invoked first.
namespace Nachos.Interrupt
open Agenda

variable {s after : Interrupt H} {behaviour : Behaviour H}

-- The first pending interrupt is for later, and another is due at the same tick.
def tied (s : Interrupt H) : Bool :=
  match s.pending with
  | first :: next :: _ => s.totalTicks < first.when && next.when == first.when
  | _ => false

-- The next step is a CheckIfDue(FALSE) that takes the first interrupt out and puts
-- it back behind one that is due at the same tick.
def turns (s : Interrupt H) : Bool :=
  match s.phase with
  | .looping _ => s.tied
  | _ => false

-- Of two interrupts due at the same tick the one that was scheduled first is
-- invoked first.
def InTurn (s : Interrupt H) : Prop :=
  ∀ (newer between older : List (PendingInterrupt H)) (late early : PendingInterrupt H),
    s.scheduled = newer ++ late :: between ++ early :: older → late.when = early.when →
    ∀ (later before : List (Invocation H)) (e : Invocation H), s.invoked = later ++ e :: before → e.toOccur = late →
      ∃ previous ∈ before, previous.toOccur = early

-- What a step does to the lists.
inductive Books (s after : Interrupt H) : Prop where
  | same : after.pending = s.pending → after.scheduled = s.scheduled → after.invoked = s.invoked → Books s after
  | scheduled : toOccur.serial = s.scheduled.length →
      after.pending = sortedInsert PendingInterrupt.when toOccur s.pending →
      after.scheduled = toOccur :: s.scheduled → after.invoked = s.invoked → Books s after
  | fired : s.pending = toOccur :: after.pending → after.scheduled = s.scheduled →
      after.invoked = ⟨toOccur,ticks⟩ :: s.invoked → Books s after

theorem Books.trans_same {middle : Interrupt H} (books : Books s middle) (pending : after.pending = middle.pending)
    (scheduled : after.scheduled = middle.scheduled) (invoked : after.invoked = middle.invoked) : Books s after := by
  cases books with
  | same p q r => exact .same (pending.trans p) (scheduled.trans q) (invoked.trans r)
  | scheduled serial p q r => exact .scheduled serial (pending.trans p) (scheduled.trans q) (invoked.trans r)
  | fired p q r => exact .fired (pending ▸ p) (scheduled.trans q) (invoked.trans r)

theorem Books.from_same {before : Interrupt H} (books : Books before after) (pending : before.pending = s.pending)
    (scheduled : before.scheduled = s.scheduled) (invoked : before.invoked = s.invoked) : Books s after := by
  cases books with
  | same p q r => exact .same (p.trans pending) (q.trans scheduled) (r.trans invoked)
  | scheduled serial p q r =>
    exact .scheduled (scheduled ▸ serial) (pending ▸ p) (scheduled ▸ q) (r.trans invoked)
  | fired p q r => exact .fired (pending ▸ p) (q.trans scheduled) (invoked ▸ r)

theorem oneTick_books (s : Interrupt H) : Books s s.oneTick := by
  unfold oneTick
  dsimp only
  split <;> exact .same rfl rfl rfl

theorem setLevel_books (changed : s.setLevel now = some after) : Books s after := by
  rcases setLevel_cases changed with ⟨rfl,_⟩ | ⟨rfl,_⟩
  · exact .same rfl rfl rfl
  · exact (oneTick_books _).from_same rfl rfl rfl

theorem schedule_books (scheduled : s.schedule handler arg fromNow type = some after) : Books s after := by
  unfold schedule at scheduled
  split at scheduled <;> cases scheduled
  exact .scheduled rfl rfl rfl rfl

theorem request_books (granted : s.request asked = some after) : Books s after := by
  cases asked with
  | schedule handler arg fromNow type => exact schedule_books granted
  | setLevel now => exact setLevel_books granted
  | yieldOnReturn =>
    simp only [request] at granted
    split at granted <;> cases granted
    exact .same rfl rfl rfl

-- An entry that is put back comes to stand where it was, unless it is tied.
theorem putBack_same (timely : Timely s) (waiting : s.pending = toOccur :: rest) (late : s.totalTicks < toOccur.when) :
    sortedInsert PendingInterrupt.when toOccur rest = s.pending ↔ s.tied = false := by
  have sorted := timely.sorted
  rw [waiting] at sorted
  constructor
  · intro same
    cases rest with
    | nil => simp [tied,waiting]
    | cons next rest =>
      have distinct := (timely.once.map PendingInterrupt.serial).nodup_iff.mpr timely.distinct
      rw [waiting] at distinct same
      have other : toOccur ≠ next := by
        rintro rfl
        simp at distinct
      by_contra stands
      have equal : next.when = toOccur.when := by simpa [tied,waiting,late] using stands
      rw [sortedInsert,if_neg (by rw [equal]; exact lt_irrefl _)] at same
      exact other (List.cons.inj same).1.symm
  · intro clear
    rw [waiting]
    refine sortedInsert_first sorted ?_
    intro next first equal
    cases rest with
    | nil => simp at first
    | cons second rest =>
      obtain rfl : second = next := by simpa using first
      simp [tied,waiting,late,equal] at clear

theorem advance_lists (s : Interrupt H) (advanceClock : Bool) (when : Int) :
    (s.advance advanceClock when).scheduled = s.scheduled ∧ (s.advance advanceClock when).invoked = s.invoked := by
  unfold advance
  split <;> exact ⟨rfl,rfl⟩

-- An idle machine that stops for want of anything but the timer has one entry only.
theorem checkIfDue_books (timely : Timely s) (clear : advanceClock = false → s.tied = false)
    (checks : s.checkIfDue advanceClock = some (after,fired)) : Books s after := by
  unfold checkIfDue at checks
  split at checks
  · cases checks
  · split at checks
    · cases checks
      exact .same rfl rfl rfl
    · rename_i toOccur rest waiting
      dsimp only at checks
      split at checks
      · rename_i early
        cases checks
        exact .same ((putBack_same timely waiting early.2).mpr (clear early.1)) rfl rfl
      · obtain ⟨scheduled,invoked⟩ := advance_lists s advanceClock toOccur.when
        split at checks
        · rename_i only
          cases checks
          obtain ⟨_,_,rfl⟩ := only
          exact .same waiting.symm scheduled invoked
        · cases checks
          exact .fired waiting scheduled (by rw [invoked])

theorem call_books (timely : Timely s) (called : s.call behaviour action = some after) : Books s after := by
  cases action with
  | setLevel now => exact setLevel_books called
  | oneTick =>
    cases called
    exact oneTick_books s
  | idle =>
    simp only [call,idle,Option.bind_eq_bind,Option.bind_eq_some_iff] at called
    obtain ⟨⟨checked,fired⟩,checks,result⟩ := called
    have idle : Timely ({s with status := .IdleMode} : Interrupt H) := timely.same rfl rfl rfl rfl rfl rfl rfl
    have books : Books s checked := (checkIfDue_books idle (by simp) checks).from_same rfl rfl rfl
    cases fired <;> cases result <;> exact books.trans_same rfl rfl rfl
  | schedule handler arg fromNow type => exact schedule_books called
  | setStatus | halt =>
    cases called
    exact .same rfl rfl rfl
  | go => cases called

theorem step_books (timely : Timely s) (clear : s.turns = false) (stepped : s.step behaviour action = some after) :
    Books s after := by
  unfold step at stepped
  split at stepped
  · exact call_books timely stepped
  · rename_i loop looping
    have untied : s.tied = false := by simpa [turns,looping] using clear
    simp only [round,Option.bind_eq_bind,Option.bind_eq_some_iff] at stepped
    obtain ⟨⟨checked,fired⟩,checks,result⟩ := stepped
    have books := checkIfDue_books timely (fun _ => untied) checks
    cases fired with
    | none =>
      cases result
      cases loop with
      | oneTick old =>
        unfold leave
        dsimp only
        split <;> exact books.trans_same rfl rfl rfl
      | idle => exact books.trans_same rfl rfl rfl
    | some toOccur =>
      cases result
      exact books.trans_same rfl rfl rfl
  · rename_i loop old rest handling
    cases rest with
    | nil =>
      cases stepped
      exact .same rfl rfl rfl
    | cons asked rest =>
      simp only [handle,Option.bind_eq_bind,Option.bind_eq_some_iff,Option.some.injEq] at stepped
      obtain ⟨served,granted,rfl⟩ := stepped
      exact (request_books granted).trans_same rfl rfl rfl
  · cases stepped

-- Equals stand in the order in which they were scheduled, and behind those that
-- were invoked.
structure Fair (s : Interrupt H) : Prop where
  queued : Stable PendingInterrupt.when PendingInterrupt.serial s.pending
  invoked : s.invoked.Pairwise fun newer older =>
    newer.toOccur.when = older.toOccur.when → older.toOccur.serial < newer.toOccur.serial
  ahead : ∀ e ∈ s.invoked, ∀ p ∈ s.pending, e.toOccur.when = p.when → e.toOccur.serial < p.serial
  serials : s.scheduled.Pairwise fun newer older => older.serial < newer.serial

theorem initial_fair : Fair (initial : Interrupt H) := ⟨.nil,.nil,by simp [initial],.nil⟩

theorem step_fair (timely : Timely s) (fair : Fair s) (books : Books s after) : Fair after := by
  obtain ⟨queued,invoked,ahead,serials⟩ := fair
  cases books with
  | same p q r => exact ⟨p ▸ queued,r ▸ invoked,by rwa [p,r],q ▸ serials⟩
  | @scheduled toOccur serial p q r =>
    have known : ∀ a ∈ s.pending ++ s.invoked.map Invocation.toOccur, a.serial < toOccur.serial := by
      intro a member
      rw [serial]
      exact timely.serials a (timely.once.mem_iff.mp member)
    refine ⟨?_,r ▸ invoked,?_,?_⟩
    · rw [p]
      exact sortedInsert_stable timely.sorted queued fun a member => known a (by simp [member])
    · rw [p,r]
      intro e member a later
      rcases mem_sortedInsert.mp later with rfl | before
      · exact fun _ => known e.toOccur (List.mem_append_right _ (List.mem_map_of_mem member))
      · exact ahead e member a before
    · rw [q]
      exact List.pairwise_cons.mpr ⟨fun a member => serial ▸ timely.serials a member,serials⟩
  | @fired toOccur ticks p q r =>
    rw [p] at queued ahead
    obtain ⟨least,tail⟩ := List.pairwise_cons.mp queued
    refine ⟨tail,?_,?_,q ▸ serials⟩
    · rw [r]
      exact List.pairwise_cons.mpr ⟨fun e member same => ahead e member toOccur (by simp) same.symm,invoked⟩
    · rw [r]
      intro e member a later
      rcases List.mem_cons.mp member with rfl | before
      · exact least a later
      · exact ahead e before a (by simp [later])

theorem Fair.inTurn (timely : Timely s) (fair : Fair s) : InTurn s := by
  intro newer between older late early scheduled same later before e fired this
  have order : early.serial < late.serial := by
    have pairs := fair.serials
    rw [scheduled] at pairs
    have below := (List.pairwise_append.mp pairs).2.2 late (by simp) early (by simp)
    exact below
  have invoked : e ∈ s.invoked := by simp [fired]
  have known : early ∈ s.pending ++ s.invoked.map Invocation.toOccur :=
    timely.once.mem_iff.mpr (by simp [scheduled])
  rcases List.mem_append.mp known with waits | before_
  · have behind := fair.ahead e invoked early waits (by rw [this,same])
    rw [this] at behind
    exact absurd behind (Nat.lt_asymm order)
  · obtain ⟨previous,member,rfl⟩ := List.mem_map.mp before_
    refine ⟨previous,?_,rfl⟩
    have pairs := fair.invoked
    rw [fired] at pairs member
    rcases List.mem_append.mp member with newer_ | rest
    · have behind := (List.pairwise_append.mp pairs).2.2 previous newer_ e (by simp) (by rw [this,same])
      rw [this] at behind
      exact absurd behind (Nat.lt_asymm order)
    · rcases List.mem_cons.mp rest with rfl | member
      · rw [this] at order
        exact absurd order (lt_irrefl _)
      · exact member

-- Runs in which no entry is put back behind one that is due at the same tick.
inductive Straight (behaviour : Behaviour H) : Interrupt H → Prop where
  | initial : Straight behaviour initial
  | step {s after : Interrupt H} : Straight behaviour s → s.turns = false → s.step behaviour action = some after →
      Straight behaviour after

theorem Straight.reached (straight : Straight behaviour s) : Reached behaviour s := by
  induction straight with
  | initial => exact .initial
  | step _ _ stepped ih => exact ih.step stepped

theorem Straight.fair (straight : Straight behaviour s) : Fair s := by
  induction straight with
  | initial => exact initial_fair
  | step before clear stepped ih =>
    have timely := reached_timely before.reached
    exact step_fair timely ih (step_books timely clear stepped)

-- A CheckIfDue(FALSE) that invokes nothing leaves the list as it was just when it
-- finds no tie.
theorem checkIfDue_keeps (timely : Timely s) (checks : s.checkIfDue false = some (after,none)) :
    after.pending = s.pending ↔ s.tied = false := by
  unfold checkIfDue at checks
  split at checks
  · cases checks
  · split at checks
    · rename_i empty
      cases checks
      simp [tied,empty]
    · rename_i toOccur rest waiting
      dsimp only at checks
      split at checks
      · rename_i early
        cases checks
        exact putBack_same timely waiting early.2
      · split at checks <;> cases checks
        rename_i only
        obtain ⟨_,_,rfl⟩ := only
        simp [tied,waiting,sortedInsert]

-- Interrupts due at the same tick are invoked in the order in which they were
-- scheduled, as long as none is put back behind another one.
theorem ties_in_turn (straight : Straight behaviour s) : InTurn s ∧
    ∀ after, s.checkIfDue false = some (after,none) → (after.pending = s.pending ↔ s.tied = false) :=
  ⟨straight.fair.inTurn (reached_timely straight.reached),
    fun _ checks => checkIfDue_keeps (reached_timely straight.reached) checks⟩

-- Whether a list of actions is such a run.
def straight (behaviour : Behaviour H) (s : Interrupt H) : List (Action H) → Bool
  | [] => true
  | action :: later => !s.turns && match s.step behaviour action with
    | some after => after.straight behaviour later
    | none => false

theorem run_straight (before : Straight behaviour s) (path : s.run behaviour actions = some after)
    (clear : s.straight behaviour actions = true) : Straight behaviour after := by
  induction actions generalizing s with
  | nil =>
    cases path
    exact before
  | cons action later ih =>
    simp only [run,Option.bind_eq_bind,Option.bind_eq_some_iff] at path
    obtain ⟨next,stepped,rest⟩ := path
    simp only [straight,stepped,Bool.and_eq_true,Bool.not_eq_true'] at clear
    exact ih (before.step clear.1 stepped) rest clear.2

-- Two disks (0 and 1) whose handlers ask for nothing, both with an interrupt for
-- `fromNow` from the start.
def twoDisks : Behaviour Unit := fun _ _ _ => []

def bothAt (fromNow : Int) (ticks : Nat) : List (Action Unit) :=
  .schedule () 0 fromNow .DiskInt :: .schedule () 1 fromNow .DiskInt ::
    (List.replicate ticks [Action.oneTick,Action.go]).flatten

theorem ties_in_turn_first : ∃ s : Interrupt Unit, s.scheduled.map PendingInterrupt.when = [10,10] ∧
    s.invoked.map (fun e => e.toOccur.arg) = [1,0] ∧ InTurn s := by
  obtain ⟨s,path,scheduled,invoked⟩ : ∃ s : Interrupt Unit, initial.run twoDisks (bothAt 10 1 ++ [Action.go,Action.go]) = some s ∧
      s.scheduled.map PendingInterrupt.when = [10,10] ∧ s.invoked.map (fun e => e.toOccur.arg) = [1,0] :=
    ⟨(initial.run twoDisks (bothAt 10 1 ++ [Action.go,Action.go])).get (by decide),by simp,by decide,by decide⟩
  exact ⟨s,scheduled,invoked,(ties_in_turn (run_straight .initial path (by decide))).1⟩

-- A tick that comes too early for both turns them round, and at their time the
-- second disk is served before the first.
theorem ties_out_of_turn : ∃ s before after : Interrupt Unit, Reached twoDisks s ∧ ¬ InTurn s ∧
    Reached twoDisks before ∧ before.checkIfDue false = some (after,none) ∧ after.pending ≠ before.pending := by
  have path : initial.run twoDisks (bothAt 20 2) = some ((initial.run twoDisks (bothAt 20 2)).get (by decide)) := by
    simp
  have early : initial.run twoDisks ((bothAt 20 2).take 3) =
      some ((initial.run twoDisks ((bothAt 20 2).take 3)).get (by decide)) := by simp
  refine ⟨_,_,_,run_reached .initial path,?_,run_reached .initial early,rfl,by decide⟩
  intro turn
  obtain ⟨previous,none_,_⟩ := turn [] [] [] ⟨(),1,20,.DiskInt,1⟩ ⟨(),0,20,.DiskInt,0⟩ (by decide) rfl [] [] ⟨⟨(),1,20,.DiskInt,1⟩,20⟩
    (by decide) rfl
  cases none_

end Nachos.Interrupt
