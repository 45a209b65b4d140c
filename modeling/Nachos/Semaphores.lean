import Nachos.Kernel
import Nachos.Library.Turnstile
import Mathlib.Data.Fintype.Option

-- Threads and interrupt handlers that call P and V on semaphores. Interrupts are
-- off from the test in P to the Sleep or to the end of the call, and all through
-- V, so these are the steps; a handler runs between two of them.
namespace Nachos
open Tally Turnstile

-- `inside` is the semaphore in whose P the thread has slept at least once. The
-- counts of completed calls are kept for the proofs.
structure Semaphores (T S : Type) where
  semaphore : S → Semaphore T
  status : T → ThreadStatus
  inside : T → Option S
  completedP : S → Nat
  completedV : S → Nat

namespace Semaphores

def initial (initialValue : S → Int) : Semaphores T S :=
  ⟨fun s => .new (initialValue s),fun _ => .READY,fun _ => none,fun _ => 0,fun _ => 0⟩

inductive Action (T S : Type) where
  | p (currentThread : T) (s : S)
  | v (currentThread : T) (s : S)
  | handler (s : S)
  | resume (currentThread : T)
  deriving DecidableEq, Repr

-- Asleep in P of the semaphore, made READY there, or not there.
def waiting [DecidableEq S] (k : Semaphores T S) (s : S) (t : T) : Option Bool :=
  if k.inside t = some s then some (k.status t == .BLOCKED) else none

variable [DecidableEq T] [DecidableEq S]

-- P from SetLevel(IntOff) or from the return of Sleep.
def p (k : Semaphores T S) (currentThread : T) (s : S) : Semaphores T S :=
  let (semaphore,sleeps) := (k.semaphore s).p currentThread
  let k := {k with semaphore := Function.update k.semaphore s semaphore}
  if sleeps then
    {k with
      status := Function.update k.status currentThread .BLOCKED
      inside := Function.update k.inside currentThread (some s)}
  else
    {k with
      inside := Function.update k.inside currentThread none
      completedP := Function.update k.completedP s (k.completedP s + 1)}

def readyToRun (k : Semaphores T S) : Option T → Semaphores T S
  | none => k
  | some thread => {k with status := Function.update k.status thread .READY}

def v (k : Semaphores T S) (s : S) : Semaphores T S :=
  let (semaphore,thread) := (k.semaphore s).v
  readyToRun {k with
    semaphore := Function.update k.semaphore s semaphore
    completedV := Function.update k.completedV s (k.completedV s + 1)} thread

def step (k : Semaphores T S) : Action T S → Option (Semaphores T S)
  | .p t s => if k.status t = .READY ∧ k.inside t = none then some (k.p t s) else none
  | .v t s => if k.status t = .READY ∧ k.inside t = none then some (k.v s) else none
  | .handler s => some (k.v s)
  | .resume t => match k.inside t with
    | none => none
    | some s => if k.status t = .READY then some (k.p t s) else none

-- A run: each action with the state it was taken in, the last one first.
inductive Runs (initialValue : S → Int) : List (Semaphores T S × Action T S) → Semaphores T S → Prop where
  | initial : Runs initialValue [] (initial initialValue)
  | step : Runs initialValue log k → k.step action = some after → Runs initialValue ((k,action) :: log) after

-- The value can be raised, where the action does so.
def Room (k : Semaphores T S) : Action T S → Prop
  | .v _ s | .handler s => (k.semaphore s).value < 2 ^ 31 - 1
  | .p _ _ | .resume _ => True

-- What a step can do: a test in P by a thread that is not asleep, or a V.
inductive Steps (k : Semaphores T S) : Action T S → Semaphores T S → Prop where
  | p : k.status t = .READY → k.inside t = none ∨ k.inside t = some s → Room k action → Steps k action (k.p t s)
  | v : (Room k action ↔ (k.semaphore s).value < 2 ^ 31 - 1) → Steps k action (k.v s)

theorem step_sound {k after : Semaphores T S} (stepped : k.step action = some after) : Steps k action after := by
  cases action with
  | p t s =>
    simp only [step] at stepped
    split at stepped <;> cases stepped
    rename_i outside
    exact .p outside.1 (.inl outside.2) trivial
  | v t s =>
    simp only [step] at stepped
    split at stepped <;> cases stepped
    exact .v Iff.rfl
  | handler s =>
    cases stepped
    exact .v Iff.rfl
  | resume t =>
    simp only [step] at stepped
    split at stepped
    · cases stepped
    · rename_i s place
      split at stepped <;> cases stepped
      rename_i ready
      exact .p ready (.inr place) trivial

section
variable [Fintype T] {k after : Semaphores T S} {initialValue : S → Int}

-- The queue holds the sleepers; units left over are spoken for.
structure Sound (initialValue : S → Int) (k : Semaphores T S) (s : S) : Prop where
  books : (k.semaphore s).value = initialValue s + k.completedV s - k.completedP s
  nonneg : 0 ≤ (k.semaphore s).value
  small : (k.semaphore s).value < 2 ^ 31
  nodup : (k.semaphore s).queue.Nodup
  asleep : ∀ t, t ∈ (k.semaphore s).queue ↔ k.waiting s t = some true
  enough : Enough (k.semaphore s).value (k.waiting s)

omit [DecidableEq T] in
theorem initial_sound (range : ∀ s, 0 ≤ initialValue s ∧ initialValue s < 2 ^ 31) (s : S) :
    Sound initialValue (initial initialValue : Semaphores T S) s := by
  refine ⟨?_,(range s).1,(range s).2,.nil,?_,.unheard ?_⟩ <;> simp [initial,Semaphore.new,waiting]

-- A thread that is awake goes to sleep: nothing was left over.
theorem sleeps_sound (sound : Sound initialValue k s) (ready : k.status t = .READY) (empty : (k.semaphore s).value = 0)
    (semaphore : after.semaphore s = ⟨0,(k.semaphore s).queue ++ [t]⟩)
    (waits : after.waiting s = Function.update (k.waiting s) t (some true))
    (puts : after.completedV s = k.completedV s) (takes : after.completedP s = k.completedP s) :
    Sound initialValue after s := by
  have absent : t ∉ (k.semaphore s).queue := by
    intro member
    have asleep := (sound.asleep t).mp member
    simp [waiting,ready] at asleep
  refine ⟨?_,?_,?_,?_,?_,?_⟩
  · rw [semaphore,puts,takes,← sound.books,empty]
  · simp [semaphore]
  · simp [semaphore]
  · rw [semaphore]
    refine List.nodup_append.mpr ⟨sound.nodup,by simp,?_⟩
    rintro a member b only rfl
    exact absent (List.mem_singleton.mp only ▸ member)
  · intro u
    by_cases same : u = t
    · subst same; simp [semaphore,waits]
    · simp [semaphore,waits,same,sound.asleep u]
  · rw [semaphore]
    exact .zero _

theorem takes_sound (sound : Sound initialValue k s) (ready : k.status t = .READY)
    (some_ : (k.semaphore s).value ≠ 0)
    (semaphore : after.semaphore s = ⟨Signed.wrap 32 ((k.semaphore s).value - 1),(k.semaphore s).queue⟩)
    (waits : after.waiting s = Function.update (k.waiting s) t none)
    (puts : after.completedV s = k.completedV s) (takes : after.completedP s = k.completedP s + 1) :
    Sound initialValue after s := by
  have awake : k.waiting s t ≠ some true := by simp [waiting,ready]
  obtain ⟨books,nonneg,small,nodup,asleep,enough⟩ := sound
  rw [Signed.wrap_small (w := 31) (by omega) (by omega)] at semaphore
  refine ⟨?_,?_,?_,?_,?_,?_⟩
  · rw [semaphore,puts,takes]
    push_cast
    omega
  · rw [semaphore]
    dsimp only
    omega
  · rw [semaphore]
    dsimp only
    omega
  · rwa [semaphore]
  · intro u
    by_cases same : u = t
    · subst same; simp [semaphore,waits,asleep u,awake]
    · simp [semaphore,waits,same,asleep u]
  · rw [semaphore,waits]
    exact enough.takes awake

theorem wakes_sound (sound : Sound initialValue k s) (room : (k.semaphore s).value < 2 ^ 31 - 1)
    (queued : (k.semaphore s).queue = t :: rest)
    (semaphore : after.semaphore s = ⟨Signed.wrap 32 ((k.semaphore s).value + 1),rest⟩)
    (waits : after.waiting s = Function.update (k.waiting s) t (some false))
    (puts : after.completedV s = k.completedV s + 1) (takes : after.completedP s = k.completedP s) :
    Sound initialValue after s := by
  obtain ⟨books,nonneg,small,nodup,asleep,enough⟩ := sound
  rw [Signed.wrap_small (w := 31) (by omega) (by omega)] at semaphore
  rw [queued] at nodup asleep
  obtain ⟨absent,rest_nodup⟩ := List.nodup_cons.mp nodup
  refine ⟨?_,?_,?_,?_,?_,?_⟩
  · rw [semaphore,puts,takes]
    push_cast
    omega
  · rw [semaphore]
    dsimp only
    omega
  · rw [semaphore]
    dsimp only
    omega
  · rwa [semaphore]
  · intro u
    by_cases same : u = t
    · subst same; simp [semaphore,waits,absent]
    · have before := asleep u
      simpa [semaphore,waits,same] using before
  · rw [semaphore,waits]
    exact enough.wakes ((asleep t).mp (by simp))

omit [DecidableEq T] in
theorem unheard_sound (sound : Sound initialValue k s) (room : (k.semaphore s).value < 2 ^ 31 - 1)
    (queued : (k.semaphore s).queue = [])
    (semaphore : after.semaphore s = ⟨Signed.wrap 32 ((k.semaphore s).value + 1),[]⟩) (waits : after.waiting s = k.waiting s)
    (puts : after.completedV s = k.completedV s + 1) (takes : after.completedP s = k.completedP s) :
    Sound initialValue after s := by
  obtain ⟨books,nonneg,small,nodup,asleep,enough⟩ := sound
  rw [Signed.wrap_small (w := 31) (by omega) (by omega)] at semaphore
  rw [queued] at asleep
  refine ⟨?_,?_,?_,?_,?_,.unheard ?_⟩
  · rw [semaphore,puts,takes]
    push_cast
    omega
  · rw [semaphore]
    dsimp only
    omega
  · rw [semaphore]
    dsimp only
    omega
  · simp [semaphore]
  · intro u
    simpa [semaphore,waits] using asleep u
  · intro u sleeping
    rw [waits] at sleeping
    simpa using (asleep u).mpr sleeping

-- A semaphore that the step does not touch.
omit [DecidableEq T] in
theorem other_sound (sound : Sound initialValue k s) (semaphore : after.semaphore s = k.semaphore s)
    (waits : after.waiting s = k.waiting s) (puts : after.completedV s = k.completedV s)
    (takes : after.completedP s = k.completedP s) : Sound initialValue after s := by
  obtain ⟨books,nonneg,small,nodup,asleep,enough⟩ := sound
  refine ⟨?_,?_,?_,?_,?_,?_⟩
  · rw [semaphore,puts,takes,books]
  · rwa [semaphore]
  · rwa [semaphore]
  · rwa [semaphore]
  · intro u
    rw [semaphore,waits,asleep u]
  · rwa [semaphore,waits]

theorem p_sound (sound : ∀ s, Sound initialValue k s) (ready : k.status t = .READY)
    (place : k.inside t = none ∨ k.inside t = some s) (r : S) : Sound initialValue (k.p t s) r := by
  have elsewhere : r ≠ s → k.inside t ≠ some r := by
    intro other
    rcases place with out | here
    · simp [out]
    · simpa [here] using Ne.symm other
  by_cases empty : (k.semaphore s).value = 0
  · by_cases same : r = s
    · subst same
      refine sleeps_sound (t := t) (sound r) ready empty ?_ ?_ ?_ ?_
      · simp [p,Semaphore.p,empty]
      · funext u
        by_cases self : u = t
        · subst self; simp [p,Semaphore.p,empty,waiting]
        · simp [p,Semaphore.p,empty,waiting,self]
      · simp [p,Semaphore.p,empty]
      · simp [p,Semaphore.p,empty]
    · refine other_sound (sound r) ?_ ?_ ?_ ?_
      · simp [p,Semaphore.p,empty,same]
      · funext u
        by_cases self : u = t
        · subst self; simp [p,Semaphore.p,empty,waiting,Ne.symm same,elsewhere same]
        · simp [p,Semaphore.p,empty,waiting,self]
      · simp [p,Semaphore.p,empty]
      · simp [p,Semaphore.p,empty]
  · by_cases same : r = s
    · subst same
      refine takes_sound (t := t) (sound r) ready empty ?_ ?_ ?_ ?_
      · simp [p,Semaphore.p,empty]
      · funext u
        by_cases self : u = t
        · subst self; simp [p,Semaphore.p,empty,waiting]
        · simp [p,Semaphore.p,empty,waiting,self]
      · simp [p,Semaphore.p,empty]
      · simp [p,Semaphore.p,empty]
    · refine other_sound (sound r) ?_ ?_ ?_ ?_
      · simp [p,Semaphore.p,empty,same]
      · funext u
        by_cases self : u = t
        · subst self; simp [p,Semaphore.p,empty,waiting,elsewhere same]
        · simp [p,Semaphore.p,empty,waiting,self]
      · simp [p,Semaphore.p,empty]
      · simp [p,Semaphore.p,empty,same]

theorem v_sound (sound : ∀ s, Sound initialValue k s) (room : (k.semaphore s).value < 2 ^ 31 - 1) (r : S) :
    Sound initialValue (k.v s) r := by
  cases queued : (k.semaphore s).queue with
  | nil =>
    by_cases same : r = s
    · subst same
      refine unheard_sound (sound r) room queued ?_ ?_ ?_ ?_ <;> simp [v,Semaphore.v,queued,readyToRun]
      rfl
    · refine other_sound (sound r) ?_ ?_ ?_ ?_ <;> simp [v,Semaphore.v,queued,readyToRun,same]
      rfl
  | cons t rest =>
    have asleep : k.waiting s t = some true := ((sound s).asleep t).mp (by simp [queued])
    have place : k.inside t = some s := by
      by_contra out
      simp [waiting,out] at asleep
    by_cases same : r = s
    · subst same
      refine wakes_sound (t := t) (sound r) room queued ?_ ?_ ?_ ?_
      · simp [v,Semaphore.v,queued,readyToRun]
      · funext u
        by_cases self : u = t
        · subst self; simp [v,Semaphore.v,queued,readyToRun,waiting,place]
        · simp [v,Semaphore.v,queued,readyToRun,waiting,self]
      · simp [v,Semaphore.v,queued,readyToRun]
      · simp [v,Semaphore.v,queued,readyToRun]
    · refine other_sound (sound r) ?_ ?_ ?_ ?_
      · simp [v,Semaphore.v,queued,readyToRun,same]
      · funext u
        by_cases self : u = t
        · subst self; simp [v,Semaphore.v,queued,readyToRun,waiting,place,Ne.symm same]
        · simp [v,Semaphore.v,queued,readyToRun,waiting,self]
      · simp [v,Semaphore.v,queued,readyToRun,same]
      · simp [v,Semaphore.v,queued,readyToRun]

theorem step_keeps_sound (sound : ∀ s, Sound initialValue k s) (steps : Steps k action after) (room : Room k action) :
    ∀ s, Sound initialValue after s := by
  cases steps with
  | p ready place => exact p_sound sound ready place
  | v raises => exact v_sound sound (raises.mp room)

theorem runs_sound (range : ∀ s, 0 ≤ initialValue s ∧ initialValue s < 2 ^ 31) (runs : Runs initialValue log k)
    (room : ∀ entry ∈ log, Room entry.1 entry.2) : ∀ s, Sound initialValue k s := by
  induction runs with
  | initial => exact initial_sound range
  | step _ stepped ih =>
    obtain ⟨here,before⟩ := List.forall_mem_cons.mp room
    exact step_keeps_sound (ih before) (step_sound stepped) here

-- A V of the largest int makes it the smallest.
omit [Fintype T] in
theorem v_wraps (full : (k.semaphore s).value = 2 ^ 31 - 1) : ((k.v s).semaphore s).value = -2 ^ 31 := by
  cases queued : (k.semaphore s).queue <;> simp [v,Semaphore.v,queued,readyToRun,full] <;> decide

-- The units add up, the queue holds each sleeper once and nobody else, and while
-- somebody sleeps every unit there is has a woken thread on its way to it.
structure Conserved (initialValue : S → Int) (k : Semaphores T S) (s : S) : Prop where
  books : (k.semaphore s).value = initialValue s + k.completedV s - k.completedP s
  nonneg : 0 ≤ (k.semaphore s).value
  queued : ∀ t, k.inside t = some s → (k.semaphore s).queue.count t = if k.status t = .READY then 0 else 1
  claimed : (k.semaphore s).queue ≠ [] →
    (k.semaphore s).value ≤ tally fun t => k.inside t = some s ∧ k.status t = .READY

theorem Sound.conserved (sound : Sound initialValue k s) : Conserved initialValue k s := by
  obtain ⟨books,nonneg,_,nodup,asleep,enough⟩ := sound
  refine ⟨books,nonneg,?_,?_⟩
  · intro t place
    have member := asleep t
    simp only [waiting,place,if_true,Option.some.injEq,beq_iff_eq] at member
    cases status : k.status t with
    | READY => simpa [status,List.count_eq_zero] using member
    | BLOCKED => simpa [status] using List.count_eq_one_of_mem nodup (member.mpr status)
  · intro busy
    obtain ⟨t,member⟩ := List.exists_mem_of_ne_nil _ busy
    have bound := enough ⟨t,(asleep t).mp member⟩
    refine le_trans bound (le_of_eq (congrArg _ (tally_congr ?_)))
    intro u
    cases status : k.status u <;> by_cases place : k.inside u = some s <;> simp [waiting,place,status]

-- A V without room leaves a negative value.
theorem step_room (sound : ∀ s, Sound initialValue k s) (steps : Steps k action after)
    (conserved : ∀ s, Conserved initialValue after s) : Room k action := by
  cases steps with
  | p _ _ room => exact room
  | @v _ s raises =>
    rw [raises]
    by_contra full
    have small := (sound s).small
    have negative := v_wraps (k := k) (s := s) (by omega)
    have nonneg := (conserved s).nonneg
    omega

-- In the states of a run everything is accounted for exactly when no V of the run was
-- called at the largest int.
theorem semaphore_conserved (range : ∀ s, 0 ≤ initialValue s ∧ initialValue s < 2 ^ 31) (runs : Runs initialValue log k) :
    ((∀ s, Conserved initialValue k s) ∧ ∀ entry ∈ log, ∀ s, Conserved initialValue entry.1 s) ↔
      ∀ entry ∈ log, Room entry.1 entry.2 := by
  induction runs with
  | initial => simpa using fun s => (initial_sound (T := T) range s).conserved
  | @step log k action after before stepped ih =>
    rw [List.forall_mem_cons,List.forall_mem_cons,← ih]
    constructor
    · rintro ⟨conserved,earlier,older⟩
      have room := ih.mp ⟨earlier,older⟩
      exact ⟨step_room (runs_sound range before room) (step_sound stepped) conserved,earlier,older⟩
    · rintro ⟨here,earlier,older⟩
      have room := ih.mp ⟨earlier,older⟩
      have sound := step_keeps_sound (runs_sound range before room) (step_sound stepped) here
      exact ⟨fun s => (sound s).conserved,earlier,older⟩

-- Two threads sleep, a handler raises the semaphore and wakes one of them, and a
-- third thread takes the unit first.
def overtaken : Semaphores (Option Bool) Unit :=
  ((((initial fun _ => 0).p none ()).p (some false) ()).v ()).p (some true) ()

theorem semaphore_conserved_overtaken : (overtaken.semaphore ()).queue = [some false] ∧
    overtaken.status none = .READY ∧ overtaken.inside none = some () ∧ Conserved (fun _ => 0) overtaken () := by
  let start : Semaphores (Option Bool) Unit := initial fun _ => 0
  have runs : Runs (fun _ => 0) [(((start.p none ()).p (some false) ()).v (),.p (some true) ()),
      ((start.p none ()).p (some false) (),.handler ()),(start.p none (),.p (some false) ()),(start,.p none ())] overtaken := by
    have first : step start (.p none ()) = some (start.p none ()) := rfl
    have second : step (start.p none ()) (.p (some false) ()) = some _ := rfl
    have third : step ((start.p none ()).p (some false) ()) (.handler ()) = some _ := rfl
    have fourth : step (((start.p none ()).p (some false) ()).v ()) (.p (some true) ()) = some _ := rfl
    exact .step (.step (.step (.step .initial first) second) third) fourth
  have room : Room ((start.p none ()).p (some false) ()) (.handler ()) := by rw [Room]; decide
  refine ⟨rfl,rfl,rfl,?_⟩
  exact ((semaphore_conserved (fun _ => by decide) runs).mpr (by simpa using ⟨trivial,room,trivial,trivial⟩)).1 ()

-- One V at the largest int.
theorem semaphore_overflows : ∃ (log : List (Semaphores Unit Unit × Action Unit Unit)) (k : Semaphores Unit Unit),
    Runs (fun _ => 2147483647) log k ∧ (k.semaphore ()).value = -2147483648 ∧ ¬Conserved (fun _ => 2147483647) k () := by
  let start : Semaphores Unit Unit := initial fun _ => 2147483647
  have raised : ((start.v ()).semaphore ()).value = -2147483648 := by decide
  refine ⟨_,start.v (),.step .initial (show step start (.v () ()) = some (start.v ()) from rfl),raised,?_⟩
  intro conserved
  have nonneg := conserved.nonneg
  omega

end
end Semaphores
end Nachos
