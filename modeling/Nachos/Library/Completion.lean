import Nachos.Library.Signed
import Nachos.Library.Trace
import Mathlib.Logic.Function.Basic

-- A device that does one job at a time. A caller starts a job and sleeps on a
-- counting semaphore of 32 bits until the completion that the job scheduled raises it.
namespace Completion
open Protocol Signed

inductive Phase (J : Type) where
  | away
  | testing (number : Nat) (job : J)
  | asleep (number : Nat) (job : J)
  | leaving (number : Nat) (job : J)
  deriving DecidableEq, Repr

inductive Event (J : Type) where
  | requested (number : Nat) (job : J)
  | done (number : Nat)
  | returned (number : Nat) (job : J)
  deriving DecidableEq, Repr

structure Desk (T J : Type) where
  scheduled : List Nat
  value : Int
  queue : List T
  phase : T → Phase J

-- One job after the other, each completed and only then returned from.
inductive Stage (J : Type) where
  | idle
  | busy (number : Nat) (job : J)
  | finished (number : Nat) (job : J)
  deriving DecidableEq, Repr

inductive Serves : Stage J → Event J → Stage J → Prop where
  | requested : Serves .idle (.requested number job) (.busy number job)
  | done : Serves (.busy number job) (.done number) (.finished number job)
  | returned : Serves (.finished number job) (.returned number job) .idle

def Phase.woken : Phase J → Phase J
  | .asleep number job => .testing number job
  | phase => phase

-- What a step can do. A job is started only while every caller is away.
inductive Moves [DecidableEq T] (d : Desk T J) : Desk T J → List (Event J) → Prop where
  | rests : Moves d d []
  | requests : (∀ u, d.phase u = .away) →
      Moves d {d with
        scheduled := d.scheduled ++ [number]
        phase := Function.update d.phase t (.testing number job)} [.requested number job]
  | sleeps : d.phase t = .testing number job → d.value = 0 →
      Moves d {d with queue := d.queue ++ [t], phase := Function.update d.phase t (.asleep number job)} []
  | takes : d.phase t = .testing number job → d.value ≠ 0 →
      Moves d {d with value := wrap 32 (d.value - 1), phase := Function.update d.phase t (.leaving number job)} []
  | leaves : d.phase t = .leaving number job →
      Moves d {d with phase := Function.update d.phase t .away} [.returned number job]
  | completes : d.scheduled = number :: rest → d.queue = [] →
      Moves d {d with scheduled := rest, value := wrap 32 (d.value + 1)} [.done number]
  | wakes : d.scheduled = number :: rest → d.queue = t :: later →
      Moves d ⟨rest,wrap 32 (d.value + 1),later,Function.update d.phase t (d.phase t).woken⟩ [.done number]

-- Where the callers and the semaphore are at each stage.
inductive Fits (d : Desk T J) : Stage J → Prop where
  | idle : (∀ t, d.phase t = .away) → d.scheduled = [] → d.value = 0 → d.queue = [] → Fits d .idle
  | testing : (∀ u, u ≠ t → d.phase u = .away) → d.phase t = .testing number job → d.scheduled = [number] →
      d.value = 0 → d.queue = [] → Fits d (.busy number job)
  | asleep : (∀ u, u ≠ t → d.phase u = .away) → d.phase t = .asleep number job → d.scheduled = [number] →
      d.value = 0 → d.queue = [t] → Fits d (.busy number job)
  | credited : (∀ u, u ≠ t → d.phase u = .away) → d.phase t = .testing number job → d.scheduled = [] →
      d.value = 1 → d.queue = [] → Fits d (.finished number job)
  | leaving : (∀ u, u ≠ t → d.phase u = .away) → d.phase t = .leaving number job → d.scheduled = [] →
      d.value = 0 → d.queue = [] → Fits d (.finished number job)

section
variable {T J : Type} {d d' : Desk T J} {stage : Stage J}

-- The one caller that is not away is the one whose phase is known.
theorem Fits.unique (free : ∀ u, u ≠ t → d.phase u = .away) (busy : d.phase u ≠ .away) : u = t := by
  by_contra other
  exact busy (free u other)

theorem others_keep [DecidableEq T] (free : ∀ u, u ≠ t → d.phase u = .away) (phase : Phase J) :
    ∀ u, u ≠ t → Function.update d.phase t phase u = .away := by
  intro u other
  simpa [other] using free u other

theorem step_fits [DecidableEq T] (fits : Fits d stage) (moves : Moves d d' events) :
    ∃ stage', Fits d' stage' ∧ ((events = [] ∧ stage' = stage) ∨ ∃ e, events = [e] ∧ Serves stage e stage') := by
  cases moves with
  | rests => exact ⟨stage,fits,.inl ⟨rfl,rfl⟩⟩
  | @requests number t job free =>
    cases fits with
    | idle _ scheduled value queue =>
      refine ⟨.busy number job,.testing (t := t) (others_keep (fun u _ => free u) _) ?_ ?_ value queue,.inr ⟨_,rfl,.requested⟩⟩
      · simp
      · simp [scheduled]
    | testing _ place | asleep _ place | credited _ place | leaving _ place => exact absurd place (by simp [free])
  | @sleeps t number job place empty =>
    have busy : d.phase t ≠ .away := by simp [place]
    cases fits with
    | idle free => exact absurd (free t) busy
    | @testing u n j free here scheduled value queue =>
      obtain rfl := Fits.unique free busy
      cases place.symm.trans here
      refine ⟨_,.asleep (t := t) (others_keep free _) ?_ scheduled value ?_,.inl ⟨rfl,rfl⟩⟩
      · simp
      · simp [queue]
    | @asleep u n j free here | @leaving u n j free here =>
      obtain rfl := Fits.unique free busy
      cases place.symm.trans here
    | credited _ _ _ value => simp [value] at empty
  | @takes t number job place some_ =>
    have busy : d.phase t ≠ .away := by simp [place]
    cases fits with
    | idle free => exact absurd (free t) busy
    | testing _ _ _ value | asleep _ _ _ value | leaving _ _ _ value => exact absurd value some_
    | @credited u n j free here scheduled value queue =>
      obtain rfl := Fits.unique free busy
      cases place.symm.trans here
      refine ⟨_,.leaving (t := t) (others_keep free _) ?_ scheduled ?_ queue,.inl ⟨rfl,rfl⟩⟩
      · simp
      · simp only [value]; rfl
  | @leaves t number job place =>
    have busy : d.phase t ≠ .away := by simp [place]
    cases fits with
    | idle free => exact absurd (free t) busy
    | @testing u n j free here | @asleep u n j free here | @credited u n j free here =>
      obtain rfl := Fits.unique free busy
      cases place.symm.trans here
    | @leaving u n j free here scheduled value queue =>
      obtain rfl := Fits.unique free busy
      cases place.symm.trans here
      refine ⟨.idle,.idle ?_ scheduled value queue,.inr ⟨_,rfl,.returned⟩⟩
      intro u
      by_cases same : u = t
      · subst same; simp
      · simpa [same] using free u same
  | completes waiting nobody =>
    cases fits with
    | idle _ scheduled | credited _ _ scheduled | leaving _ _ scheduled => simp [scheduled] at waiting
    | @testing u n j free here scheduled value queue =>
      rw [scheduled] at waiting
      cases waiting
      exact ⟨_,.credited free here rfl (by simp only [value]; rfl) queue,.inr ⟨_,rfl,.done⟩⟩
    | asleep _ _ _ _ queue => simp [queue] at nobody
  | wakes waiting first =>
    cases fits with
    | idle _ scheduled | credited _ _ scheduled | leaving _ _ scheduled => simp [scheduled] at waiting
    | testing _ _ _ _ queue => simp [queue] at first
    | @asleep u n j free here scheduled value queue =>
      rw [scheduled] at waiting
      cases waiting
      rw [queue] at first
      cases first
      refine ⟨_,.credited (others_keep free _) ?_ rfl ?_ rfl,.inr ⟨_,rfl,.done⟩⟩
      · simp [here,Phase.woken]
      · simp only [value]; rfl

-- A call returns right after the completion of its own job.
theorem trace_returned {newer older : List (Event J)}
    (trace : Trace .idle Serves stage (newer ++ Event.returned number job :: older)) :
    ∃ before : List (Event J), older = .done number :: .requested number job :: before := by
  obtain ⟨x,y,prior,serves⟩ := trace.split
  cases serves
  cases prior with
  | step earlier done =>
    cases done
    cases earlier with
    | step first requested =>
      cases requested
      exact ⟨_,rfl⟩

end
end Completion
