import Mathlib.Logic.Function.Basic
import Nachos.Library.Trace

-- Objects whose calls take effect one at a time. A call does so at one moment
-- between its invocation and its return, so the order of these moments is a
-- sequential order of the calls that agrees with real time.
namespace Atomic
open Protocol

inductive Event (T K R : Type) where
  | called (thread : T) (call : K)
  | returned (thread : T) (call : K) (result : R)
  deriving DecidableEq, Repr

-- The events with the moments of effect among them.
inductive Mark (T K R : Type) where
  | called (thread : T) (call : K)
  | took (thread : T) (call : K) (result : R)
  | returned (thread : T) (call : K) (result : R)
  deriving DecidableEq, Repr

inductive Phase (K R : Type) where
  | idle
  | pending (call : K)
  | done (call : K) (result : R)
  deriving DecidableEq, Repr

def Mark.event : Mark T K R → Option (Event T K R)
  | .called t k => some (.called t k)
  | .took _ _ _ => none
  | .returned t k r => some (.returned t k r)

theorem returned_shown (log : List (Mark T K R)) :
    .returned t k r ∈ log.filterMap Mark.event ↔ .returned t k r ∈ log := by
  rw [List.mem_filterMap]
  constructor
  · rintro ⟨mark,present,event⟩
    cases mark with
    | called | took => simp [Mark.event] at event
    | returned =>
      simp only [Mark.event,Option.some.injEq,Event.returned.injEq] at event
      obtain ⟨rfl,rfl,rfl⟩ := event
      exact present
  · exact fun present => ⟨_,present,rfl⟩

section
variable [DecidableEq T]

inductive Passes (apply : A → K → A × R) : A × (T → Phase K R) → Mark T K R → A × (T → Phase K R) → Prop where
  | called : phase t = .idle → Passes apply (a,phase) (.called t k) (a,Function.update phase t (.pending k))
  | took : phase t = .pending k →
      Passes apply (a,phase) (.took t k (apply a k).2)
        ((apply a k).1,Function.update phase t (.done k (apply a k).2))
  | returned : phase t = .done k r → Passes apply (a,phase) (.returned t k r) (a,Function.update phase t .idle)

-- A log of the object with its moments of effect, newest first.
def Logged (apply : A → K → A × R) (start : A) (a : A) (phase : T → Phase K R) (log : List (Mark T K R)) : Prop :=
  Trace (start,fun _ => .idle) (Passes apply) (a,phase) log

def Linearizable (apply : A → K → A × R) (start : A) (history : List (Event T K R)) : Prop :=
  ∃ a phase log, Logged apply start a phase log ∧ log.filterMap Mark.event = history

variable {apply : A → K → A × R} {start a : A} {phase : T → Phase K R} {log : List (Mark T K R)}

theorem Logged.called (logged : Logged apply start a phase log) (idle : phase t = .idle) (k : K) :
    Logged apply start a (Function.update phase t (.pending k)) (.called t k :: log) :=
  .step logged (.called idle)

theorem Logged.took (logged : Logged apply start a phase log) (pending : phase t = .pending k)
    (effect : apply a k = (a',r)) :
    Logged apply start a' (Function.update phase t (.done k r)) (.took t k r :: log) := by
  have passes : Passes apply (a,phase) (.took t k (apply a k).2) _ := .took pending
  rw [effect] at passes
  exact .step logged passes

theorem Logged.returned (logged : Logged apply start a phase log) (done : phase t = .done k r) :
    Logged apply start a (Function.update phase t .idle) (.returned t k r :: log) :=
  .step logged (.returned done)

-- A property of the log and the two states that every mark keeps holds throughout.
theorem Logged.invariant (inv : A → (T → Phase K R) → List (Mark T K R) → Prop)
    (begins : inv start (fun _ => .idle) [])
    (calls : ∀ a phase log t k, inv a phase log → phase t = .idle →
      inv a (Function.update phase t (.pending k)) (.called t k :: log))
    (takes : ∀ a phase log t k, inv a phase log → phase t = .pending k →
      inv (apply a k).1 (Function.update phase t (.done k (apply a k).2)) (.took t k (apply a k).2 :: log))
    (returns : ∀ a phase log t k r, inv a phase log → phase t = .done k r →
      inv a (Function.update phase t .idle) (.returned t k r :: log))
    (logged : Logged apply start a phase log) : inv a phase log := by
  have all : ∀ x log, Trace (start,fun _ => Phase.idle) (Passes apply) x log → inv x.1 x.2 log := by
    intro x log trace
    induction trace with
    | start => exact begins
    | step _ passed ih =>
      cases passed with
      | called idle => exact calls _ _ _ _ _ ih idle
      | took pending => exact takes _ _ _ _ _ ih pending
      | returned done => exact returns _ _ _ _ _ _ ih done
  exact all _ _ logged

end
end Atomic
