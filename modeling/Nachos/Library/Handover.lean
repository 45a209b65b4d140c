import Mathlib.Data.List.Basic
import Nachos.Library.Trace

-- A thing with one owner and a queue, where the owner hands it to the first in the
-- queue. Logs are newest first.
namespace Handover
open Protocol

-- `slept` tells whether the new owner was in the queue.
inductive Turn (P : Type) where
  | joined (p : P)
  | granted (p : P) (slept : Bool)
  | freed
  deriving DecidableEq, Repr

structure Line (P : Type) where
  owner : Option P
  queue : List P

def Line.free : Line P := ⟨none,[]⟩

inductive Pass : Line P → Turn P → Line P → Prop where
  | takes : Pass .free (.granted p false) ⟨some p,[]⟩
  | joins : Pass ⟨some owner,queue⟩ (.joined p) ⟨some owner,queue ++ [p]⟩
  | hands : Pass ⟨some owner,p :: rest⟩ (.granted p true) ⟨some p,rest⟩
  | frees : Pass ⟨some owner,[]⟩ .freed .free

-- Those that joined the queue and those that became owner out of it, oldest first.
def joined (log : List (Turn P)) : List P :=
  log.reverse.filterMap fun
    | .joined p => some p
    | _ => none

def grantedAsleep (log : List (Turn P)) : List P :=
  log.reverse.filterMap fun
    | .granted p true => some p
    | _ => none

variable {x y : Line P}

-- First in, first out: whoever joined is granted in that order, or still in the queue.
theorem trace_fifo (trace : Trace x Pass y log) : x.queue ++ joined log = grantedAsleep log ++ y.queue := by
  induction trace with
  | start => simp [joined,grantedAsleep]
  | step _ passed ih =>
    cases passed with
    | takes | frees => simpa [joined,grantedAsleep,Line.free] using ih
    | joins =>
      simp only [joined,grantedAsleep,List.reverse_cons,List.filterMap_append] at ih ⊢
      rw [← List.append_assoc,ih]
      simp
    | hands =>
      simp only [joined,grantedAsleep,List.reverse_cons,List.filterMap_append] at ih ⊢
      rw [← List.append_assoc,ih]
      simp

-- Until p has had its turn, nobody comes in front of it.
theorem trace_ahead (trace : Trace x Pass y log) (waits : x.queue = ahead ++ p :: behind) (later : u ∉ ahead) :
    (∃ slept, .granted p slept ∈ log) ∨ ∃ ahead behind, y.queue = ahead ++ p :: behind ∧ u ∉ ahead := by
  induction trace with
  | start => exact Or.inr ⟨ahead,behind,waits,later⟩
  | step _ passed ih =>
    rcases ih with ⟨slept,had⟩ | ⟨ahead,behind,queue,later⟩
    · exact Or.inl ⟨slept,List.mem_cons_of_mem _ had⟩
    · cases passed with
      | takes | frees => simp [Line.free] at queue
      | @joins owner waiting v =>
        have queue : waiting = ahead ++ p :: behind := queue
        exact Or.inr ⟨ahead,behind ++ [v],by simp [queue],later⟩
      | hands =>
        cases ahead with
        | nil =>
          obtain ⟨rfl,_⟩ := List.cons.inj queue
          exact Or.inl ⟨true,by simp⟩
        | cons first ahead =>
          exact Or.inr ⟨ahead,behind,(List.cons.inj queue).2,fun member => later (List.mem_cons_of_mem _ member)⟩

-- So nobody who is not in front of p becomes owner before p does.
theorem trace_turn {newer older : List (Turn P)} (trace : Trace x Pass y log) (waits : x.queue = ahead ++ p :: behind) (later : u ∉ ahead)
    (other : u ≠ p) (turn : log = newer ++ Turn.granted u slept :: older) :
    ∃ slept : Bool, Turn.granted p slept ∈ older := by
  induction trace generalizing newer with
  | start => simp at turn
  | step before passed ih =>
    cases newer with
    | cons first newer => exact ih (List.cons.inj turn).2
    | nil =>
      obtain ⟨rfl,rfl⟩ := List.cons.inj turn
      rcases trace_ahead before waits later with had | ⟨ahead,behind,queue,later⟩
      · exact had
      · cases passed with
        | takes => simp [Line.free] at queue
        | hands =>
          cases ahead with
          | nil => exact absurd (List.cons.inj queue).1 other
          | cons first ahead =>
            obtain ⟨rfl,_⟩ := List.cons.inj queue
            exact absurd (List.mem_cons_self ..) later

end Handover
