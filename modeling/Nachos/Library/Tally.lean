import Mathlib.Data.Fintype.Card
import Mathlib.Algebra.BigOperators.Group.Finset.Basic
import Mathlib.Algebra.Order.Ring.Int

-- How many elements of a finite type have a property, and how that number moves
-- when the property changes at one element.
namespace Tally

variable [Fintype α]

def tally (P : α → Bool) : Nat := (Finset.univ.filter fun x => P x = true).card

variable {P Q : α → Bool}

theorem tally_congr (same : ∀ x, P x = Q x) : tally P = tally Q := by
  rw [show P = Q from funext same]

theorem tally_le (P : α → Bool) : tally P ≤ Fintype.card α := Finset.card_le_univ _

theorem tally_pos : 0 < tally P ↔ ∃ x, P x = true := by
  simp [tally,Finset.card_pos,Finset.filter_nonempty_iff]

theorem tally_eq_zero : tally P = 0 ↔ ∀ x, P x = false := by
  simp [tally,Finset.filter_eq_empty_iff]

theorem tally_gain [DecidableEq α] (x : α) (before : P x = false) (after : Q x = true)
    (others : ∀ y, y ≠ x → Q y = P y) : tally Q = tally P + 1 := by
  have grown : (Finset.univ.filter fun y => Q y = true) = insert x (Finset.univ.filter fun y => P y = true) := by
    ext y
    by_cases same : y = x
    · subst same; simp [after]
    · simp [same,others y same]
  rw [tally,grown,Finset.card_insert_of_notMem (by simp [before]),tally]

theorem tally_loss [DecidableEq α] (x : α) (before : P x = true) (after : Q x = false)
    (others : ∀ y, y ≠ x → Q y = P y) : tally P = tally Q + 1 :=
  tally_gain x after before fun y other => (others y other).symm

-- One element moves, and the count with it.
theorem tally_update [DecidableEq α] (f : α → β) (P : β → Bool) (x : α) (b : β) :
    (tally fun y => P (Function.update f x b y)) + (if P (f x) then 1 else 0) =
      (tally fun y => P (f y)) + (if P b then 1 else 0) := by
  have others : ∀ y, y ≠ x → P (Function.update f x b y) = P (f y) := fun y other => by simp [other]
  cases before : P (f x) <;> cases after : P b
  · rw [tally_congr (Q := fun y => P (f y))]
    intro y
    by_cases same : y = x
    · subst same; simp [before,after]
    · exact others y same
  · have gained := tally_gain (P := fun y => P (f y)) x before (by simpa using after) others
    simpa using gained
  · have lost := tally_loss (P := fun y => P (f y)) x before (by simpa using after) others
    simpa using lost.symm
  · rw [tally_congr (Q := fun y => P (f y))]
    intro y
    by_cases same : y = x
    · subst same; simp [before,after]
    · exact others y same

theorem tally_keeps [DecidableEq α] (f : α → β) (P : β → Bool) (x : α) (b : β) (same : P b = P (f x)) :
    (tally fun y => P (Function.update f x b y)) = tally fun y => P (f y) := by
  have moved := tally_update f P x b
  rw [same] at moved
  omega

theorem tally_gains [DecidableEq α] (f : α → β) (P : β → Bool) (x : α) (b : β) (before : P (f x) = false)
    (after : P b = true) : (tally fun y => P (Function.update f x b y)) = (tally fun y => P (f y)) + 1 := by
  simpa [before,after] using tally_update f P x b

theorem tally_loses [DecidableEq α] (f : α → β) (P : β → Bool) (x : α) (b : β) (before : P (f x) = true)
    (after : P b = false) : (tally fun y => P (Function.update f x b y)) + 1 = tally fun y => P (f y) := by
  simpa [before,after] using tally_update f P x b

-- Whether there is one does not change when one that is replaces one that is.
omit [Fintype α] in
theorem exists_keeps [DecidableEq α] {f : α → β} {P : β → Prop} {x : α} {b : β} (same : P b ↔ P (f x)) :
    (∃ y, P (Function.update f x b y)) ↔ ∃ y, P (f y) := by
  refine exists_congr fun y => ?_
  by_cases at_ : y = x
  · subst at_; simpa using same
  · simp [at_]

open scoped Classical in
-- What the elements with a property are worth together.
noncomputable def sumOver (worth : α → Int) (P : α → Prop) : Int := ∑ x, if P x then worth x else 0

theorem sumOver_congr {worth worth' : α → Int} {P Q : α → Prop} (same : ∀ x, Q x ↔ P x)
    (worths : ∀ x, P x → worth' x = worth x) : sumOver worth' Q = sumOver worth P := by
  refine Finset.sum_congr rfl ?_
  intro x _
  by_cases holds : P x
  · simp [same,holds,worths x holds]
  · simp [same,holds]

theorem sumOver_insert {worth : α → Int} {P Q : α → Prop} (x : α) (before : ¬P x) (after : ∀ y, Q y ↔ P y ∨ y = x) :
    sumOver worth Q = sumOver worth P + worth x := by
  classical
  have split : ∀ y, (if Q y then worth y else 0) = (if P y then worth y else 0) + if y = x then worth y else 0 := by
    intro y
    by_cases same : y = x
    · subst same; simp [after,before]
    · simp [after,same]
  have only : ∑ y, (if y = x then worth y else 0) = worth x := by
    rw [Finset.sum_eq_single x]
    · simp
    · intro y _ other; simp [other]
    · simp
  simp only [sumOver,split,Finset.sum_add_distrib]
  exact congrArg _ (by convert only)

theorem sumOver_empty {worth : α → Int} {P : α → Prop} (none_ : ∀ x, ¬P x) : sumOver worth P = 0 := by
  simp [sumOver,none_]

end Tally
