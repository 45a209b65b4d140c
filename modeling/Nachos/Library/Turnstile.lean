import Nachos.Library.Tally

-- Threads that sleep while a counter is zero. Whoever raises the counter wakes
-- one of them; the others may come first and take what was meant for it. Nothing
-- is ever left over for a sleeper.
namespace Turnstile
open Tally

variable [Fintype P] [DecidableEq P]

-- `some true` is asleep, `some false` woken and on the way back to its test.
def Enough (count : Int) (waiting : P → Option Bool) : Prop :=
  (∃ p, waiting p = some true) → count ≤ tally fun p => waiting p = some false

variable {count : Int} {waiting : P → Option Bool}

theorem woken_moves (waiting : P → Option Bool) (p : P) (now : Option Bool) :
    (tally fun q => Function.update waiting p now q = some false : Int) =
      (tally fun q => waiting q = some false) + (if now = some false then 1 else 0) -
        (if waiting p = some false then 1 else 0) := by
  have moved := tally_update waiting (fun b => b = some false) p now
  simp only [decide_eq_true_eq] at moved
  split at moved <;> split at moved <;> simp_all
  all_goals omega

theorem Enough.wakes (enough : Enough count waiting) (sleeping : waiting p = some true) :
    Enough (count + 1) (Function.update waiting p (some false)) := by
  intro _
  have bound := enough ⟨p,sleeping⟩
  rw [woken_moves,sleeping]
  simp
  omega

omit [DecidableEq P] in
theorem Enough.less (enough : Enough (count + 1) waiting) : Enough count waiting := by
  intro sleeping
  have bound := enough sleeping
  omega

omit [DecidableEq P] in
theorem Enough.unheard (nobody : ∀ p, waiting p ≠ some true) : Enough count waiting :=
  fun ⟨p,sleeping⟩ => absurd sleeping (nobody p)

omit [DecidableEq P] in
theorem Enough.none_left (waiting : P → Option Bool) (empty : count ≤ 0) : Enough count waiting := fun _ => by omega

omit [DecidableEq P] in
theorem Enough.zero (waiting : P → Option Bool) : Enough 0 waiting := .none_left waiting le_rfl

-- Whoever takes one was not asleep.
theorem Enough.takes (enough : Enough count waiting) (awake : waiting p ≠ some true) :
    Enough (count - 1) (Function.update waiting p none) := by
  rintro ⟨q,sleeping⟩
  have differs : q ≠ p := by rintro rfl; simp at sleeping
  have bound := enough ⟨q,by simpa [differs] using sleeping⟩
  rw [woken_moves]
  split <;> simp <;> omega

-- A thread that leaves the turnstile without taking one was not there.
theorem Enough.moves (enough : Enough count waiting) (before : waiting p = none) :
    Enough count (Function.update waiting p none) := by
  rwa [Function.update_eq_self_iff.mpr before.symm]

-- With nobody on the way back to its test, a sleeper means that none is left.
omit [DecidableEq P] in
theorem Enough.none_over (enough : Enough count waiting) (nobody : ∀ p, waiting p ≠ some false)
    (sleeping : waiting p = some true) : count ≤ 0 := by
  have bound := enough ⟨p,sleeping⟩
  have empty : (tally fun p => waiting p = some false) = 0 := tally_eq_zero.mpr fun p => by simp [nobody p]
  omega

end Turnstile
