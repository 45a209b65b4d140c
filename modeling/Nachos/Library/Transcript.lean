import Mathlib.Logic.Function.Basic
import Mathlib.Data.List.Basic

-- A text that several writers, or readers, go through one piece after the other. What is
-- there is the pieces that are complete, and behind them the part of whoever is at work.
namespace Transcript

variable {T A : Type} {part : T → Option (List A)} {pieces : List (List A)} {text p more : List A} {t : T}

def Spells (part : T → Option (List A)) (pieces : List (List A)) (text : List A) : Prop :=
  ∃ rest, text = pieces.flatten ++ rest ∧ (∀ t p, part t = some p → rest = p) ∧ ((∀ t, part t = none) → rest = [])

theorem spells_nothing : Spells (fun _ : T => none) ([] : List (List A)) [] :=
  ⟨[],rfl,fun _ _ wrong => (by cases wrong),fun _ => rfl⟩

variable [DecidableEq T]

theorem update_part (others : ∀ u, u ≠ t → part u = none) (now : Option (List A)) (found : Function.update part t now u = some p) :
    now = some p := by
  by_cases same : u = t
  · subst same
    simpa using found
  · rw [Function.update_of_ne same,others u same] at found
    cases found

theorem spells_begins (spells : Spells part pieces text) (nobody : ∀ u, part u = none) (t : T) :
    Spells (Function.update part t (some [])) pieces text := by
  obtain ⟨rest,same,_,empty⟩ := spells
  obtain rfl := empty nobody
  refine ⟨[],same,fun u p found => ?_,fun _ => rfl⟩
  cases update_part (fun u _ => nobody u) _ found
  rfl

theorem spells_extends (spells : Spells part pieces text) (others : ∀ u, u ≠ t → part u = none) (mine : part t = some p)
    (more : List A) : Spells (Function.update part t (some (p ++ more))) pieces (text ++ more) := by
  obtain ⟨rest,same,now,_⟩ := spells
  obtain rfl := now t p mine
  refine ⟨rest ++ more,by rw [same,List.append_assoc],fun u q found => ?_,fun nobody => ?_⟩
  · cases update_part others _ found
    rfl
  · simpa using nobody t

theorem spells_ends (spells : Spells part pieces text) (others : ∀ u, u ≠ t → part u = none) (mine : part t = some p) :
    Spells (Function.update part t none) (pieces ++ [p]) text := by
  obtain ⟨rest,same,now,_⟩ := spells
  obtain rfl := now t p mine
  refine ⟨[],by simpa using same,fun u q found => ?_,fun _ => rfl⟩
  cases update_part others _ found

end Transcript
