import Mathlib.Data.Set.Basic

-- Resources handed out to holders: each in one place, and free exactly when no
-- holder has it.
namespace Allotment
variable {ι α : Type*}

structure Allotted (held : ι → List α) (free all : Set α) : Prop where
  nodup : ∀ i, (held i).Nodup
  apart : ∀ i j a, i ≠ j → a ∈ held i → a ∉ held j
  inside : ∀ i, ∀ a ∈ held i, a ∈ all
  exact_ : ∀ a, a ∈ free ↔ a ∈ all ∧ ∀ i, a ∉ held i

namespace Allotted
variable {held : ι → List α} {free all : Set α} {i : ι} {taken : List α}

theorem not_free (allotted : Allotted held free all) (has : a ∈ held i) : a ∉ free := by
  intro unused
  exact ((allotted.exact_ a).mp unused).2 i has

variable [DecidableEq ι]

-- A holder of nothing is given free resources.
theorem take (allotted : Allotted held free all) (empty : held i = []) (nodup : taken.Nodup)
    (unused : ∀ a ∈ taken, a ∈ free) :
    Allotted (Function.update held i taken) {a | a ∈ free ∧ a ∉ taken} all := by
  have others : ∀ j, j ≠ i → Function.update held i taken j = held j := fun j differs => Function.update_of_ne differs _ _
  have own : Function.update held i taken i = taken := Function.update_self _ _ _
  have new : ∀ j a, a ∈ taken → a ∉ held j := fun j a member => ((allotted.exact_ a).mp (unused a member)).2 j
  refine ⟨?_,?_,?_,?_⟩
  · intro j
    by_cases same : j = i
    · rw [same,own]
      exact nodup
    · rw [others j same]
      exact allotted.nodup j
  · intro j k a differs has
    by_cases one : j = i
    · rw [one,own] at has
      rw [others k (by rintro rfl; exact differs one)]
      exact new k a has
    · rw [others j one] at has
      by_cases two : k = i
      · rw [two,own]
        intro member
        exact new j a member has
      · rw [others k two]
        exact allotted.apart j k a differs has
  · intro j a has
    by_cases same : j = i
    · rw [same,own] at has
      exact ((allotted.exact_ a).mp (unused a has)).1
    · rw [others j same] at has
      exact allotted.inside j a has
  · intro a
    rw [Set.mem_ofPred_eq,allotted.exact_]
    constructor
    · rintro ⟨⟨member,none⟩,left⟩
      refine ⟨member,fun j => ?_⟩
      by_cases same : j = i
      · rw [same,own]
        exact left
      · rw [others j same]
        exact none j
    · rintro ⟨member,none⟩
      have left := none i
      rw [own] at left
      refine ⟨⟨member,fun j => ?_⟩,left⟩
      by_cases same : j = i
      · rw [same,empty]
        exact List.not_mem_nil
      · have other := none j
        rwa [others j same] at other

-- A holder gives back all it has.
theorem give (allotted : Allotted held free all) (i : ι) :
    Allotted (Function.update held i []) {a | a ∈ free ∨ a ∈ held i} all := by
  have others : ∀ j, j ≠ i → Function.update held i [] j = held j := fun j differs => Function.update_of_ne differs _ _
  have own : Function.update held i [] i = [] := Function.update_self _ _ _
  have fewer : ∀ j a, a ∈ Function.update held i [] j → a ∈ held j ∧ j ≠ i := by
    intro j a has
    by_cases same : j = i
    · rw [same,own] at has
      exact absurd has List.not_mem_nil
    · rw [others j same] at has
      exact ⟨has,same⟩
  refine ⟨?_,?_,?_,?_⟩
  · intro j
    by_cases same : j = i
    · rw [same,own]
      exact List.nodup_nil
    · rw [others j same]
      exact allotted.nodup j
  · intro j k a differs one two
    exact allotted.apart j k a differs (fewer j a one).1 (fewer k a two).1
  · intro j a has
    exact allotted.inside j a (fewer j a has).1
  · intro a
    rw [Set.mem_ofPred_eq,allotted.exact_]
    constructor
    · rintro (⟨member,none⟩ | has)
      · exact ⟨member,fun j has => none j (fewer j a has).1⟩
      · exact ⟨allotted.inside i a has,fun j again => allotted.apart j i a (fewer j a again).2 (fewer j a again).1 has⟩
    · rintro ⟨member,none⟩
      by_cases has : a ∈ held i
      · exact .inr has
      · refine .inl ⟨member,fun j other => ?_⟩
        by_cases same : j = i
        · rw [same] at other
          exact has other
        · have absent := none j
          rw [others j same] at absent
          exact absent other

end Allotted
end Allotment
