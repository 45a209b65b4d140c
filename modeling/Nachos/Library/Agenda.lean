import Mathlib.Order.Lattice
import Mathlib.Data.List.Perm.Basic

-- Lists kept in the order of a key, and what is left of them after a time.
namespace Agenda

variable {α K : Type} [LinearOrder K] {key : α → K}

-- Behind every entry whose key is not larger.
def sortedInsert (key : α → K) (item : α) : List α → List α
  | [] => [item]
  | first :: rest => if key item < key first then item :: first :: rest else first :: sortedInsert key item rest

def Sorted (key : α → K) (list : List α) : Prop := list.Pairwise fun a b => key a ≤ key b

-- The number of entries whose time has come.
def due (key : α → K) (now : K) (list : List α) : Nat := list.countP fun a => key a ≤ now

theorem sortedInsert_perm (item : α) (list : List α) : (sortedInsert key item list).Perm (item :: list) := by
  induction list with
  | nil => exact .refl _
  | cons first rest ih =>
    unfold sortedInsert
    split
    · exact .refl _
    · exact (ih.cons first).trans (.swap item first rest)

theorem mem_sortedInsert {list : List α} : a ∈ sortedInsert key item list ↔ a = item ∨ a ∈ list := by
  rw [(sortedInsert_perm item list).mem_iff,List.mem_cons]

theorem sortedInsert_sorted (sorted : Sorted key list) (item : α) : Sorted key (sortedInsert key item list) := by
  induction list with
  | nil => simp [sortedInsert,Sorted]
  | cons first rest ih =>
    obtain ⟨least,tail⟩ := List.pairwise_cons.mp sorted
    unfold sortedInsert
    split
    · rename_i before
      refine List.pairwise_cons.mpr ⟨?_,sorted⟩
      intro a member
      rcases List.mem_cons.mp member with rfl | later
      · exact le_of_lt before
      · exact le_trans (le_of_lt before) (least a later)
    · rename_i behind
      refine List.pairwise_cons.mpr ⟨?_,ih tail⟩
      intro a member
      rcases mem_sortedInsert.mp member with rfl | later
      · exact le_of_not_gt behind
      · exact least a later

theorem due_sortedInsert (item : α) (list : List α) (now : K) :
    due key now (sortedInsert key item list) = due key now list + if key item ≤ now then 1 else 0 := by
  rw [due,(sortedInsert_perm item list).countP_eq,List.countP_cons]
  simp [due]

-- Entries with equal keys stand in the order of a stamp.
def Stable (key : α → K) (stamp : α → Nat) (list : List α) : Prop :=
  list.Pairwise fun a b => key a = key b → stamp a < stamp b

-- An item goes behind its equals, so a list that gets only new ones is stable.
theorem sortedInsert_stable {stamp : α → Nat} (sorted : Sorted key list) (stable : Stable key stamp list)
    (new : ∀ a ∈ list, stamp a < stamp item) : Stable key stamp (sortedInsert key item list) := by
  induction list with
  | nil => simp [sortedInsert,Stable]
  | cons first rest ih =>
    obtain ⟨least,tail⟩ := List.pairwise_cons.mp sorted
    obtain ⟨ahead,behind⟩ := List.pairwise_cons.mp stable
    unfold sortedInsert
    split
    · rename_i before
      refine List.pairwise_cons.mpr ⟨?_,stable⟩
      intro a member same
      have beyond : key first ≤ key a := by
        rcases List.mem_cons.mp member with rfl | later
        · exact le_rfl
        · exact least a later
      exact absurd (same ▸ beyond) (not_le_of_gt before)
    · refine List.pairwise_cons.mpr ⟨?_,ih tail behind fun a member => new a (by simp [member])⟩
      intro a member same
      rcases mem_sortedInsert.mp member with rfl | later
      · exact new first (by simp)
      · exact ahead a later same

-- Among the entries with one key, an item goes behind all the others.
theorem sortedInsert_filter (sorted : Sorted key list) (item : α) (k : K) :
    (sortedInsert key item list).filter (fun a => decide (key a = k)) =
      list.filter (fun a => decide (key a = k)) ++ if key item = k then [item] else [] := by
  induction list with
  | nil => by_cases same : key item = k <;> simp [sortedInsert,same]
  | cons first rest ih =>
    obtain ⟨least,tail⟩ := List.pairwise_cons.mp sorted
    unfold sortedInsert
    split
    · rename_i before
      by_cases same : key item = k
      · have none : (first :: rest).filter (fun a => decide (key a = k)) = [] := by
          rw [List.filter_eq_nil_iff]
          intro a member equal
          rw [decide_eq_true_eq,← same] at equal
          rcases List.mem_cons.mp member with rfl | later
          · exact absurd equal (ne_of_gt before)
          · exact absurd (equal ▸ least a later) (not_le_of_gt before)
        rw [List.filter_cons_of_pos (by simpa using same),none,if_pos same]
        rfl
      · rw [List.filter_cons_of_neg (by simpa using same),if_neg same,List.append_nil]
    · by_cases same : key first = k
      · rw [List.filter_cons_of_pos (by simpa using same),List.filter_cons_of_pos (by simpa using same),ih tail]
        rfl
      · rw [List.filter_cons_of_neg (by simpa using same),List.filter_cons_of_neg (by simpa using same),ih tail]

-- Where the first entry is alone with its key, it goes back to its place.
theorem sortedInsert_first (sorted : Sorted key (first :: rest)) (alone : ∀ a ∈ rest.head?, key a ≠ key first) :
    sortedInsert key first rest = first :: rest := by
  cases rest with
  | nil => rfl
  | cons next rest =>
    have least := (List.pairwise_cons.mp sorted).1 next (by simp)
    have less : key first < key next := lt_of_le_of_ne least fun same => alone next (by simp) same.symm
    simp [sortedInsert,less]

-- When the first entry is not due, none is.
theorem sorted_later (sorted : Sorted key (first :: rest)) (late : now < key first) :
    ∀ a ∈ first :: rest, now < key a := by
  intro a member
  rcases List.mem_cons.mp member with rfl | later
  · exact late
  · exact lt_of_lt_of_le late ((List.pairwise_cons.mp sorted).1 a later)

end Agenda
