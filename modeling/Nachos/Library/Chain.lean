import Mathlib.Data.List.Nodup

-- Cells with a value and a pointer to the next cell; the null pointer is `none`.
namespace Chain

variable {A V : Type}

-- From one pointer to another through the given cells, which hold the given values.
inductive Segment (cell : A → Option (V × Option A)) : Option A → List A → List V → Option A → Prop where
  | nil : Segment cell p [] [] p
  | cons (here : cell a = some (v,p)) (rest : Segment cell p places values q) :
      Segment cell (some a) (a :: places) (v :: values) q

variable {cell cell' : A → Option (V × Option A)} {p q r : Option A} {a b : A} {v w : V} {places others : List A}
  {values more : List V}

theorem Segment.append (left : Segment cell p places values q) (right : Segment cell q others more r) :
    Segment cell p (places ++ others) (values ++ more) r := by
  induction left with
  | nil => exact right
  | cons here _ ih => exact .cons here (ih right)

theorem Segment.split (whole : Segment cell p (places ++ others) values r) :
    ∃ before after q, values = before ++ after ∧ Segment cell p places before q ∧ Segment cell q others after r := by
  induction places generalizing p values with
  | nil => exact ⟨[],values,p,rfl,.nil,whole⟩
  | cons a places ih =>
    cases whole with
    | cons here rest =>
      obtain ⟨before,after,q,rfl,left,right⟩ := ih rest
      exact ⟨_ :: before,after,q,rfl,.cons here left,right⟩

theorem Segment.length (segment : Segment cell p places values q) : places.length = values.length := by
  induction segment with
  | nil => rfl
  | cons _ _ ih => rw [List.length_cons,List.length_cons,ih]

-- The cells outside do not matter.
theorem Segment.frame (segment : Segment cell p places values q) (same : ∀ a ∈ places, cell' a = cell a) :
    Segment cell' p places values q := by
  induction segment with
  | nil => exact .nil
  | cons here _ ih =>
    refine .cons ((same _ List.mem_cons_self).trans here) (ih fun a member => ?_)
    exact same a (List.mem_cons_of_mem _ member)

-- The last cell of a segment that has one.
theorem Segment.back (segment : Segment cell p (places ++ [a]) values q) :
    ∃ before v, values = before ++ [v] ∧ Segment cell p places before (some a) ∧ cell a = some (v,q) := by
  obtain ⟨before,after,r,rfl,left,right⟩ := segment.split
  cases right with
  | cons here rest =>
    cases rest with
    | nil => exact ⟨before,_,rfl,left,here⟩

-- A new cell b behind a.
theorem Segment.splice (left : Segment cell p places values (some a)) (here : cell a = some (v,q))
    (right : Segment cell q others more r) (distinct : (places ++ a :: others).Nodup) (fresh : b ∉ places ++ a :: others)
    (one : cell' a = some (v,some b)) (two : cell' b = some (w,q)) (same : ∀ c, c ≠ a → c ≠ b → cell' c = cell c) :
    Segment cell' p (places ++ a :: b :: others) (values ++ v :: w :: more) r := by
  obtain ⟨_,tail,apart⟩ := List.nodup_append.mp distinct
  have behind := (List.nodup_cons.mp tail).1
  simp only [List.mem_append,List.mem_cons,not_or] at fresh
  have before : Segment cell' p places values (some a) := by
    refine left.frame fun c member => same c ?_ ?_
    · exact apart c member a List.mem_cons_self
    · rintro rfl
      exact fresh.1 member
  have after : Segment cell' q others more r := by
    refine right.frame fun c member => same c ?_ ?_
    · rintro rfl
      exact behind member
    · rintro rfl
      exact fresh.2.2 member
  exact before.append (.cons one (.cons two after))

theorem splice_nodup (distinct : (places ++ a :: others).Nodup) (fresh : b ∉ places ++ a :: others) :
    (places ++ a :: b :: others).Nodup := by
  have moved : (places ++ a :: b :: others).Perm (b :: (places ++ a :: others)) := by
    rw [List.append_cons places a (b :: others),List.append_cons places a others]
    exact List.perm_middle
  exact moved.nodup_iff.mpr (List.nodup_cons.mpr ⟨fresh,distinct⟩)

end Chain
