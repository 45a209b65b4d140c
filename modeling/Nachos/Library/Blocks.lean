import Mathlib.Data.List.OfFn

-- Pieces of memory of a fixed size. An access that reaches outside of one is `none`.
namespace Blocks

abbrev Block (α : Type) (size : Nat) := Fin size → α

variable {α : Type} {size room : Nat}

def load (block : Block α size) (start count : Nat) : Option (List α) :=
  if inside : start + count ≤ size then some (List.ofFn fun i : Fin count => block ⟨start + i,by omega⟩) else none

def store (block : Block α size) (start : Nat) (data : List α) : Option (Block α size) :=
  if start + data.length ≤ size then
    some fun i => if within : start ≤ i ∧ i < start + data.length then data[i - start] else block i
  else none

-- `count` entries of one block, from `from_` on, to `start` in another.
def copy (block : Block α size) (from_ : Nat) (target : Block α room) (start count : Nat) : Option (Block α room) := do
  let data ← load block from_ count
  store target start data

theorem load_length {block : Block α size} (loaded : load block start count = some data) : data.length = count := by
  unfold load at loaded
  split at loaded <;> cases loaded
  exact List.length_ofFn

theorem load_inside {block : Block α size} (loaded : load block start count = some data) : start + count ≤ size := by
  unfold load at loaded
  split at loaded
  · assumption
  · cases loaded

theorem load_get {block : Block α size} (loaded : load block start count = some data) (i : Nat) (small : i < count) :
    data[i]? = some (block ⟨start + i,by have := load_inside loaded; omega⟩) := by
  unfold load at loaded
  split at loaded <;> cases loaded
  simp [small]

-- What a block holds is settled entry by entry.
theorem load_of_get {block : Block α size} (inside : start + data.length ≤ size)
    (same : ∀ (i : Nat) (small : i < data.length), block ⟨start + i,by omega⟩ = data[i]) :
    load block start data.length = some data := by
  unfold load
  rw [dif_pos inside]
  congr 1
  apply List.ext_getElem
  · simp
  · intro i _ small
    simp [same i small]

theorem store_total (block : Block α size) (start : Nat) (data : List α) (inside : start + data.length ≤ size) :
    ∃ after, store block start data = some after := ⟨_,if_pos inside⟩

theorem load_store {block after : Block α size} (stored : store block start data = some after) :
    load after start data.length = some data := by
  unfold store at stored
  split at stored
  · rename_i inside
    cases stored
    refine load_of_get inside ?_
    intro i small
    simp [small]
  · cases stored

-- The rest of the block stays.
theorem load_store_apart {block after : Block α size} (stored : store block start data = some after)
    (apart : other + count ≤ start ∨ start + data.length ≤ other) : load after other count = load block other count := by
  unfold store at stored
  split at stored
  · cases stored
    unfold load
    split
    · congr 2
      funext i
      dsimp only
      rw [dif_neg (by omega)]
    · rfl
  · cases stored

-- Two parts side by side are one part.
theorem load_append {block : Block α size} (first : load block start count = some xs)
    (second : load block (start + count) more = some ys) : load block start (count + more) = some (xs ++ ys) := by
  have xsLength := load_length first
  have ysLength := load_length second
  have inside := load_inside second
  have whole : (xs ++ ys).length = count + more := by simp [xsLength,ysLength]
  rw [← whole]
  refine load_of_get (by omega) ?_
  intro i small
  by_cases before : i < count
  · have got := load_get first i before
    rw [List.getElem?_eq_getElem (by omega)] at got
    rw [List.getElem_append_left (by omega)]
    exact (Option.some.inj got).symm
  · have got := load_get second (i - count) (by omega)
    rw [List.getElem?_eq_getElem (by omega)] at got
    rw [List.getElem_append_right (by omega)]
    simp only [xsLength,Option.some.inj got]
    congr 2
    omega

theorem load_parts {block : Block α size} (xs ys : List α)
    (whole : load block start (xs.length + ys.length) = some (xs ++ ys)) :
    load block start xs.length = some xs ∧ load block (start + xs.length) ys.length = some ys := by
  have inside := load_inside whole
  constructor
  · refine load_of_get (by omega) ?_
    intro i small
    have got := load_get whole i (by omega)
    rw [List.getElem?_append_left small,List.getElem?_eq_getElem small] at got
    exact (Option.some.inj got).symm
  · refine load_of_get (by omega) ?_
    intro i small
    have got := load_get whole (xs.length + i) (by omega)
    rw [List.getElem?_append_right (by omega),Nat.add_sub_cancel_left,List.getElem?_eq_getElem small] at got
    rw [Option.some.inj got]
    congr 2
    omega

-- A copy that fits arrives, and moves nothing beside it.
theorem copy_arrives {block : Block α size} (loaded : load block from_ count = some data) (target : Block α room)
    (start : Nat) (fits : start + count ≤ room) :
    ∃ after, copy block from_ target start count = some after ∧ load after start count = some data ∧
      ∀ other number, other + number ≤ start ∨ start + count ≤ other →
        load after other number = load target other number := by
  have length := load_length loaded
  obtain ⟨after,stored⟩ := store_total target start data (by omega)
  refine ⟨after,by simp [copy,loaded,stored],?_,?_⟩
  · rw [← length]
    exact load_store stored
  · intro other number apart
    exact load_store_apart stored (by omega)

end Blocks
