import Mathlib.Data.Finset.Card
import Mathlib.Algebra.Ring.Int.Defs
import Mathlib.Algebra.BigOperators.Group.List.Basic

-- Pieces of the line, by where they begin and how long they are, and when they make up
-- one interval.
namespace Tiling

abbrev Pieces := List (Int × Int)

def Covers (pieces : Pieces) (x : Int) : Prop := ∃ piece ∈ pieces, piece.1 ≤ x ∧ x < piece.1 + piece.2

def total (pieces : Pieces) : Int := (pieces.map Prod.snd).sum

-- Each piece begins where the one before it ends, the first at `a`.
def Row (a : Int) : Pieces → Prop
  | [] => True
  | piece :: rest => piece.1 = a ∧ Row (a + piece.2) rest

variable {a : Int} {pieces row rest : Pieces}

@[simp] theorem total_nil : total [] = 0 := rfl

@[simp] theorem total_cons (piece : Int × Int) (rest : Pieces) : total (piece :: rest) = piece.2 + total rest :=
  List.sum_cons

theorem total_append (one two : Pieces) : total (one ++ two) = total one + total two := by
  rw [total,total,total,List.map_append,List.sum_append]

theorem total_perm (perm : row.Perm pieces) : total row = total pieces := (perm.map Prod.snd).sum_eq

@[simp] theorem covers_nil (x : Int) : ¬Covers [] x := fun ⟨_,member,_⟩ => absurd member List.not_mem_nil

theorem covers_cons (piece : Int × Int) (rest : Pieces) (x : Int) :
    Covers (piece :: rest) x ↔ (piece.1 ≤ x ∧ x < piece.1 + piece.2) ∨ Covers rest x := by
  simp only [Covers,List.mem_cons,exists_eq_or_imp]

theorem covers_perm (perm : row.Perm pieces) (x : Int) : Covers row x ↔ Covers pieces x := by
  simp only [Covers,perm.mem_iff]

theorem total_nonneg (long : ∀ piece ∈ pieces, 0 < piece.2) : 0 ≤ total pieces := by
  induction pieces with
  | nil => exact le_refl 0
  | cons piece rest ih =>
    have first := long piece List.mem_cons_self
    have others := ih fun p member => long p (List.mem_cons_of_mem piece member)
    rw [total_cons]
    omega

theorem row_covers (long : ∀ piece ∈ row, 0 < piece.2) (set : Row a row) (x : Int) :
    Covers row x ↔ a ≤ x ∧ x < a + total row := by
  induction row generalizing a with
  | nil => simp only [covers_nil,total_nil,false_iff]; omega
  | cons piece rest ih =>
    obtain ⟨begins,set⟩ := set
    have first := long piece List.mem_cons_self
    have later : ∀ p ∈ rest, 0 < p.2 := fun p member => long p (List.mem_cons_of_mem piece member)
    have others := total_nonneg later
    rw [covers_cons,ih later set,begins,total_cons]
    omega

-- The numbers of an interval.
def stretch (a n : Int) : Finset Int := (Finset.range n.toNat).image fun k : Nat => a + k

theorem mem_stretch {n x : Int} : x ∈ stretch a n ↔ a ≤ x ∧ x < a + n := by
  rw [stretch,Finset.mem_image]
  constructor
  · rintro ⟨k,member,rfl⟩
    have inside := Finset.mem_range.mp member
    omega
  · rintro ⟨low,high⟩
    exact ⟨(x - a).toNat,Finset.mem_range.mpr (by omega),by omega⟩

theorem stretch_card (a n : Int) : (stretch a n).card = n.toNat := by
  rw [stretch,Finset.card_image_of_injective,Finset.card_range]
  intro k k' same
  dsimp only at same
  omega

-- No pieces cover more than their lengths together.
def spread : Pieces → Finset Int
  | [] => ∅
  | piece :: rest => stretch piece.1 piece.2 ∪ spread rest

theorem mem_spread (x : Int) : x ∈ spread pieces ↔ Covers pieces x := by
  induction pieces with
  | nil => simp [spread]
  | cons piece rest ih => rw [covers_cons,spread,Finset.mem_union,mem_stretch,ih]

theorem spread_card (long : ∀ piece ∈ pieces, 0 < piece.2) : ((spread pieces).card : Int) ≤ total pieces := by
  induction pieces with
  | nil => simp [spread]
  | cons piece rest ih =>
    have first := long piece List.mem_cons_self
    have others := ih fun p member => long p (List.mem_cons_of_mem piece member)
    have both := Finset.card_union_le (stretch piece.1 piece.2) (spread rest)
    rw [stretch_card] at both
    rw [spread,total_cons]
    omega

-- Pieces that reach all of an interval of their total length reach nothing else.
theorem covers_exactly (long : ∀ piece ∈ pieces, 0 < piece.2)
    (reach : ∀ x, a ≤ x ∧ x < a + total pieces → Covers pieces x) (x : Int) :
    Covers pieces x ↔ a ≤ x ∧ x < a + total pieces := by
  have inside : stretch a (total pieces) ⊆ spread pieces := by
    intro y member
    exact (mem_spread y).mpr (reach y (mem_stretch.mp member))
  have small : (spread pieces).card ≤ (stretch a (total pieces)).card := by
    have card := spread_card long
    have nonneg := total_nonneg long
    rw [stretch_card]
    omega
  rw [← mem_spread,← Finset.eq_of_subset_of_card_le inside small,mem_stretch]

-- Pieces make up the interval from `a` of their total length exactly when they can be put
-- in a row from `a`.
theorem covers_iff_row (long : ∀ piece ∈ pieces, 0 < piece.2) :
    (∀ x, Covers pieces x ↔ a ≤ x ∧ x < a + total pieces) ↔ ∃ row, row.Perm pieces ∧ Row a row := by
  constructor
  · intro exact_
    induction size : pieces.length generalizing a pieces with
    | zero =>
      rw [List.length_eq_zero_iff] at size
      exact ⟨[],size ▸ List.Perm.refl [],trivial⟩
    | succ n ih =>
      -- The piece over `a` begins there, and the others make up what it leaves.
      have some_ : 0 < total pieces := by
        cases pieces with
        | nil => cases size
        | cons piece rest =>
          have first := long piece List.mem_cons_self
          have others := total_nonneg fun p member => long p (List.mem_cons_of_mem piece member)
          rw [total_cons]
          omega
      obtain ⟨piece,member,before,within⟩ := (exact_ a).mpr (by omega)
      have positive := long piece member
      have begins : piece.1 = a := by
        have inside := (exact_ piece.1).mp ⟨piece,member,le_refl _,by omega⟩
        omega
      have perm := List.perm_cons_erase member
      have sum : total pieces = piece.2 + total (pieces.erase piece) := (total_perm perm).trans (total_cons _ _)
      have later : ∀ p ∈ pieces.erase piece, 0 < p.2 := fun p rest => long p (List.mem_of_mem_erase rest)
      have others : ∀ x, Covers (pieces.erase piece) x ↔ a + piece.2 ≤ x ∧ x < a + piece.2 + total (pieces.erase piece) := by
        refine covers_exactly later fun x range => ?_
        have whole := (exact_ x).mpr (by omega)
        rw [covers_perm perm,covers_cons] at whole
        rcases whole with first | rest
        · omega
        · exact rest
      have length : (pieces.erase piece).length = n := by
        rw [List.length_erase_of_mem member,size]
        rfl
      obtain ⟨row,same,set⟩ := ih later others length
      exact ⟨piece :: row,(same.cons piece).trans perm.symm,begins,set⟩
  · rintro ⟨row,perm,set⟩ x
    have short : ∀ piece ∈ row, 0 < piece.2 := fun piece member => long piece (perm.mem_iff.mp member)
    rw [← covers_perm perm,row_covers short set,total_perm perm]

end Tiling
