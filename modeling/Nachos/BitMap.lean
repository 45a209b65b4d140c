import Mathlib.Data.List.Basic
import Mathlib.Data.Finset.Range
import Mathlib.Data.Finset.Filter
import Mathlib.Data.Finset.Card
import Mathlib.Data.Finset.SDiff

namespace Nachos

-- utility.h
def divRoundUp (n s : Nat) : Nat := n / s + if n % s > 0 then 1 else 0

theorem lt_divRoundUp (inside : i < n) : i / s < divRoundUp n s := by
  unfold divRoundUp
  have quotient : i / s ≤ n / s := Nat.div_le_div_right (Nat.le_of_lt inside)
  split
  · omega
  · have whole := Nat.div_add_mod n s
    have smaller : i / s < n / s := Nat.div_lt_of_lt_mul (by omega)
    omega

def BitsInWord : Nat := 32

-- The bits live in an array of unsigned ints, as bitmap.h has it.
structure BitMap where
  numBits : Nat
  map : List (BitVec 32)
  sized : map.length = divRoundUp numBits BitsInWord

namespace BitMap

-- 1 << (which % BitsInWord)
def mask (which : Nat) : BitVec 32 := 1#32 <<< (which % BitsInWord)

-- The test of the word against the mask.
def bit (b : BitMap) (which : Nat) : Bool := b.map.getD (which / BitsInWord) 0 &&& mask which != 0

def setBit (b : BitMap) (which : Nat) : BitMap :=
  ⟨b.numBits,b.map.modify (which / BitsInWord) (· ||| mask which),by simpa using b.sized⟩

def clearBit (b : BitMap) (which : Nat) : BitMap :=
  ⟨b.numBits,b.map.modify (which / BitsInWord) (· &&& ~~~mask which),by simpa using b.sized⟩

-- ASSERT(which >= 0 && which < numBits); `none` is its failure.
def inRange (b : BitMap) (which : Int) : Bool := decide (0 ≤ which ∧ which < b.numBits)

def mark (b : BitMap) (which : Int) : Option BitMap :=
  if b.inRange which then some (b.setBit which.toNat) else none

def clear (b : BitMap) (which : Int) : Option BitMap :=
  if b.inRange which then some (b.clearBit which.toNat) else none

def test (b : BitMap) (which : Int) : Option Bool :=
  if b.inRange which then some (b.bit which.toNat) else none

-- The loop of Find from bit i on; `left` bits remain.
def findFrom (b : BitMap) (i : Nat) : Nat → Option (BitMap × Int)
  | 0 => some (b,-1)
  | left + 1 => do
    if ← b.test i then b.findFrom (i + 1) left
    else
      let b ← b.mark i
      some (b,i)

def find (b : BitMap) : Option (BitMap × Int) := b.findFrom 0 b.numBits

def numClearFrom (b : BitMap) (i : Nat) : Nat → Option Nat
  | 0 => some 0
  | left + 1 => do
    let set ← b.test i
    let count ← b.numClearFrom (i + 1) left
    some (if set then count else count + 1)

def numClear (b : BitMap) : Option Nat := b.numClearFrom 0 b.numBits

-- The constructor clears the bits one by one in words of any contents.
def newFrom (b : BitMap) (i : Nat) : Nat → Option BitMap
  | 0 => some b
  | left + 1 => do
    let b ← b.clear i
    b.newFrom (i + 1) left

def new (nitems : Nat) (words : List (BitVec 32)) (sized : words.length = divRoundUp nitems BitsInWord) :
    Option BitMap :=
  newFrom ⟨nitems,words,sized⟩ 0 nitems

-- The map as the set of its marked bits.
def marked (b : BitMap) : Finset Nat := (Finset.range b.numBits).filter fun i => b.bit i

theorem mask_bit (which : Nat) (i : Nat) : (mask which).getLsbD i = decide (i = which % BitsInWord) := by
  have small : which % BitsInWord < 32 := Nat.mod_lt _ (by decide)
  simp only [mask,BitVec.getLsbD_shiftLeft]
  by_cases same : i = which % BitsInWord
  · subst same
    simp [small]
  · simp [same]
    omega

-- A word meets the mask in the bit of the mask.
theorem and_mask (w : BitVec 32) (which : Nat) : (w &&& mask which != 0) = w.getLsbD (which % BitsInWord) := by
  have small : which % BitsInWord < 32 := Nat.mod_lt _ (by decide)
  cases set : w.getLsbD (which % BitsInWord) with
  | false =>
    have zero : w &&& mask which = 0 := by
      apply BitVec.eq_of_getLsbD_eq
      intro i _
      rw [BitVec.getLsbD_and,mask_bit]
      by_cases same : i = which % BitsInWord
      · simp [same,set]
      · simp [same]
    simp [zero]
  | true =>
    have nonzero : w &&& mask which ≠ 0 := by
      intro zero
      have here := congrArg (fun v => v.getLsbD (which % BitsInWord)) zero
      simp [BitVec.getLsbD_and,mask_bit,set] at here
    simpa using nonzero

theorem bit_eq (b : BitMap) (which : Nat) :
    b.bit which = (b.map.getD (which / BitsInWord) 0).getLsbD (which % BitsInWord) := and_mask _ _

theorem same_place (i j : Nat) : (i / BitsInWord = j / BitsInWord ∧ i % BitsInWord = j % BitsInWord) ↔ i = j := by
  constructor
  · rintro ⟨word,place⟩
    rw [← Nat.div_add_mod i BitsInWord,← Nat.div_add_mod j BitsInWord,word,place]
  · rintro rfl
    exact ⟨rfl,rfl⟩

theorem word_lt (b : BitMap) (inside : i < b.numBits) : i / BitsInWord < b.map.length := by
  rw [b.sized]
  exact lt_divRoundUp inside

-- Changing one word changes the bits of that word.
theorem modify_word (b : BitMap) (change : BitVec 32 → BitVec 32) (inside : i < b.numBits) :
    (b.map.modify (j / BitsInWord) change).getD (i / BitsInWord) 0 =
      if j / BitsInWord = i / BitsInWord then change (b.map.getD (i / BitsInWord) 0)
      else b.map.getD (i / BitsInWord) 0 := by
  have bound := word_lt b inside
  rw [List.getD_eq_getElem?_getD,List.getElem?_modify,List.getD_eq_getElem?_getD,List.getElem?_eq_getElem bound]
  split <;> simp

theorem bit_setBit (b : BitMap) (inside : i < b.numBits) : (b.setBit j).bit i = (decide (i = j) || b.bit i) := by
  rw [bit_eq,bit_eq,setBit]
  dsimp only
  rw [modify_word b _ inside]
  split
  · rename_i word
    rw [BitVec.getLsbD_or,mask_bit,Bool.or_comm]
    congr 1
    simpa [word] using same_place i j
  · rename_i word
    have differs : i ≠ j := by
      rintro rfl
      exact word rfl
    simp [differs]

theorem bit_clearBit (b : BitMap) (inside : i < b.numBits) :
    (b.clearBit j).bit i = (!decide (i = j) && b.bit i) := by
  rw [bit_eq,bit_eq,clearBit]
  dsimp only
  rw [modify_word b _ inside]
  split
  · rename_i word
    have small : i % BitsInWord < 32 := Nat.mod_lt _ (by decide)
    have same : decide (i % BitsInWord = j % BitsInWord) = decide (i = j) := by
      simpa [word] using same_place i j
    rw [BitVec.getLsbD_and,BitVec.getLsbD_not,mask_bit,same,Bool.and_comm]
    simp [small]
  · rename_i word
    have differs : i ≠ j := by
      rintro rfl
      exact word rfl
    simp [differs]

section
variable {b : BitMap} {i : Nat}

theorem inRange_nat (inside : i < b.numBits) : b.inRange (i : Int) = true := by
  simp [inRange,inside]

theorem test_nat (inside : i < b.numBits) : b.test i = some (b.bit i) := by
  simp [test,inRange_nat inside]

theorem mark_nat (inside : i < b.numBits) : b.mark i = some (b.setBit i) := by
  simp [mark,inRange_nat inside]

theorem clear_nat (inside : i < b.numBits) : b.clear i = some (b.clearBit i) := by
  simp [clear,inRange_nat inside]

@[simp] theorem numBits_setBit (b : BitMap) (i : Nat) : (b.setBit i).numBits = b.numBits := rfl

@[simp] theorem numBits_clearBit (b : BitMap) (i : Nat) : (b.clearBit i).numBits = b.numBits := rfl

-- The loop from bit i on stops at the first clear bit, or runs to the end.
theorem findFrom_cases (left : Nat) (end_ : i + left = b.numBits) :
    (b.findFrom i left = some (b,-1) ∧ ∀ j, i ≤ j → j < b.numBits → b.bit j = true) ∨
    (∃ first, b.findFrom i left = some (b.setBit first,(first : Int)) ∧ i ≤ first ∧ first < b.numBits ∧
      b.bit first = false ∧ ∀ j, i ≤ j → j < first → b.bit j = true) := by
  induction left generalizing i with
  | zero => exact Or.inl ⟨rfl,by omega⟩
  | succ left ih =>
    have inside : i < b.numBits := by omega
    cases set : b.bit i with
    | false =>
      refine Or.inr ⟨i,?_,Nat.le_refl i,inside,set,by omega⟩
      simp [findFrom,test_nat inside,mark_nat inside,set]
    | true =>
      have goes : b.findFrom i (left + 1) = b.findFrom (i + 1) left := by
        simp [findFrom,test_nat inside,set]
      rw [goes]
      rcases ih (i := i + 1) (by omega) with ⟨none_,all⟩ | ⟨first,found,later,bound,free,before⟩
      · refine Or.inl ⟨none_,fun j from_ bound => ?_⟩
        by_cases here : j = i
        · rw [here,set]
        · exact all j (by omega) bound
      · refine Or.inr ⟨first,found,by omega,bound,free,fun j from_ below => ?_⟩
        by_cases here : j = i
        · rw [here,set]
        · exact before j (by omega) below

-- Find takes the first clear bit, and fails only on a full map.
theorem find_cases (b : BitMap) :
    (b.find = some (b,-1) ∧ ∀ j, j < b.numBits → b.bit j = true) ∨
    (∃ first, b.find = some (b.setBit first,(first : Int)) ∧ first < b.numBits ∧ b.bit first = false ∧
      ∀ j, j < first → b.bit j = true) := by
  rcases findFrom_cases (b := b) (i := 0) b.numBits (by omega) with ⟨none_,all⟩ | ⟨first,found,_,bound,free,before⟩
  · exact Or.inl ⟨none_,fun j bound => all j (by omega) bound⟩
  · exact Or.inr ⟨first,found,bound,free,fun j below => before j (by omega) below⟩

theorem newFrom_clears (left : Nat) (end_ : i + left = b.numBits) :
    ∃ cleared, b.newFrom i left = some cleared ∧ cleared.numBits = b.numBits ∧
      ∀ j, j < b.numBits → cleared.bit j = (decide (j < i) && b.bit j) := by
  induction left generalizing b i with
  | zero =>
    refine ⟨b,rfl,rfl,fun j bound => ?_⟩
    simp [show j < i by omega]
  | succ left ih =>
    have inside : i < b.numBits := by omega
    obtain ⟨cleared,ran,size,bits⟩ := ih (b := b.clearBit i) (i := i + 1) (by simp; omega)
    refine ⟨cleared,by simpa [newFrom,clear_nat inside] using ran,size,fun j bound => ?_⟩
    rw [bits j bound,bit_clearBit b bound]
    by_cases here : j = i
    · simp [here]
    · have order : (j < i + 1) = (j < i) := by
        apply propext
        omega
      simp [here,order]

-- A new map is empty, whatever the words held.
theorem new_empty (nitems : Nat) (words : List (BitVec 32)) (sized : words.length = divRoundUp nitems BitsInWord) :
    ∃ b, new nitems words sized = some b ∧ b.numBits = nitems ∧ ∀ j, j < nitems → b.bit j = false := by
  obtain ⟨b,ran,size,bits⟩ := newFrom_clears (b := ⟨nitems,words,sized⟩) (i := 0) nitems (by simp)
  refine ⟨b,ran,size,fun j bound => ?_⟩
  rw [bits j bound]
  simp

end
section
variable {freeMap : BitMap} {i : Nat}

-- NumClear counts the clear bits.
def clearBits (freeMap : BitMap) : Finset Nat := (Finset.range freeMap.numBits).filter fun i => freeMap.bit i = false

theorem mem_clearBits : i ∈ freeMap.clearBits ↔ i < freeMap.numBits ∧ freeMap.bit i = false := by
  simp [clearBits]

-- A map of whole words is known by its clear bits.
theorem ext_clear {a b : BitMap} (size : a.numBits = b.numBits) (whole : BitsInWord ∣ a.numBits)
    (same : a.clearBits = b.clearBits) : a = b := by
  have bits : ∀ i < a.numBits, a.bit i = b.bit i := by
    intro i inside
    have clear : i ∈ a.clearBits ↔ i ∈ b.clearBits := by rw [same]
    rw [mem_clearBits,mem_clearBits,← size] at clear
    cases one : a.bit i <;> cases two : b.bit i <;> simp_all
  have length : a.map.length = b.map.length := by rw [a.sized,b.sized,size]
  have words : a.map = b.map := by
    refine List.ext_getElem length ?_
    intro k one two
    have count : a.map.length = a.numBits / BitsInWord := by
      rw [a.sized,divRoundUp,Nat.mod_eq_zero_of_dvd whole]
      rfl
    refine BitVec.eq_of_getLsbD_eq ?_
    intro i small
    have place : (k * 32 + i) / BitsInWord = k ∧ (k * 32 + i) % BitsInWord = i := by
      simp only [BitsInWord]
      omega
    have equal := bits (k * 32 + i) (by simp only [BitsInWord] at *; omega)
    rw [bit_eq,bit_eq,place.1,place.2,List.getD_eq_getElem?_getD,List.getD_eq_getElem?_getD,List.getElem?_eq_getElem one,
      List.getElem?_eq_getElem two] at equal
    exact equal
  obtain ⟨numBits,map,sized⟩ := a
  obtain ⟨numBits',map',sized'⟩ := b
  subst size words
  rfl

theorem numClearFrom_count (freeMap : BitMap) (i left : Nat) (end_ : i + left = freeMap.numBits) :
    freeMap.numClearFrom i left = some (freeMap.clearBits.filter fun j => i ≤ j).card := by
  induction left generalizing i with
  | zero =>
    have none : (freeMap.clearBits.filter fun j => i ≤ j) = ∅ := by
      rw [Finset.filter_eq_empty_iff]
      intro j member
      have inside := (mem_clearBits.mp member).1
      omega
    rw [none]
    rfl
  | succ left ih =>
    have inside : i < freeMap.numBits := by omega
    have rest := ih (i + 1) (by omega)
    simp only [numClearFrom,test_nat inside,rest,Option.bind_eq_bind,Option.bind_some]
    cases set : freeMap.bit i with
    | true =>
      have same : (freeMap.clearBits.filter fun j => i + 1 ≤ j) = freeMap.clearBits.filter fun j => i ≤ j := by
        refine Finset.filter_congr ?_
        intro j member
        have differs : j ≠ i := by
          rintro rfl
          simp [(mem_clearBits.mp member).2] at set
        omega
      rw [same]
      rfl
    | false =>
      have more : (freeMap.clearBits.filter fun j => i ≤ j) = insert i (freeMap.clearBits.filter fun j => i + 1 ≤ j) := by
        ext j
        simp only [Finset.mem_filter,Finset.mem_insert,mem_clearBits]
        constructor
        · rintro ⟨clear,later⟩
          by_cases here : j = i
          · exact .inl here
          · exact .inr ⟨clear,by omega⟩
        · rintro (rfl | ⟨clear,later⟩)
          · exact ⟨⟨inside,set⟩,Nat.le_refl _⟩
          · exact ⟨clear,by omega⟩
      rw [more,Finset.card_insert_of_notMem (by simp)]
      rfl

theorem numClear_count (freeMap : BitMap) : freeMap.numClear = some freeMap.clearBits.card := by
  have count := numClearFrom_count freeMap 0 freeMap.numBits (by omega)
  simpa [numClear] using count

theorem set_clearBits (freeMap : BitMap) (i : Nat) : (freeMap.setBit i).clearBits = freeMap.clearBits.erase i := by
  ext j
  rw [Finset.mem_erase,mem_clearBits,mem_clearBits,numBits_setBit]
  constructor
  · rintro ⟨inside,clear⟩
    rw [bit_setBit freeMap inside] at clear
    simpa [inside] using clear
  · rintro ⟨differs,inside,clear⟩
    refine ⟨inside,?_⟩
    rw [bit_setBit freeMap inside]
    simp [differs,clear]

-- Find takes one of the clear bits, if there is one.
theorem find_clear (freeMap : BitMap) (some_ : 0 < freeMap.clearBits.card) :
    ∃ first, freeMap.find = some (freeMap.setBit first,(first : Int)) ∧ first ∈ freeMap.clearBits ∧
      (freeMap.setBit first).clearBits = freeMap.clearBits.erase first := by
  rcases find_cases freeMap with ⟨_,all⟩ | ⟨first,found,bound,free,_⟩
  · obtain ⟨j,member⟩ := Finset.card_pos.mp some_
    have clear := mem_clearBits.mp member
    rw [all j clear.1] at clear
    exact absurd clear.2 (by decide)
  · exact ⟨first,found,mem_clearBits.mpr ⟨bound,free⟩,set_clearBits freeMap first⟩

theorem test_clear (inside : i < freeMap.numBits) : freeMap.bit i = true ↔ i ∉ freeMap.clearBits := by
  rw [mem_clearBits,not_and,Bool.not_eq_false]
  exact ⟨fun set _ => set,fun marked => marked inside⟩

theorem clear_clearBits (inside : i < freeMap.numBits) : (freeMap.clearBit i).clearBits = insert i freeMap.clearBits := by
  ext j
  rw [Finset.mem_insert,mem_clearBits,mem_clearBits,numBits_clearBit]
  constructor
  · rintro ⟨bound,clear⟩
    rw [bit_clearBit freeMap bound] at clear
    by_cases same : j = i
    · exact .inl same
    · exact .inr ⟨bound,by simpa [same] using clear⟩
  · rintro (rfl | ⟨bound,clear⟩)
    · refine ⟨inside,?_⟩
      rw [bit_clearBit freeMap inside]
      simp
    · refine ⟨bound,?_⟩
      rw [bit_clearBit freeMap bound]
      simp [clear]

end
end BitMap
end Nachos
