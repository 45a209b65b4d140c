import Nachos.BitMap
import Mathlib.Logic.Function.Basic

-- The Table of addrspace.cc: an array of pointers with a BitMap for the slots in
-- use. A pointer is an Option, NULL being `none`. The array comes from new, so it
-- starts with any contents.
namespace Nachos

structure Table (P : Type) where
  size : Nat
  map : BitMap
  table : Nat → Option P
  fits : map.numBits = size

namespace Table

def new (size : Nat) (words : List (BitVec 32)) (sized : words.length = divRoundUp size BitsInWord)
    (garbage : Nat → Option P) : Option (Table P) :=
  match BitMap.new size words sized with
  | none => none
  | some map => if fits : map.numBits = size then some ⟨size,map,garbage,fits⟩ else none

-- i >= 0 && i < size
def valid (table : Table P) (i : Int) : Bool := decide (0 ≤ i ∧ i < table.size)

def get (table : Table P) (i : Int) : Option (Option P) :=
  if table.valid i then do
    if ← table.map.test i then some (table.table i.toNat) else some none
  else some none

-- The part of Put under the lock: map.Find().
def reserve (table : Table P) : Option (Table P × Int) :=
  match table.map.find with
  | none => none
  | some (map,i) => if fits : map.numBits = table.size then some ({table with map,fits},i) else none

-- The part after it: table[i] = f.
def store (table : Table P) (i : Int) (f : Option P) : Table P :=
  if i ≠ -1 then {table with table := Function.update table.table i.toNat f} else table

def put (table : Table P) (f : Option P) : Option (Table P × Int) := do
  let (table,i) ← table.reserve
  some (table.store i f,i)

-- The part of Remove under the lock.
def take (table : Table P) (i : Int) : Option (Table P × Option P) := do
  if ← table.map.test i then
    match table.map.clear i with
    | none => none
    | some map =>
      if fits : map.numBits = table.size then
        some (⟨table.size,map,Function.update table.table i.toNat none,fits⟩,table.table i.toNat)
      else none
  else some (table,none)

def remove (table : Table P) (i : Int) : Option (Table P × Option P) :=
  if table.valid i then table.take i else some (table,none)

variable {table : Table P} {i : Nat}

-- The slot is in use.
def used (table : Table P) (i : Nat) : Bool := table.map.bit i

theorem valid_nat {i : Int} (valid : table.valid i = true) : ∃ slot : Nat, i = slot ∧ slot < table.size := by
  simp only [Table.valid,decide_eq_true_eq] at valid
  exact ⟨i.toNat,by omega,by omega⟩

theorem valid_of_lt (inside : i < table.size) : table.valid i = true := by
  simp [Table.valid,inside]

theorem get_valid (inside : i < table.size) :
    table.get i = some (if table.used i then table.table i else none) := by
  simp only [get,valid_of_lt inside,if_true]
  rw [BitMap.test_nat (by rw [table.fits]; exact inside)]
  simp only [used,Option.bind_eq_bind,Option.bind_some,Int.toNat_natCast]
  split <;> simp [*]

theorem get_invalid {i : Int} (outside : table.valid i = false) : table.get i = some none := by
  simp [get,outside]

-- What reserving a slot does: it takes the first that is not in use.
theorem reserve_cases (table : Table P) :
    (table.reserve = some (table,-1) ∧ ∀ j, j < table.size → table.used j = true) ∨
    (∃ (first : Nat) (after : Table P), table.reserve = some (after,(first : Int)) ∧ first < table.size ∧ table.used first = false ∧
      (∀ j, j < first → table.used j = true) ∧ after.size = table.size ∧ after.table = table.table ∧
      ∀ j, j < table.size → after.used j = (decide (j = first) || table.used j)) := by
  rcases BitMap.find_cases table.map with ⟨full,all⟩ | ⟨first,found,bound,free,before⟩
  · refine Or.inl ⟨?_,fun j inside => all j (by rw [table.fits]; exact inside)⟩
    simp [reserve,full,table.fits]
  · refine Or.inr ⟨first,⟨table.size,table.map.setBit first,table.table,table.fits⟩,?_,?_,free,before,rfl,rfl,?_⟩
    · simp [reserve,found,table.fits]
    · rw [← table.fits]
      exact bound
    · intro j inside
      exact BitMap.bit_setBit table.map (by rw [table.fits]; exact inside)

theorem take_cases (inside : i < table.size) :
    (table.take i = some (table,none) ∧ table.used i = false) ∨
    (∃ after, table.take i = some (after,table.table i) ∧ table.used i = true ∧ after.size = table.size ∧
      after.table = Function.update table.table i none ∧
      ∀ j, j < table.size → after.used j = (!decide (j = i) && table.used j)) := by
  have bound : i < table.map.numBits := by rw [table.fits]; exact inside
  cases set : table.map.bit i with
  | false => exact Or.inl ⟨by simp [take,BitMap.test_nat bound,set],set⟩
  | true =>
    refine Or.inr ⟨⟨table.size,table.map.clearBit i,Function.update table.table i none,table.fits⟩,?_,set,rfl,rfl,?_⟩
    · simp [take,BitMap.test_nat bound,set,BitMap.clear_nat bound,table.fits]
    · intro j inside
      exact BitMap.bit_clearBit table.map (by rw [table.fits]; exact inside)

theorem new_empty (size : Nat) (words : List (BitVec 32)) (sized : words.length = divRoundUp size BitsInWord)
    (garbage : Nat → Option P) :
    ∃ table, new size words sized garbage = some table ∧ table.size = size ∧ table.table = garbage ∧
      ∀ j, j < size → table.used j = false := by
  obtain ⟨map,made,numBits,empty⟩ := BitMap.new_empty size words sized
  exact ⟨⟨size,map,garbage,numBits⟩,by simp [new,made,numBits],rfl,rfl,empty⟩

@[simp] theorem store_size (table : Table P) (i : Int) (f : Option P) : (table.store i f).size = table.size := by
  unfold store
  split <;> rfl

@[simp] theorem store_used (table : Table P) (i : Int) (f : Option P) (j : Nat) :
    (table.store i f).used j = table.used j := by
  unfold store
  split <;> rfl

end Table
end Nachos
