import Nachos.FileSys.OpenFile
import Mathlib.Data.List.TakeWhile

-- The directory of directory.cc: a table of entries, in memory and in its file.
namespace Nachos.FileSys
open Mips (nativeWord wordBytes nativeWord_wordBytes)

def FileNameMaxLen : Nat := 9

-- sizeof(DirectoryEntry): inUse at 0, sector at 4, name at 8.
def EntrySize : Nat := 20

-- The characters of a string, at most n of them.
def chars (n : Nat) (string : Bytes) : List (BitVec 8) := ((List.range n).map string).takeWhile fun c => c != 0

-- strncmp gives 0
def sameName (n : Nat) (left right : Bytes) : Bool := decide (chars n left = chars n right)

-- What strncpy stores: the characters, and NULs up to n.
def strncpy (n : Nat) (source : Bytes) : List (BitVec 8) :=
  chars n source ++ List.replicate (n - (chars n source).length) 0

theorem chars_congr (same : ∀ k < n, left k = right k) : chars n left = chars n right := by
  unfold chars
  rw [List.map_congr_left fun k member => same k (List.mem_range.mp member)]

theorem chars_length (n : Nat) (string : Bytes) : (chars n string).length ≤ n := by
  have shorter := (List.takeWhile_sublist (fun c : BitVec 8 => c != 0) (l := (List.range n).map string)).length_le
  simpa [chars] using shorter

theorem strncpy_length (n : Nat) (source : Bytes) : (strncpy n source).length = n := by
  have shorter := chars_length n source
  simp only [strncpy,List.length_append,List.length_replicate]
  omega

-- The stored name is found again.
theorem chars_strncpy (stored : ∀ k < n, string k = (strncpy n source).getD k 0) : chars n string = chars n source := by
  have list : (List.range n).map string = strncpy n source := by
    refine List.ext_getElem (by simp [strncpy_length]) ?_
    intro k one two
    have small : k < n := by simpa using one
    rw [List.getElem_map,List.getElem_range,stored k small,List.getD_eq_getElem?_getD,List.getElem?_eq_getElem two]
    rfl
  have nonzero : ∀ c ∈ chars n source, (c != 0) = true := by
    intro c member
    unfold chars at member
    exact List.mem_takeWhile_imp (p := fun c => c != 0) member
  rw [chars,list,strncpy,List.takeWhile_append_of_pos nonzero]
  have rest : (List.replicate (n - (chars n source).length) (0 : BitVec 8)).takeWhile (fun c => c != 0) = [] := by
    cases n - (chars n source).length with
    | zero => rfl
    | succ m => simp [List.replicate_succ]
  rw [rest,List.append_nil]

theorem wordBytes_length (bigEndian : Bool) (word : BitVec 32) : (wordBytes bigEndian word).length = 4 := by
  cases bigEndian <;> rfl

-- The table as the bytes of the array; the function is 0 behind them.
structure Directory where
  tableSize : Nat
  table : Bytes

namespace Directory

def new (fresh : Bytes) (size : Nat) : Directory :=
  ⟨size,fun offset => if offset < size * EntrySize ∧ offset % EntrySize ≠ 0 then fresh offset else 0⟩

def inUse (directory : Directory) (i : Nat) : Bool := directory.table (i * EntrySize) != 0

def sector (bigEndian : Bool) (directory : Directory) (i : Nat) : BitVec 32 :=
  intAt bigEndian directory.table (i * EntrySize + 4)

def name (directory : Directory) (i : Nat) : Bytes := fun j => directory.table (i * EntrySize + 8 + j)

def findIndex (directory : Directory) (wanted : Bytes) : Option Nat :=
  (List.range directory.tableSize).find? fun i =>
    directory.inUse i && sameName FileNameMaxLen (directory.name i) wanted

def find (bigEndian : Bool) (directory : Directory) (wanted : Bytes) : Int :=
  match directory.findIndex wanted with
  | some i => (directory.sector bigEndian i).toInt
  | none => -1

-- The entry filled in.
def enter (bigEndian : Bool) (directory : Directory) (i : Nat) (added : Bytes) (newSector : BitVec 32) : Directory :=
  let table := put directory.table (i * EntrySize) [1]
  let table := put table (i * EntrySize + 8) (strncpy FileNameMaxLen added)
  ⟨directory.tableSize,put table (i * EntrySize + 4) (wordBytes bigEndian newSector)⟩

-- `none` is FALSE, with nothing changed.
def add (bigEndian : Bool) (directory : Directory) (added : Bytes) (newSector : BitVec 32) : Option Directory :=
  if (directory.findIndex added).isSome then none
  else
    match (List.range directory.tableSize).find? fun i => !directory.inUse i with
    | some i => some (directory.enter bigEndian i added newSector)
    | none => none

def free (directory : Directory) (i : Nat) : Directory :=
  ⟨directory.tableSize,put directory.table (i * EntrySize) [0]⟩

def remove (directory : Directory) (removed : Bytes) : Option Directory :=
  match directory.findIndex removed with
  | some i => some (directory.free i)
  | none => none

def fetchFrom (directory : Directory) (file : FileHeader) (disk : Disk) (fresh : Bytes) : Option Directory := do
  let data ← file.readAt disk fresh (directory.tableSize * EntrySize : Nat) 0
  some ⟨directory.tableSize,put directory.table 0 data⟩

def writeBack (directory : Directory) (file : FileHeader) (disk : Disk) (fresh : Bytes) : Option Disk := do
  let (_,disk) ← file.writeAt disk fresh directory.table (directory.tableSize * EntrySize : Nat) 0
  some disk

-- The name as it is looked for.
def key (directory : Directory) (i : Nat) : List (BitVec 8) := chars FileNameMaxLen (directory.name i)

variable {directory after : Directory} {wanted : Bytes} {bigEndian : Bool} {i j : Nat} {newSector : BitVec 32}

theorem findIndex_some (found : directory.findIndex wanted = some i) :
    i < directory.tableSize ∧ directory.inUse i = true ∧ directory.key i = chars FileNameMaxLen wanted := by
  have holds := List.find?_some found
  have member := List.mem_of_find?_eq_some found
  simp only [Bool.and_eq_true,sameName,decide_eq_true_eq] at holds
  exact ⟨List.mem_range.mp member,holds.1,holds.2⟩

theorem findIndex_none (missing : directory.findIndex wanted = none) (bound : i < directory.tableSize)
    (used : directory.inUse i = true) : directory.key i ≠ chars FileNameMaxLen wanted := by
  have none := List.find?_eq_none.mp missing i (List.mem_range.mpr bound)
  simpa [used,sameName,key] using none

theorem add_some (added : directory.add bigEndian wanted newSector = some after) :
    ∃ i, i < directory.tableSize ∧ directory.inUse i = false ∧ directory.findIndex wanted = none ∧
      after = directory.enter bigEndian i wanted newSector := by
  unfold add at added
  split at added
  · cases added
  · rename_i missing
    split at added
    · rename_i i found
      cases added
      have free := List.find?_some found
      have member := List.mem_of_find?_eq_some found
      exact ⟨i,List.mem_range.mp member,by simpa using free,by simpa using missing,rfl⟩
    · cases added

-- Add has room.
theorem add_room (bigEndian : Bool) (newSector : BitVec 32) (missing : directory.findIndex wanted = none) (bound : i < directory.tableSize)
    (free : directory.inUse i = false) : ∃ after, directory.add bigEndian wanted newSector = some after := by
  unfold add
  rw [missing]
  simp only [Option.isSome_none,Bool.false_eq_true,if_false]
  cases found : (List.range directory.tableSize).find? fun i => !directory.inUse i with
  | some j => exact ⟨_,rfl⟩
  | none =>
    have all := List.find?_eq_none.mp found i (List.mem_range.mpr bound)
    simp [free] at all

theorem add_full (full : ∀ i < directory.tableSize, directory.inUse i = true) :
    directory.add bigEndian wanted newSector = none := by
  unfold add
  split
  · rfl
  · have none : (List.range directory.tableSize).find? (fun i => !directory.inUse i) = none := by
      rw [List.find?_eq_none]
      intro i member
      simp [full i (List.mem_range.mp member)]
    rw [none]

theorem entry_apart (differs : j ≠ i) (small : k < EntrySize) :
    j * EntrySize + k < i * EntrySize ∨ (i + 1) * EntrySize ≤ j * EntrySize + k := by
  simp only [EntrySize] at *
  omega

theorem enter_outside (directory : Directory) (wanted : Bytes) (newSector : BitVec 32) (offset : Nat)
    (outside : offset < i * EntrySize ∨ (i + 1) * EntrySize ≤ offset) :
    (directory.enter bigEndian i wanted newSector).table offset = directory.table offset := by
  have size : EntrySize = 20 := rfl
  have length := strncpy_length FileNameMaxLen wanted
  have max : FileNameMaxLen = 9 := rfl
  rw [Nat.add_mul,Nat.one_mul] at outside
  unfold enter
  dsimp only
  rw [put_outside _ _ (by rw [wordBytes_length]; omega),put_outside _ _ (by omega),put_outside _ _ (by
    simp only [List.length_cons,List.length_nil]
    omega)]

theorem enter_inUse (directory : Directory) (j : Nat) :
    (directory.enter bigEndian i wanted newSector).inUse j = (decide (j = i) || directory.inUse j) := by
  by_cases same : j = i
  · subst same
    have byte : (directory.enter bigEndian j wanted newSector).table (j * EntrySize) = 1 := by
      unfold enter
      dsimp only
      rw [put_outside _ _ (.inl (by omega)),put_outside _ _ (.inl (by omega))]
      exact put_first _ _ _
    simp [inUse,byte]
  · have apart := entry_apart (k := 0) same (by decide)
    rw [Nat.add_zero] at apart
    have kept : (directory.enter bigEndian i wanted newSector).table (j * EntrySize) = directory.table (j * EntrySize) :=
      enter_outside directory wanted newSector (j * EntrySize) apart
    simp [inUse,kept,same]

theorem enter_sector (directory : Directory) (j : Nat) :
    (directory.enter bigEndian i wanted newSector).sector bigEndian j =
      if j = i then newSector else directory.sector bigEndian j := by
  split
  · rename_i same
    subst same
    have bytes : ∀ k < 4, (directory.enter bigEndian j wanted newSector).table (j * EntrySize + 4 + k) =
        (wordBytes bigEndian newSector).getD k 0 := by
      intro k small
      unfold enter
      dsimp only
      rw [put_inside _ _ (by rwa [wordBytes_length])]
    unfold sector intAt
    rw [bytes 1 (by decide),bytes 2 (by decide),bytes 3 (by decide),
      show (directory.enter bigEndian j wanted newSector).table (j * EntrySize + 4) = _ from bytes 0 (by decide),
      nativeWord_wordBytes]
  · rename_i differs
    refine intAt_congr bigEndian ?_
    intro k small
    rw [Nat.add_assoc]
    exact enter_outside directory wanted newSector _ (entry_apart differs (by simp only [EntrySize]; omega))

theorem enter_key (directory : Directory) (j : Nat) : (directory.enter bigEndian i wanted newSector).key j =
    if j = i then chars FileNameMaxLen wanted else directory.key j := by
  have max : FileNameMaxLen = 9 := rfl
  split
  · rename_i same
    subst same
    refine chars_strncpy ?_
    intro k small
    have length := strncpy_length FileNameMaxLen wanted
    unfold name enter
    dsimp only
    rw [put_outside _ _ (by rw [wordBytes_length]; omega),put_inside _ _ (by omega)]
  · rename_i differs
    refine chars_congr ?_
    intro k small
    unfold name
    rw [Nat.add_assoc]
    exact enter_outside directory wanted newSector _ (entry_apart differs (by simp only [EntrySize]; omega))

theorem free_outside (directory : Directory) (offset : Nat) (outside : offset ≠ i * EntrySize) :
    (directory.free i).table offset = directory.table offset := by
  refine put_outside _ _ ?_
  simp only [List.length_cons,List.length_nil]
  omega

theorem free_inUse (directory : Directory) (j : Nat) :
    (directory.free i).inUse j = (!decide (j = i) && directory.inUse j) := by
  by_cases same : j = i
  · subst same
    have byte : (directory.free j).table (j * EntrySize) = 0 := put_first _ _ _
    simp [inUse,byte]
  · have apart : j * EntrySize ≠ i * EntrySize := by
      simp only [EntrySize]
      omega
    simp [inUse,free_outside directory _ apart,same]

theorem free_sector (directory : Directory) (j : Nat) :
    (directory.free i).sector bigEndian j = directory.sector bigEndian j := by
  refine intAt_congr bigEndian ?_
  intro k small
  refine free_outside directory _ ?_
  simp only [EntrySize]
  omega

theorem free_key (directory : Directory) (j : Nat) : (directory.free i).key j = directory.key j := by
  have max : FileNameMaxLen = 9 := rfl
  refine chars_congr ?_
  intro k small
  refine free_outside directory _ ?_
  simp only [EntrySize]
  omega

end Directory
end Nachos.FileSys
