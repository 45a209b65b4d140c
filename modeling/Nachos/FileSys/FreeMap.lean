import Nachos.FileSys.Directory
import Mathlib.Data.Finset.Card
import Mathlib.Data.Finset.SDiff

-- The map of free sectors in its file, and the sectors of a file taken from it and
-- given back.
namespace Nachos
open FileSys

namespace BitMap

def ints (freeMap : BitMap) (k : Nat) : BitVec 32 := freeMap.map.getD k 0

def ofBytes (bigEndian : Bool) (numBits : Nat) (bytes : Bytes) : BitMap :=
  ⟨numBits,(List.range (divRoundUp numBits BitsInWord)).map fun k => intAt bigEndian bytes (4 * k),by simp⟩

def fetchFrom (bigEndian : Bool) (freeMap : BitMap) (file : FileHeader) (disk : Disk) (fresh : Bytes) : Option BitMap := do
  let data ← file.readAt disk fresh (divRoundUp freeMap.numBits BitsInWord * 4 : Nat) 0
  some (ofBytes bigEndian freeMap.numBits (put (ofInts bigEndian freeMap.ints) 0 data))

def writeBack (bigEndian : Bool) (freeMap : BitMap) (file : FileHeader) (disk : Disk) (fresh : Bytes) : Option Disk := do
  let (_,disk) ← file.writeAt disk fresh (ofInts bigEndian freeMap.ints)
    (divRoundUp freeMap.numBits BitsInWord * 4 : Nat) 0
  some disk

end BitMap

namespace FileSys
namespace FileHeader

-- The loop of Allocate at place i; a place behind the table is not the header's.
def allocateFrom (hdr : FileHeader) (freeMap : BitMap) (i : Nat) : Nat → Option (FileHeader × BitMap)
  | 0 => some (hdr,freeMap)
  | left + 1 => do
    let (freeMap,sector) ← freeMap.find
    if i < NumDirect then
      allocateFrom {hdr with dataSectors := Function.update hdr.dataSectors i (BitVec.ofInt 32 sector)} freeMap (i + 1) left
    else none

-- The result, the header and the map.
def allocate (hdr : FileHeader) (freeMap : BitMap) (fileSize : BitVec 32) : Option (Bool × FileHeader × BitMap) := do
  let hdr := {hdr with numBytes := fileSize, numSectors := BitVec.ofInt 32 (divRoundUpInt fileSize.toInt SectorSize)}
  let clear ← freeMap.numClear
  if (clear : Int) < hdr.numSectors.toInt then some (false,hdr,freeMap)
  else
    let (hdr,freeMap) ← hdr.allocateFrom freeMap 0 hdr.numSectors.toInt.toNat
    some (true,hdr,freeMap)

def deallocateFrom (hdr : FileHeader) (freeMap : BitMap) (i : Nat) : Nat → Option BitMap
  | 0 => some freeMap
  | left + 1 =>
    if i < NumDirect then do
      let marked ← freeMap.test (hdr.dataSectors i).toInt
      if marked then
        let freeMap ← freeMap.clear (hdr.dataSectors i).toInt
        hdr.deallocateFrom freeMap (i + 1) left
      else none
    else none

def deallocate (hdr : FileHeader) (freeMap : BitMap) : Option BitMap :=
  hdr.deallocateFrom freeMap 0 hdr.numSectors.toInt.toNat

end FileHeader
end FileSys

namespace FileSys
namespace FileHeader
variable {hdr : FileHeader} {freeMap : BitMap}

theorem sector_int (sector : BitVec 32) (small : sector.toNat < NumSectors) : sector.toInt = (sector.toNat : Int) := by
  simp only [NumSectors] at small
  exact BitVec.toInt_eq_toNat_of_lt (by omega)

-- What Allocate's loop has done to the places from i on.
structure Allocated (hdr : FileHeader) (freeMap : BitMap) (i left : Nat) (after : FileHeader) (rest : BitMap) : Prop where
  numBytes : after.numBytes = hdr.numBytes
  numSectors : after.numSectors = hdr.numSectors
  others : ∀ k, k < i ∨ i + left ≤ k → after.dataSectors k = hdr.dataSectors k
  numBits : rest.numBits = freeMap.numBits
  free : ∀ k, i ≤ k → k < i + left → (after.dataSectors k).toNat ∈ freeMap.clearBits
  distinct : ∀ k l, i ≤ k → k < i + left → i ≤ l → l < i + left →
    (after.dataSectors k).toNat = (after.dataSectors l).toNat → k = l
  clear : ∀ j, j ∈ rest.clearBits ↔
    j ∈ freeMap.clearBits ∧ ∀ k, i ≤ k → k < i + left → (after.dataSectors k).toNat ≠ j

theorem allocateFrom_spec (hdr : FileHeader) (freeMap : BitMap) (i left : Nat) (size : freeMap.numBits = NumSectors)
    (places : i + left ≤ NumDirect) (enough : left ≤ freeMap.clearBits.card) :
    ∃ after rest, hdr.allocateFrom freeMap i left = some (after,rest) ∧ Allocated hdr freeMap i left after rest := by
  induction left generalizing hdr freeMap i with
  | zero =>
    refine ⟨hdr,freeMap,rfl,rfl,rfl,fun _ _ => rfl,rfl,by omega,by omega,?_⟩
    intro j
    exact ⟨fun clear => ⟨clear,by omega⟩,fun both => both.1⟩
  | succ left ih =>
    obtain ⟨first,found,member,erased⟩ := BitMap.find_clear freeMap (by omega)
    have bound := (BitMap.mem_clearBits.mp member).1
    have value : (BitVec.ofInt 32 (first : Int)).toNat = first := by
      rw [size,NumSectors] at bound
      rw [BitVec.ofInt_natCast,BitVec.toNat_ofNat]
      omega
    have fewer : left ≤ (freeMap.setBit first).clearBits.card := by
      rw [erased,Finset.card_erase_of_mem member]
      omega
    obtain ⟨after,rest,ran,done⟩ := ih {hdr with dataSectors := Function.update hdr.dataSectors i (BitVec.ofInt 32 first)}
      (freeMap.setBit first) (i + 1) size (by omega) fewer
    have here : after.dataSectors i = BitVec.ofInt 32 (first : Int) := by
      rw [done.others i (.inl (by omega))]
      simp
    have later : ∀ k, i + 1 ≤ k → k < i + 1 + left →
        (after.dataSectors k).toNat ≠ first ∧ (after.dataSectors k).toNat ∈ freeMap.clearBits := by
      intro k low high
      have free := done.free k low high
      rw [erased,Finset.mem_erase] at free
      exact free
    refine ⟨after,rest,?_,done.numBytes,done.numSectors,?_,done.numBits,?_,?_,?_⟩
    · simp only [allocateFrom,found,Option.bind_eq_bind,Option.bind_some]
      rw [if_pos (by omega)]
      exact ran
    · intro k outside
      rw [done.others k (by omega)]
      exact Function.update_of_ne (by omega) _ _
    · intro k low high
      by_cases same : k = i
      · rw [same,here,value]
        exact member
      · exact (later k (by omega) (by omega)).2
    · intro k l lowK highK lowL highL equal
      by_cases one : k = i
      · by_cases two : l = i
        · omega
        · rw [one,here,value] at equal
          exact absurd equal.symm (later l (by omega) (by omega)).1
      · by_cases two : l = i
        · rw [two,here,value] at equal
          exact absurd equal (later k (by omega) (by omega)).1
        · exact done.distinct k l (by omega) (by omega) (by omega) (by omega) equal
    · intro j
      rw [done.clear,erased,Finset.mem_erase]
      constructor
      · rintro ⟨⟨differs,clear⟩,apart⟩
        refine ⟨clear,?_⟩
        intro k low high
        by_cases same : k = i
        · rw [same,here,value]
          exact Ne.symm differs
        · exact apart k (by omega) (by omega)
      · rintro ⟨clear,apart⟩
        have differs := apart i (by omega) (by omega)
        rw [here,value] at differs
        exact ⟨⟨Ne.symm differs,clear⟩,fun k low high => apart k (by omega) (by omega)⟩

-- Deallocate gives marked sectors back.
theorem deallocateFrom_spec (hdr : FileHeader) (freeMap : BitMap) (i left : Nat) (size : freeMap.numBits = NumSectors)
    (places : i + left ≤ NumDirect)
    (marked : ∀ k, i ≤ k → k < i + left → (hdr.dataSectors k).toNat < NumSectors ∧
      (hdr.dataSectors k).toNat ∉ freeMap.clearBits)
    (distinct : ∀ k l, i ≤ k → k < i + left → i ≤ l → l < i + left →
      (hdr.dataSectors k).toNat = (hdr.dataSectors l).toNat → k = l) :
    ∃ rest, hdr.deallocateFrom freeMap i left = some rest ∧ rest.numBits = freeMap.numBits ∧
      ∀ j, j ∈ rest.clearBits ↔ j ∈ freeMap.clearBits ∨ ∃ k, i ≤ k ∧ k < i + left ∧ (hdr.dataSectors k).toNat = j := by
  induction left generalizing freeMap i with
  | zero =>
    refine ⟨freeMap,rfl,rfl,?_⟩
    intro j
    refine ⟨.inl,?_⟩
    rintro (clear | ⟨k,low,high,_⟩)
    · exact clear
    · omega
  | succ left ih =>
    obtain ⟨bound,taken⟩ := marked i (by omega) (by omega)
    have inside : (hdr.dataSectors i).toNat < freeMap.numBits := by omega
    have cleared := BitMap.clear_clearBits inside
    obtain ⟨rest,ran,bits,clear⟩ := ih (freeMap.clearBit (hdr.dataSectors i).toNat) (i + 1) size (by omega)
      (by
        intro k low high
        obtain ⟨bound',taken'⟩ := marked k (by omega) (by omega)
        refine ⟨bound',?_⟩
        rw [cleared,Finset.mem_insert,not_or]
        refine ⟨?_,taken'⟩
        intro same
        have equal := distinct k i (by omega) (by omega) (by omega) (by omega) same
        omega)
      (fun k l lowK highK lowL highL => distinct k l (by omega) (by omega) (by omega) (by omega))
    refine ⟨rest,?_,bits,?_⟩
    · rw [deallocateFrom,if_pos (by omega),sector_int _ bound]
      simp only [BitMap.test_nat inside,(BitMap.test_clear inside).mpr taken,BitMap.clear_nat inside,
        Option.bind_eq_bind,Option.bind_some,if_true]
      exact ran
    · intro j
      rw [clear,cleared,Finset.mem_insert]
      constructor
      · rintro ((rfl | before) | ⟨k,low,high,same⟩)
        · exact .inr ⟨i,by omega,by omega,rfl⟩
        · exact .inl before
        · exact .inr ⟨k,by omega,by omega,same⟩
      · rintro (before | ⟨k,low,high,same⟩)
        · exact .inl (.inr before)
        · by_cases here : k = i
          · exact .inl (.inl (by rw [← same,here]))
          · exact .inr ⟨k,by omega,by omega,same⟩

theorem mem_sectors : sector ∈ hdr.sectors ↔ ∃ k < hdr.numSectors.toInt.toNat, (hdr.dataSectors k).toNat = sector := by
  simp [sectors]

-- A header for a file of the given size, with sectors taken from the map.
structure Fitted (fileSize : BitVec 32) (freeMap : BitMap) (after : FileHeader) (rest : BitMap) : Prop where
  numBytes : after.numBytes = fileSize
  sound : after.Sound
  tidy : after.Tidy
  numBits : rest.numBits = freeMap.numBits
  free : ∀ sector ∈ after.sectors, sector ∈ freeMap.clearBits
  clear : ∀ j, j ∈ rest.clearBits ↔ j ∈ freeMap.clearBits ∧ j ∉ after.sectors

theorem Fitted.card (fitted : Fitted fileSize freeMap after rest) :
    rest.clearBits.card + after.sectors.length = freeMap.clearBits.card := by
  have left : rest.clearBits = freeMap.clearBits \ after.sectors.toFinset := by
    ext j
    rw [fitted.clear,Finset.mem_sdiff,List.mem_toFinset]
  have part : after.sectors.toFinset ⊆ freeMap.clearBits := by
    intro j member
    exact fitted.free j (List.mem_toFinset.mp member)
  rw [left,← List.toFinset_card_of_nodup fitted.sound.distinct]
  exact Finset.card_sdiff_add_card_eq_card part

theorem allocate_refuses (hdr : FileHeader) (freeMap : BitMap) (fileSize : BitVec 32)
    (few : (freeMap.clearBits.card : Int) < divRoundUpInt fileSize.toInt SectorSize) :
    ∃ after, hdr.allocate freeMap fileSize = some (false,after,freeMap) := by
  unfold allocate
  simp only [BitMap.numClear_count,Option.bind_eq_bind,Option.bind_some]
  rw [if_pos (by simpa only [sectors_int] using few)]
  exact ⟨_,rfl⟩

theorem allocate_spec (tidy : hdr.Tidy) (freeMap : BitMap) (fileSize : BitVec 32) (size : freeMap.numBits = NumSectors)
    (length : fileSize.toInt ≤ MaxFileSize)
    (enough : divRoundUpInt fileSize.toInt SectorSize ≤ freeMap.clearBits.card) :
    ∃ after rest, hdr.allocate freeMap fileSize = some (true,after,rest) ∧ Fitted fileSize freeMap after rest := by
  have count := sectors_int fileSize
  have max : MaxFileSize = 3840 := rfl
  have direct : NumDirect = 30 := rfl
  have places : (divRoundUpInt fileSize.toInt SectorSize).toNat ≤ NumDirect := by
    rcases Int.lt_or_le fileSize.toInt 0 with negative | sign
    · have bound := sectors_neg _ negative
      omega
    · rw [sectors_nonneg _ sign]
      omega
  obtain ⟨after,rest,ran,done⟩ := allocateFrom_spec
    {hdr with numBytes := fileSize, numSectors := BitVec.ofInt 32 (divRoundUpInt fileSize.toInt SectorSize)}
    freeMap 0 (divRoundUpInt fileSize.toInt SectorSize).toNat size (by omega) (by omega)
  have number : after.numSectors.toInt = divRoundUpInt fileSize.toInt SectorSize := by
    rw [done.numSectors]
    exact count
  have member : ∀ sector, sector ∈ after.sectors ↔
      ∃ k < (divRoundUpInt fileSize.toInt SectorSize).toNat, (after.dataSectors k).toNat = sector := by
    intro sector
    rw [mem_sectors,number]
  have free : ∀ sector ∈ after.sectors, sector ∈ freeMap.clearBits := by
    intro sector has
    obtain ⟨k,inside,rfl⟩ := (member sector).mp has
    exact done.free k (by omega) (by omega)
  refine ⟨after,rest,?_,done.numBytes,?_,?_,done.numBits,free,?_⟩
  · unfold allocate
    simp only [BitMap.numClear_count,Option.bind_eq_bind,Option.bind_some]
    rw [if_neg (by rw [count]; omega),count,ran]
    rfl
  · have bytes : after.fileLength = fileSize.toInt := by
      unfold fileLength
      rw [done.numBytes]
    refine ⟨by omega,by rw [number,bytes],?_,?_⟩
    · intro sector has
      have inside := (BitMap.mem_clearBits.mp (free sector has)).1
      omega
    · unfold sectors
      rw [number]
      refine List.Nodup.map_on ?_ List.nodup_range
      intro k one l two same
      exact done.distinct k l (by omega) (by simpa using List.mem_range.mp one) (by omega)
        (by simpa using List.mem_range.mp two) same
  · intro i behind
    rw [done.others i (.inr (by omega))]
    exact tidy i behind
  · intro j
    rw [done.clear,member]
    constructor
    · rintro ⟨clear,apart⟩
      refine ⟨clear,?_⟩
      rintro ⟨k,inside,same⟩
      exact apart k (by omega) (by omega) same
    · rintro ⟨clear,none⟩
      refine ⟨clear,?_⟩
      intro k _ inside same
      exact none ⟨k,by omega,same⟩

theorem deallocate_spec (sound : hdr.Sound) (freeMap : BitMap) (size : freeMap.numBits = NumSectors)
    (marked : ∀ sector ∈ hdr.sectors, sector ∉ freeMap.clearBits) :
    ∃ rest, hdr.deallocate freeMap = some rest ∧ rest.numBits = freeMap.numBits ∧
      ∀ j, j ∈ rest.clearBits ↔ j ∈ freeMap.clearBits ∨ j ∈ hdr.sectors := by
  have enough := sound.enough
  obtain ⟨rest,ran,bits,clear⟩ := deallocateFrom_spec hdr freeMap 0 hdr.numSectors.toInt.toNat size (by omega)
    (fun k _ inside => ⟨sound.sector_lt (by omega),marked _ (sector_mem (by omega))⟩)
    (fun k l _ one _ two same => sound.sector_inj (by omega) (by omega) same)
  refine ⟨rest,ran,bits,?_⟩
  intro j
  rw [clear,mem_sectors]
  constructor
  · rintro (before | ⟨k,_,inside,same⟩)
    · exact .inl before
    · exact .inr ⟨k,by omega,same⟩
  · rintro (before | ⟨k,inside,same⟩)
    · exact .inl before
    · exact .inr ⟨k,by omega,by omega,same⟩

end FileHeader
end FileSys
end Nachos
