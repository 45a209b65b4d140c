import Nachos.FileSys.OpenFile

-- Which bytes a request through an open file is about, and which requests go astray.
namespace Nachos.FileSys
namespace FileHeader
variable {hdr : FileHeader} {numBytes position : Int}

-- How many sectors the length of the file needs.
def needed (hdr : FileHeader) : Nat := (divRoundUpInt hdr.fileLength SectorSize).toNat

-- The data sectors that the length needs are on the disk, and distinct.
structure Covers (hdr : FileHeader) : Prop where
  length : hdr.fileLength ≤ MaxFileSize
  bound : ∀ i < hdr.needed, (hdr.dataSectors i).toNat < NumSectors
  distinct : ∀ i < hdr.needed, ∀ k < hdr.needed, hdr.dataSectors i = hdr.dataSectors k → i = k

-- The header with the count of sectors that goes with its length.
def trimmed (hdr : FileHeader) : FileHeader :=
  {hdr with numSectors := BitVec.ofInt 32 (divRoundUpInt hdr.fileLength SectorSize)}

theorem trimmed_count (hdr : FileHeader) : hdr.trimmed.numSectors.toInt = divRoundUpInt hdr.fileLength SectorSize :=
  sectors_int hdr.numBytes

theorem mem_trimmed : sector ∈ hdr.trimmed.sectors ↔ ∃ i < hdr.needed, (hdr.dataSectors i).toNat = sector := by
  unfold sectors
  rw [trimmed_count]
  simp only [List.mem_map,List.mem_range]
  rfl

theorem Covers.sound (covers : hdr.Covers) : hdr.trimmed.Sound := by
  refine ⟨covers.length,hdr.trimmed_count,?_,?_⟩
  · intro sector member
    obtain ⟨i,inside,rfl⟩ := mem_trimmed.mp member
    exact covers.bound i inside
  · unfold sectors
    rw [trimmed_count]
    refine List.Nodup.map_on ?_ List.nodup_range
    intro i inside k inside' same
    exact covers.distinct i (List.mem_range.mp inside) k (List.mem_range.mp inside') (BitVec.eq_of_toNat_eq same)

-- Reading and writing never look at the count.
theorem readSectors_trimmed (hdr : FileHeader) (disk : Disk) (first : Int) (k : Nat) (buf : Bytes) (left : Nat) :
    hdr.trimmed.readSectors disk first k buf left = hdr.readSectors disk first k buf left := by
  induction left generalizing k buf with
  | zero => rfl
  | succ left ih =>
    simp only [readSectors,ih]
    rfl

theorem writeSectors_trimmed (hdr : FileHeader) (disk : Disk) (first : Int) (k : Nat) (buf : Bytes) (left : Nat) :
    hdr.trimmed.writeSectors disk first k buf left = hdr.writeSectors disk first k buf left := by
  induction left generalizing k disk with
  | zero => rfl
  | succ left ih =>
    simp only [writeSectors,ih]
    rfl

theorem readAt_trimmed (hdr : FileHeader) (disk : Disk) (fresh : Bytes) (numBytes position : Int) :
    hdr.trimmed.readAt disk fresh numBytes position = hdr.readAt disk fresh numBytes position := by
  unfold readAt
  simp only [readSectors_trimmed]
  rfl

theorem writeAt_trimmed (hdr : FileHeader) (disk : Disk) (fresh from_ : Bytes) (numBytes position : Int) :
    hdr.trimmed.writeAt disk fresh from_ numBytes position = hdr.writeAt disk fresh from_ numBytes position := by
  unfold writeAt partialSectors
  simp only [readAt_trimmed,writeSectors_trimmed]
  rfl

theorem count_amount : (hdr.count numBytes position : Int) = max 0 (min numBytes (hdr.fileLength - position)) := by
  unfold count
  split
  · omega
  · omega

-- The file is an array of bytes: what a read delivers, and what a write leaves.
structure Bytewise (hdr : FileHeader) (disk : Disk) (fresh from_ : Bytes) (numBytes position : Int) (n : Int)
    (data : List (BitVec 8)) (after : Disk) : Prop where
  reads : hdr.readAt disk fresh numBytes position = some data
  delivered : (data.length : Int) = n
  bytes : ∀ i < data.length, data[i]? = some (hdr.byteAt disk (position.toNat + i))
  writes : hdr.writeAt disk fresh from_ numBytes position = some (n,after)
  written : ∀ i : Nat, (i : Int) < hdr.fileLength →
    hdr.byteAt after i = if position ≤ i ∧ (i : Int) < position + n then from_ (i - position.toNat) else hdr.byteAt disk i
  outside : ∀ address, (∀ i < hdr.needed, address / SectorSize ≠ (hdr.dataSectors i).toNat) → after address = disk address

theorem readAt_writeAt_bytes (covers : hdr.Covers) (disk : Disk) (fresh from_ : Bytes) (low : 0 ≤ position)
    (high : position + numBytes < 2 ^ 31) :
    ∃ data after, Bytewise hdr disk fresh from_ numBytes position (max 0 (min numBytes (hdr.fileLength - position)))
      data after := by
  have sound := covers.sound
  have amount : (hdr.trimmed.count numBytes position : Int) = max 0 (min numBytes (hdr.fileLength - position)) :=
    count_amount
  obtain ⟨after,wrote,written⟩ := writeAt_spec sound disk fresh from_ low high
  refine ⟨take (hdr.byteAt disk) position.toNat (hdr.trimmed.count numBytes position),after,?_,?_,?_,?_,?_,?_⟩
  · rw [← readAt_trimmed]
    exact readAt_spec sound low high
  · rw [take_length,amount]
  · intro i inside
    rw [take_length] at inside
    simp [take,inside]
  · rw [← writeAt_trimmed,wrote,amount]
  · intro i inside
    have byte := written.bytes i inside
    have place : (position.toNat ≤ i ∧ i < position.toNat + hdr.trimmed.count numBytes position) ↔
        (position ≤ i ∧ (i : Int) < position + max 0 (min numBytes (hdr.fileLength - position))) := by
      rw [← amount]
      omega
    simp only [place] at byte
    exact byte
  · intro address apart
    refine written.outside address fun member => ?_
    obtain ⟨i,inside,same⟩ := mem_trimmed.mp member
    exact apart i inside same.symm

-- A file of 200 bytes, in sectors 9 and 7.
def twoSectors : FileHeader := ⟨200,2,fun i => if i = 0 then 9 else if i = 1 then 7 else 0⟩

theorem readAt_writeAt_two : ∃ data after, Bytewise twoSectors (fun _ => 1) (fun _ => 0) (fun _ => 5) 100 150
    (max 0 (min 100 (twoSectors.fileLength - 150))) data after :=
  readAt_writeAt_bytes ⟨by decide,by decide,by decide⟩ _ _ _ (by decide) (by decide)

-- The first test of a request.
def Refused (hdr : FileHeader) (numBytes position : Int) : Prop := numBytes ≤ 0 ∨ position ≥ hdr.fileLength

instance : Decidable (hdr.Refused numBytes position) := inferInstanceAs (Decidable (_ ∨ _))

def transferred (hdr : FileHeader) (numBytes position : Int) : Int :=
  if hdr.Refused numBytes position then 0 else hdr.clip numBytes position

-- The last sector of the request, after the clipping.
def finalSector (hdr : FileHeader) (numBytes position : Int) : Int := lastSector (hdr.clip numBytes position) position

def bufferSize (hdr : FileHeader) (numBytes position : Int) : Int :=
  (1 + hdr.finalSector numBytes position - firstSector position) * SectorSize

-- No more bytes than the file has, only sectors of the file, and nothing beside the buffer:
-- neither by the loop over the sectors nor by the copy.
structure Safe (hdr : FileHeader) (numBytes position : Int) : Prop where
  amount : hdr.transferred numBytes position ≤ hdr.fileLength
  indices : ¬hdr.Refused numBytes position → ∀ i, firstSector position ≤ i → i ≤ hdr.finalSector numBytes position →
    0 ≤ (wrap (i * SectorSize)).tdiv SectorSize ∧ (wrap (i * SectorSize)).tdiv SectorSize < hdr.numSectors.toInt
  loop : ¬hdr.Refused numBytes position → ∀ i, firstSector position ≤ i → i ≤ hdr.finalSector numBytes position →
    0 ≤ (i - firstSector position) * SectorSize ∧
      (i - firstSector position) * SectorSize + SectorSize ≤ hdr.bufferSize numBytes position
  copy : ¬hdr.Refused numBytes position → 0 ≤ position - firstSector position * SectorSize ∧
    position - firstSector position * SectorSize + hdr.clip numBytes position ≤ hdr.bufferSize numBytes position

-- WriteAt may read the first and the last sector into the buffer before.
structure WriteSafe (hdr : FileHeader) (numBytes position : Int) : Prop where
  request : hdr.Safe numBytes position
  first : ¬hdr.Refused numBytes position → position ≠ firstSector position * SectorSize →
    hdr.Safe SectorSize (firstSector position * SectorSize) ∧
      hdr.transferred SectorSize (firstSector position * SectorSize) ≤ hdr.bufferSize numBytes position
  last : ¬hdr.Refused numBytes position →
    wrap (position + hdr.clip numBytes position) ≠ (hdr.finalSector numBytes position + 1) * SectorSize →
    hdr.Safe SectorSize (hdr.finalSector numBytes position * SectorSize) ∧
      0 ≤ (hdr.finalSector numBytes position - firstSector position) * SectorSize ∧
      (hdr.finalSector numBytes position - firstSector position) * SectorSize +
        hdr.transferred SectorSize (hdr.finalSector numBytes position * SectorSize) ≤ hdr.bufferSize numBytes position

theorem refused_safe (length : 0 ≤ hdr.fileLength) (refused : hdr.Refused numBytes position) :
    hdr.Safe numBytes position := by
  refine ⟨?_,fun asked => absurd refused asked,fun asked => absurd refused asked,fun asked => absurd refused asked⟩
  rw [transferred,if_pos refused]
  exact length

theorem Sound.safe (sound : hdr.Sound) (length : 0 ≤ hdr.fileLength) (low : 0 ≤ position)
    (high : position + numBytes < 2 ^ 31) : hdr.Safe numBytes position := by
  by_cases refused : hdr.Refused numBytes position
  · exact refused_safe length refused
  · obtain ⟨start,some_,inside,_,clipped,first,last⟩ := sound.request low high refused
    generalize hdr.count numBytes position = n at *
    generalize position.toNat = p at *
    have count := sound.count
    rw [sectors_nonneg _ length] at count
    have bound := sound.length
    have size : ((SectorSize : Nat) : Int) = 128 := rfl
    have max : MaxFileSize = 3840 := rfl
    have final : hdr.finalSector numBytes position = ((p + n - 1) / SectorSize : Nat) := by
      rw [finalSector,clipped,last]
    have sector : ∀ i : Int, 0 ≤ i → i ≤ ((p + n - 1) / SectorSize : Nat) → (wrap (i * SectorSize)).tdiv SectorSize = i := by
      intro i low high
      rw [wrap_eq (by simp only [SectorSize] at *; omega) (by simp only [SectorSize] at *; omega)]
      exact Int.mul_tdiv_cancel _ (by decide)
    refine ⟨?_,?_,?_,?_⟩
    · rw [transferred,if_neg refused,clipped]
      omega
    · intro _ i above below
      rw [first] at above
      rw [final] at below
      rw [sector i (by simp only [SectorSize] at *; omega) below]
      simp only [SectorSize] at *
      omega
    · intro _ i above below
      rw [first] at above ⊢
      rw [final] at below
      rw [bufferSize,final,first]
      simp only [SectorSize] at *
      omega
    · intro _
      rw [bufferSize,final,first,clipped,start]
      simp only [SectorSize] at *
      omega

theorem Sound.transferred_le (sound : hdr.Sound) (some_ : 0 ≤ numBytes) (low : 0 ≤ position)
    (high : position + numBytes < 2 ^ 31) : hdr.transferred numBytes position ≤ numBytes := by
  unfold transferred
  split
  · exact some_
  · rename_i asked
    rw [(sound.request low high asked).clipped,count_amount]
    omega

theorem Sound.writeSafe (sound : hdr.Sound) (length : 0 ≤ hdr.fileLength) (low : 0 ≤ position)
    (high : position + numBytes < 2 ^ 31) : hdr.WriteSafe numBytes position := by
  have bound := sound.length
  have size : ((SectorSize : Nat) : Int) = 128 := rfl
  have max : MaxFileSize = 3840 := rfl
  -- Where the first and the last sector of the request are.
  have places : ¬hdr.Refused numBytes position → 0 ≤ firstSector position ∧
      firstSector position ≤ hdr.finalSector numBytes position ∧ hdr.finalSector numBytes position ≤ 30 := by
    intro asked
    obtain ⟨_,some_,inside,_,clipped,first,last⟩ := sound.request low high asked
    rw [finalSector,clipped,first,last]
    simp only [SectorSize] at *
    omega
  refine ⟨sound.safe length low high,?_,?_⟩
  · intro asked _
    obtain ⟨zero,order,few⟩ := places asked
    refine ⟨sound.safe length (by rw [size]; omega) (by rw [size]; omega),?_⟩
    refine le_trans (sound.transferred_le (by omega) (by rw [size]; omega) (by rw [size]; omega)) ?_
    rw [bufferSize,size]
    omega
  · intro asked _
    obtain ⟨zero,order,few⟩ := places asked
    have low' : 0 ≤ hdr.finalSector numBytes position * SectorSize := by
      rw [size]
      omega
    have high' : hdr.finalSector numBytes position * SectorSize + SectorSize < 2 ^ 31 := by
      rw [size]
      omega
    have most := sound.transferred_le (by omega) low' high'
    refine ⟨sound.safe length low' high',by rw [size]; omega,?_⟩
    rw [bufferSize,size] at *
    omega

theorem wrap_over (low : 2 ^ 31 ≤ value) (high : value < 2 ^ 32 + 2 ^ 31) : wrap value = value - 2 ^ 32 := by
  unfold wrap
  rw [Int.bmod_def]
  split <;> omega

-- A request that is not refused, at a negative position.
theorem negative_astray (sound : hdr.Sound) (length : 0 ≤ hdr.fileLength) (asked : ¬hdr.Refused numBytes position)
    (least : -2 ^ 31 ≤ position) (int : numBytes < 2 ^ 31) (negative : position < 0) : ¬hdr.Safe numBytes position := by
  intro safe
  have bound := sound.length
  have size : ((SectorSize : Nat) : Int) = 128 := rfl
  have max : MaxFileSize = 3840 := rfl
  have start := (safe.copy asked).1
  have quotient : firstSector position = -(-position / 128) := by
    have opposite : position = -(-position) := by omega
    rw [firstSector,size,opposite,Int.neg_tdiv,Int.tdiv_eq_ediv_of_nonneg (by omega)]
    rw [Int.neg_neg]
  rw [quotient,size] at start
  -- The loop begins at a sector before the file.
  have whole : firstSector position * 128 = position ∧ firstSector position < 0 := by omega
  have final : firstSector position ≤ hdr.finalSector numBytes position := by
    have end_ : position ≤ wrap (wrap (position + hdr.clip numBytes position) - 1) := by
      simp only [Refused,not_or] at asked
      have sum : wrap (position + numBytes) = position + numBytes := wrap_eq (by omega) (by omega)
      rw [clip,sum]
      split
      · -- What is left of the file may be more than an int; the sum wraps back.
        have rest : wrap (position + wrap (hdr.fileLength - position)) = hdr.fileLength := by
          unfold wrap
          rw [Int.add_bmod_bmod,show position + (hdr.fileLength - position) = hdr.fileLength by omega]
          exact wrap_eq (by omega) (by omega)
        rw [rest,wrap_eq (by omega) (by omega)]
        omega
      · rw [sum,wrap_eq (by omega) (by omega)]
        omega
    rw [finalSector,lastSector]
    exact Int.tdiv_le_tdiv (by decide) end_
  have index := (safe.indices asked _ (le_refl _) final).1
  rw [size,whole.1,wrap_eq least (by omega)] at index
  unfold firstSector at whole
  rw [size] at whole
  omega

theorem overflow_astray (sound : hdr.Sound) (asked : ¬hdr.Refused numBytes position) (low : 0 ≤ position)
    (int : numBytes < 2 ^ 31) (high : 2 ^ 31 ≤ position + numBytes) : ¬hdr.Safe numBytes position := by
  intro safe
  have bound := sound.length
  have max : MaxFileSize = 3840 := rfl
  have amount := safe.amount
  have sum : wrap (position + numBytes) = position + numBytes - 2 ^ 32 := by
    simp only [Refused,not_or] at asked
    exact wrap_over high (by omega)
  rw [transferred,if_neg asked,clip,sum] at amount
  simp only [Refused,not_or] at asked
  rw [if_neg (by omega)] at amount
  omega

theorem twoSectors_sound : twoSectors.Sound := ⟨by decide,by decide,by decide,by decide⟩

end FileHeader
end Nachos.FileSys
