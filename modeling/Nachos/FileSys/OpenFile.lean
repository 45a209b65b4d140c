import Nachos.FileSys.Disk

-- File headers of filehdr.cc, and reading and writing parts of a file as openfile.cc
-- does it. `fresh` is what newly allocated memory holds.
namespace Nachos.FileSys

def NumDirect : Nat := (SectorSize - 2 * 4) / 4
def MaxFileSize : Nat := NumDirect * SectorSize

-- divRoundUp on ints
def divRoundUpInt (n s : Int) : Int := n.tdiv s + if n.tmod s > 0 then 1 else 0

theorem sectors_nonneg (n : Int) (sign : 0 ≤ n) : divRoundUpInt n SectorSize = (n + 127) / 128 := by
  have size : ((SectorSize : Nat) : Int) = 128 := rfl
  rw [divRoundUpInt,size,Int.tdiv_eq_ediv_of_nonneg sign,Int.tmod_eq_emod_of_nonneg sign]
  split <;> omega

theorem sectors_neg (n : Int) (sign : n < 0) : n ≤ divRoundUpInt n SectorSize ∧ divRoundUpInt n SectorSize ≤ 0 := by
  have size : ((SectorSize : Nat) : Int) = 128 := rfl
  have opposite : n = -(-n) := by omega
  rw [divRoundUpInt,size,opposite,Int.neg_tdiv,Int.neg_tmod,Int.tdiv_eq_ediv_of_nonneg (by omega),
    Int.tmod_eq_emod_of_nonneg (by omega)]
  split <;> omega

-- The number of sectors is an int again.
theorem sectors_int (fileSize : BitVec 32) :
    (BitVec.ofInt 32 (divRoundUpInt fileSize.toInt SectorSize)).toInt = divRoundUpInt fileSize.toInt SectorSize := by
  have low := fileSize.le_toInt
  have high := fileSize.toInt_lt
  rw [BitVec.toInt_ofInt]
  refine wrap_eq ?_ ?_
  · rcases Int.lt_or_le fileSize.toInt 0 with negative | sign
    · have bound := sectors_neg _ negative
      omega
    · rw [sectors_nonneg _ sign]
      omega
  · rcases Int.lt_or_le fileSize.toInt 0 with negative | sign
    · have bound := sectors_neg _ negative
      omega
    · rw [sectors_nonneg _ sign]
      omega

-- The table has NumDirect places; the function is 0 behind them.
structure FileHeader where
  numBytes : BitVec 32
  numSectors : BitVec 32
  dataSectors : Nat → BitVec 32

namespace FileHeader

-- The object as the ints it consists of.
def ints (hdr : FileHeader) : Nat → BitVec 32
  | 0 => hdr.numBytes
  | 1 => hdr.numSectors
  | i + 2 => hdr.dataSectors i

def ofBytes (bigEndian : Bool) (bytes : Bytes) : FileHeader :=
  ⟨intAt bigEndian bytes 0,intAt bigEndian bytes 4,
    fun i => if i < NumDirect then intAt bigEndian bytes (8 + 4 * i) else 0⟩

def fetchFrom (bigEndian : Bool) (disk : Disk) (sector : Int) : Option FileHeader := do
  let bytes ← readSector disk sector
  some (ofBytes bigEndian bytes)

def writeBack (hdr : FileHeader) (bigEndian : Bool) (disk : Disk) (sector : Int) : Option Disk :=
  writeSector disk sector (ofInts bigEndian hdr.ints)

def byteToSector (hdr : FileHeader) (offset : Int) : Option Int :=
  let i := offset.tdiv SectorSize
  if 0 ≤ i ∧ i < NumDirect then some (hdr.dataSectors i.toNat).toInt else none

def fileLength (hdr : FileHeader) : Int := hdr.numBytes.toInt

-- The two loops over the sectors from firstSector on, at the k-th of them.
def readSectors (hdr : FileHeader) (disk : Disk) (firstSector : Int) (k : Nat) (buf : Bytes) : Nat → Option Bytes
  | 0 => some buf
  | left + 1 => do
    let sector ← hdr.byteToSector (wrap ((firstSector + k) * SectorSize))
    let data ← readSector disk sector
    hdr.readSectors disk firstSector (k + 1) (put buf (k * SectorSize) (take data 0 SectorSize)) left

def writeSectors (hdr : FileHeader) (disk : Disk) (firstSector : Int) (k : Nat) (buf : Bytes) : Nat → Option Disk
  | 0 => some disk
  | left + 1 => do
    let sector ← hdr.byteToSector (wrap ((firstSector + k) * SectorSize))
    let disk ← writeSector disk sector fun offset => buf (k * SectorSize + offset)
    hdr.writeSectors disk firstSector (k + 1) buf left

-- The part of the request that both ReadAt and WriteAt go on with, and its sectors.
def clip (hdr : FileHeader) (numBytes position : Int) : Int :=
  if wrap (position + numBytes) > hdr.fileLength then wrap (hdr.fileLength - position) else numBytes

def firstSector (position : Int) : Int := position.tdiv SectorSize
def lastSector (numBytes position : Int) : Int := (wrap (wrap (position + numBytes) - 1)).tdiv SectorSize

def readAt (hdr : FileHeader) (disk : Disk) (fresh : Bytes) (numBytes position : Int) : Option (List (BitVec 8)) :=
  if numBytes ≤ 0 ∨ position ≥ hdr.fileLength then some []
  else
    let numBytes := hdr.clip numBytes position
    let firstSector := firstSector position
    let lastSector := lastSector numBytes position
    let numSectors := 1 + lastSector - firstSector
    do
      let buf ← hdr.readSectors disk firstSector 0 fresh numSectors.toNat
      let start := position - firstSector * SectorSize
      if 0 ≤ start ∧ 0 ≤ numBytes ∧ start + numBytes ≤ numSectors * SectorSize then
        some (take buf start.toNat numBytes.toNat)
      else none

-- WriteAt reads in the first and last sector, if they are to be partially modified.
def partialSectors (hdr : FileHeader) (disk : Disk) (fresh : Bytes) (numBytes position : Int) : Option Bytes :=
  let firstSector := firstSector position
  let lastSector := lastSector numBytes position
  let firstAligned := decide (position = firstSector * SectorSize)
  let lastAligned := decide (wrap (position + numBytes) = (lastSector + 1) * SectorSize)
  do
    let buf ←
      if !firstAligned then
        (hdr.readAt disk fresh SectorSize (firstSector * SectorSize)).map fun data => put fresh 0 data
      else some fresh
    if !lastAligned && (decide (firstSector ≠ lastSector) || firstAligned) then
      (hdr.readAt disk fresh SectorSize (lastSector * SectorSize)).map fun data =>
        put buf ((lastSector - firstSector) * SectorSize).toNat data
    else some buf

def writeAt (hdr : FileHeader) (disk : Disk) (fresh : Bytes) (from_ : Bytes) (numBytes position : Int) :
    Option (Int × Disk) :=
  if numBytes ≤ 0 ∨ position ≥ hdr.fileLength then some (0,disk)
  else
    let numBytes := hdr.clip numBytes position
    let firstSector := firstSector position
    let lastSector := lastSector numBytes position
    let numSectors := 1 + lastSector - firstSector
    do
      let buf ← hdr.partialSectors disk fresh numBytes position
      let start := position - firstSector * SectorSize
      if 0 ≤ start ∧ 0 ≤ numBytes ∧ start + numBytes ≤ numSectors * SectorSize then
        let buf := put buf start.toNat (take from_ 0 numBytes.toNat)
        let disk ← hdr.writeSectors disk firstSector 0 buf numSectors.toNat
        some (numBytes,disk)
      else none

-- The sectors of the file, and where its bytes are.
def sectors (hdr : FileHeader) : List Nat :=
  (List.range hdr.numSectors.toInt.toNat).map fun i => (hdr.dataSectors i).toNat

def address (hdr : FileHeader) (i : Nat) : Nat := (hdr.dataSectors (i / SectorSize)).toNat * SectorSize + i % SectorSize

def byteAt (hdr : FileHeader) (disk : Disk) (i : Nat) : BitVec 8 := disk (hdr.address i)

-- A header whose sectors are on the disk, distinct, and as many as the length needs.
structure Sound (hdr : FileHeader) : Prop where
  length : hdr.fileLength ≤ MaxFileSize
  count : hdr.numSectors.toInt = divRoundUpInt hdr.fileLength SectorSize
  bound : ∀ sector ∈ hdr.sectors, sector < NumSectors
  distinct : hdr.sectors.Nodup

variable {hdr : FileHeader} {disk after : Disk} {fresh buf from_ : Bytes} {i k left first : Nat}
  {numBytes position : Int}

theorem Sound.enough (sound : hdr.Sound) : hdr.numSectors.toInt.toNat ≤ NumDirect := by
  have length := sound.length
  have count := sound.count
  have size : MaxFileSize = 3840 := rfl
  have places : NumDirect = 30 := rfl
  rcases Int.lt_or_le hdr.fileLength 0 with negative | sign
  · have none := sectors_neg _ negative
    omega
  · rw [sectors_nonneg _ sign] at count
    omega

theorem Sound.covers (sound : hdr.Sound) (inside : (i : Int) < hdr.fileLength) :
    i / SectorSize < hdr.numSectors.toInt.toNat := by
  have count := sound.count
  rw [sectors_nonneg _ (by omega)] at count
  simp only [SectorSize]
  omega

theorem sector_mem (inside : i < hdr.numSectors.toInt.toNat) : (hdr.dataSectors i).toNat ∈ hdr.sectors :=
  List.mem_map.mpr ⟨i,List.mem_range.mpr inside,rfl⟩

theorem Sound.sector_lt (sound : hdr.Sound) (inside : i < hdr.numSectors.toInt.toNat) :
    (hdr.dataSectors i).toNat < NumSectors := sound.bound _ (sector_mem inside)

theorem Sound.sector_inj (sound : hdr.Sound) (one : i < hdr.numSectors.toInt.toNat)
    (two : k < hdr.numSectors.toInt.toNat) (same : (hdr.dataSectors i).toNat = (hdr.dataSectors k).toNat) : i = k := by
  have distinct := sound.distinct
  unfold sectors at distinct
  exact List.inj_on_of_nodup_map distinct (List.mem_range.mpr one) (List.mem_range.mpr two) same

theorem Sound.byteToSector (sound : hdr.Sound) (inside : i < hdr.numSectors.toInt.toNat) :
    hdr.byteToSector (wrap ((i : Int) * SectorSize)) = some ((hdr.dataSectors i).toNat : Int) := by
  have few := sound.enough
  have bound := sound.sector_lt inside
  have value : wrap ((i : Int) * SectorSize) = i * SectorSize := by
    simp only [NumDirect,SectorSize] at *
    exact wrap_eq (by omega) (by omega)
  have quotient : ((i : Int) * SectorSize).tdiv SectorSize = i := Int.mul_tdiv_cancel _ (by decide)
  unfold FileHeader.byteToSector
  rw [value,quotient]
  have range : (0 : Int) ≤ i ∧ (i : Int) < NumDirect := by omega
  simp only [range,and_self,if_true,Int.toNat_natCast,Option.some.injEq]
  simp only [NumSectors] at bound
  exact BitVec.toInt_eq_toNat_of_lt (by omega)

theorem address_part (hdr : FileHeader) (small : i < SectorSize) :
    hdr.address (first * SectorSize + (k * SectorSize + i)) = (hdr.dataSectors (first + k)).toNat * SectorSize + i := by
  unfold address
  simp only [SectorSize] at *
  rw [show (first * 128 + (k * 128 + i)) / 128 = first + k by omega,
    show (first * 128 + (k * 128 + i)) % 128 = i by omega]

-- The loop fills the buffer with the bytes of the file.
theorem readSectors_spec (sound : hdr.Sound) (disk : Disk) (first k left : Nat)
    (inside : first + k + left ≤ hdr.numSectors.toInt.toNat) (buf : Bytes) :
    ∃ filled, hdr.readSectors disk first k buf left = some filled ∧ ∀ offset, filled offset =
      if k * SectorSize ≤ offset ∧ offset < (k + left) * SectorSize then hdr.byteAt disk (first * SectorSize + offset)
      else buf offset := by
  induction left generalizing k buf with
  | zero =>
    refine ⟨buf,rfl,?_⟩
    intro offset
    rw [if_neg]
    simp only [SectorSize]
    omega
  | succ left ih =>
    have here : first + k < hdr.numSectors.toInt.toNat := by omega
    obtain ⟨filled,ran,bytes⟩ := ih (k + 1) (by omega) (put buf (k * SectorSize)
      (take (fun offset => disk ((hdr.dataSectors (first + k)).toNat * SectorSize + offset)) 0 SectorSize))
    refine ⟨filled,?_,?_⟩
    · have found := sound.byteToSector here
      rw [Int.natCast_add] at found
      simp only [readSectors,found,readSector_nat disk (sound.sector_lt here),Option.bind_eq_bind,Option.bind_some]
      exact ran
    · intro offset
      rw [bytes offset]
      by_cases later : (k + 1) * SectorSize ≤ offset ∧ offset < (k + 1 + left) * SectorSize
      · rw [if_pos later,if_pos (by simp only [SectorSize] at *; omega)]
      · rw [if_neg later]
        by_cases now : k * SectorSize ≤ offset ∧ offset < (k + 1) * SectorSize
        · rw [if_pos (by simp only [SectorSize] at *; omega)]
          obtain ⟨j,rfl⟩ := Nat.exists_eq_add_of_le now.1
          have small : j < SectorSize := by
            simp only [SectorSize] at *
            omega
          rw [put_inside _ _ (by simpa using small),take_getD _ _ small]
          rw [byteAt,address_part _ small,Nat.zero_add]
        · rw [if_neg (by simp only [SectorSize] at *; omega),put_outside]
          simp only [take_length,SectorSize] at *
          omega

-- The loop writes the buffer over the sectors of the file, and nothing else.
theorem writeSectors_spec (sound : hdr.Sound) (disk : Disk) (first k left : Nat)
    (inside : first + k + left ≤ hdr.numSectors.toInt.toNat) (buf : Bytes) :
    ∃ after, hdr.writeSectors disk first k buf left = some after ∧
      (∀ address, (∀ j, k ≤ j → j < k + left → address / SectorSize ≠ (hdr.dataSectors (first + j)).toNat) →
        after address = disk address) ∧
      ∀ offset, k * SectorSize ≤ offset → offset < (k + left) * SectorSize →
        hdr.byteAt after (first * SectorSize + offset) = buf offset := by
  induction left generalizing k disk with
  | zero =>
    refine ⟨disk,rfl,fun _ _ => rfl,?_⟩
    intro offset low high
    simp only [SectorSize] at *
    omega
  | succ left ih =>
    have here : first + k < hdr.numSectors.toInt.toNat := by omega
    obtain ⟨after,ran,rest,bytes⟩ := ih
      (fun address => if address / SectorSize = (hdr.dataSectors (first + k)).toNat then
        buf (k * SectorSize + address % SectorSize) else disk address) (k + 1) (by omega)
    refine ⟨after,?_,?_,?_⟩
    · have found := sound.byteToSector here
      rw [Int.natCast_add] at found
      simp only [writeSectors,found,writeSector_nat disk _ (sound.sector_lt here),Option.bind_eq_bind,Option.bind_some]
      exact ran
    · intro address apart
      rw [rest address fun j low high => apart j (by omega) (by omega),if_neg (apart k (by omega) (by omega))]
    · intro offset low high
      by_cases now : offset < (k + 1) * SectorSize
      · obtain ⟨j,rfl⟩ := Nat.exists_eq_add_of_le low
        have small : j < SectorSize := by
          simp only [SectorSize] at *
          omega
        have sector : ((hdr.dataSectors (first + k)).toNat * SectorSize + j) / SectorSize =
            (hdr.dataSectors (first + k)).toNat := by
          simp only [SectorSize] at *
          omega
        have rem : ((hdr.dataSectors (first + k)).toNat * SectorSize + j) % SectorSize = j := by
          simp only [SectorSize] at *
          omega
        rw [byteAt,address_part _ small,rest,sector,rem,if_pos rfl]
        -- The sectors that follow are others.
        intro next low' high' same
        rw [sector] at same
        have equal := sound.sector_inj here (by omega : first + next < _) same
        omega
      · exact bytes offset (by omega) (by rwa [show k + 1 + left = k + (left + 1) by omega])

-- How many bytes a request is for.
def count (hdr : FileHeader) (numBytes position : Int) : Nat :=
  if numBytes ≤ 0 ∨ position ≥ hdr.fileLength then 0 else (min numBytes (hdr.fileLength - position)).toNat

-- A request that is not refused: n bytes at p, in the sectors of the file.
structure Request (hdr : FileHeader) (numBytes position : Int) (p n : Nat) : Prop where
  start : position = p
  some_ : 0 < n
  inside : (p : Int) + n ≤ hdr.fileLength
  count : hdr.count numBytes position = n
  clipped : hdr.clip numBytes position = n
  first : firstSector position = (p / SectorSize : Nat)
  last : lastSector n position = ((p + n - 1) / SectorSize : Nat)

theorem Sound.request (sound : hdr.Sound) (low : 0 ≤ position) (high : position + numBytes < 2 ^ 31)
    (asked : ¬(numBytes ≤ 0 ∨ position ≥ hdr.fileLength)) :
    Request hdr numBytes position position.toNat (hdr.count numBytes position) := by
  have length := sound.length
  have size : MaxFileSize = 3840 := rfl
  have sum : wrap (position + numBytes) = position + numBytes := wrap_eq (by omega) (by omega)
  have rest : wrap (hdr.fileLength - position) = hdr.fileLength - position := wrap_eq (by omega) (by omega)
  have amount : hdr.count numBytes position = (min numBytes (hdr.fileLength - position)).toNat := if_neg asked
  have clipped : hdr.clip numBytes position = hdr.count numBytes position := by
    rw [clip,sum,rest,amount]
    split <;> omega
  refine ⟨by omega,by omega,by omega,rfl,clipped,?_,?_⟩
  · rw [firstSector,Int.tdiv_eq_ediv_of_nonneg low]
    simp only [SectorSize]
    omega
  · have total : wrap (position + hdr.count numBytes position) = position + hdr.count numBytes position :=
      wrap_eq (by omega) (by omega)
    rw [lastSector,total,wrap_eq (by omega) (by omega),Int.tdiv_eq_ediv_of_nonneg (by omega)]
    simp only [SectorSize]
    omega

theorem readAt_spec (sound : hdr.Sound) (low : 0 ≤ position) (high : position + numBytes < 2 ^ 31) :
    hdr.readAt disk fresh numBytes position =
      some (take (hdr.byteAt disk) position.toNat (hdr.count numBytes position)) := by
  by_cases asked : numBytes ≤ 0 ∨ position ≥ hdr.fileLength
  · simp [readAt,count,asked,take]
  · obtain ⟨start,some_,inside,_,clipped,first,last⟩ := sound.request low high asked
    generalize hdr.count numBytes position = n at *
    generalize position.toNat = p at *
    subst start
    have covered := sound.covers (i := p + n - 1) (by omega)
    have number : (1 + (((p + n - 1) / SectorSize : Nat) : Int) - ((p / SectorSize : Nat) : Int)).toNat =
        (p + n - 1) / SectorSize + 1 - p / SectorSize := by
      simp only [SectorSize]
      omega
    obtain ⟨filled,ran,bytes⟩ := readSectors_spec sound disk (p / SectorSize) 0
      ((p + n - 1) / SectorSize + 1 - p / SectorSize) (by simp only [SectorSize] at *; omega) fresh
    unfold readAt
    simp only [asked,if_false,clipped,first,last,number,ran,Option.bind_eq_bind,Option.bind_some]
    rw [if_pos (by simp only [SectorSize]; omega)]
    refine congrArg some ?_
    unfold take
    refine List.map_congr_left ?_
    intro i member
    have small := List.mem_range.mp member
    have place : p / SectorSize * SectorSize + (((p : Int) - ((p / SectorSize : Nat) : Int) * SectorSize).toNat + i) = p + i := by
      simp only [SectorSize]
      omega
    rw [bytes,if_pos (by simp only [SectorSize]; omega),place]

-- One whole sector of the file, as far as the file goes.
theorem readAt_sector (sound : hdr.Sound) (disk : Disk) (fresh : Bytes) (inside : k * SectorSize < hdr.fileLength) :
    hdr.readAt disk fresh SectorSize ((k : Int) * SectorSize) =
      some (take (hdr.byteAt disk) (k * SectorSize) (min SectorSize (hdr.fileLength - k * SectorSize).toNat)) := by
  have length := sound.length
  have size : MaxFileSize = 3840 := rfl
  have sector : (SectorSize : Int) = 128 := rfl
  rw [readAt_spec sound (by rw [sector]; omega) (by omega)]
  have amount : hdr.count SectorSize ((k : Int) * SectorSize) = min SectorSize (hdr.fileLength - k * SectorSize).toNat := by
    rw [count,if_neg (by omega)]
    omega
  have start : ((k : Int) * SectorSize).toNat = k * SectorSize := by omega
  rw [amount,start]

theorem put_sector (buf : Bytes) (start from_ count : Nat) (inside : i < count) (at_ : offset = start + i) :
    put buf start (take bytes from_ count) offset = bytes (from_ + i) := by
  rw [at_,put_inside _ _ (by simpa using inside),take_getD _ _ inside]

-- What is not to be written is in the buffer, as far as the file goes.
theorem partialSectors_spec (sound : hdr.Sound) (disk : Disk) (fresh : Bytes) (p n : Nat) (some_ : 0 < n)
    (inside : (p : Int) + n ≤ hdr.fileLength) (first : firstSector position = (p / SectorSize : Nat))
    (last : lastSector n position = ((p + n - 1) / SectorSize : Nat)) (start : position = p) :
    ∃ buf, hdr.partialSectors disk fresh n position = some buf ∧
      ∀ offset, offset < ((p + n - 1) / SectorSize + 1 - p / SectorSize) * SectorSize →
        offset < p % SectorSize ∨ p % SectorSize + n ≤ offset →
        ((p / SectorSize * SectorSize + offset : Nat) : Int) < hdr.fileLength →
        buf offset = hdr.byteAt disk (p / SectorSize * SectorSize + offset) := by
  have length := sound.length
  have size : MaxFileSize = 3840 := rfl
  have sector : SectorSize = 128 := rfl
  subst start
  have sum : wrap ((p : Int) + n) = p + n := wrap_eq (by omega) (by omega)
  -- The sector the request begins in, once it has been read in.
  obtain ⟨one,readFirst,head⟩ : ∃ data,
      hdr.readAt disk fresh SectorSize (((p / SectorSize : Nat) : Int) * SectorSize) = some data ∧
      ∀ offset, offset < SectorSize → ((p / SectorSize * SectorSize + offset : Nat) : Int) < hdr.fileLength →
        put fresh 0 data offset = hdr.byteAt disk (p / SectorSize * SectorSize + offset) := by
    refine ⟨_,readAt_sector sound disk fresh (by simp only [SectorSize]; omega),?_⟩
    intro offset bound file
    rw [put_sector (i := offset)]
    · simp only [SectorSize] at *
      omega
    · omega
  -- The same for the sector it ends in.
  obtain ⟨two,readLast,tail⟩ : ∃ data,
      hdr.readAt disk fresh SectorSize ((((p + n - 1) / SectorSize : Nat) : Int) * SectorSize) = some data ∧
      ∀ (buf : Bytes) (offset : Nat), offset < ((p + n - 1) / SectorSize + 1 - p / SectorSize) * SectorSize →
        p % SectorSize + n ≤ offset → ((p / SectorSize * SectorSize + offset : Nat) : Int) < hdr.fileLength →
        put buf (((p + n - 1) / SectorSize - p / SectorSize) * SectorSize) data offset =
          hdr.byteAt disk (p / SectorSize * SectorSize + offset) := by
    refine ⟨_,readAt_sector sound disk fresh (by simp only [SectorSize]; omega),?_⟩
    intro buf offset bound rest file
    rw [put_sector (i := offset - ((p + n - 1) / SectorSize - p / SectorSize) * SectorSize)]
    · rw [show (p + n - 1) / SectorSize * SectorSize + (offset - ((p + n - 1) / SectorSize - p / SectorSize) * SectorSize) =
        p / SectorSize * SectorSize + offset by simp only [SectorSize] at *; omega]
    · simp only [SectorSize] at *
      omega
    · simp only [SectorSize] at *
      omega
  have distance : ((((p + n - 1) / SectorSize : Nat) : Int) - ((p / SectorSize : Nat) : Int)) * SectorSize =
      (((p + n - 1) / SectorSize - p / SectorSize) * SectorSize : Nat) := by
    simp only [SectorSize]
    omega
  have firstAligned : decide ((p : Int) = ((p / SectorSize : Nat) : Int) * SectorSize) = decide (p % SectorSize = 0) := by
    rw [decide_eq_decide]
    simp only [SectorSize]
    omega
  have lastAligned : decide ((p : Int) + n = ((((p + n - 1) / SectorSize : Nat) : Int) + 1) * SectorSize) =
      decide ((p + n) % SectorSize = 0) := by
    rw [decide_eq_decide]
    simp only [SectorSize]
    omega
  have several : decide (((p / SectorSize : Nat) : Int) ≠ (((p + n - 1) / SectorSize : Nat) : Int)) =
      decide (p / SectorSize ≠ (p + n - 1) / SectorSize) := by
    rw [decide_eq_decide]
    omega
  unfold partialSectors
  simp only [first,last,sum,readFirst,readLast,distance,Int.toNat_natCast,Option.map_some,firstAligned,lastAligned,several]
  by_cases begin_ : p % SectorSize = 0
  · by_cases end_ : (p + n) % SectorSize = 0
    · refine ⟨fresh,by simp [begin_,end_],?_⟩
      intro offset bound rest file
      simp only [SectorSize] at *
      omega
    · refine ⟨put fresh (((p + n - 1) / SectorSize - p / SectorSize) * SectorSize) two,by simp [begin_,end_],?_⟩
      intro offset bound rest file
      exact tail fresh offset bound (by omega) file
  · by_cases second : ¬(p + n) % SectorSize = 0 ∧ p / SectorSize ≠ (p + n - 1) / SectorSize
    · refine ⟨put (put fresh 0 one) (((p + n - 1) / SectorSize - p / SectorSize) * SectorSize) two,
        by simp [begin_,second],?_⟩
      intro offset bound rest file
      rcases rest with before | behind
      · rw [put_outside]
        · exact head offset (by simp only [SectorSize] at *; omega) file
        · left
          simp only [SectorSize] at *
          omega
      · exact tail _ offset bound behind file
    · have skips : (!decide ((p + n) % SectorSize = 0) &&
          (decide (p / SectorSize ≠ (p + n - 1) / SectorSize) || decide (p % SectorSize = 0))) = false := by
        rcases not_and_or.mp second with whole | alone
        · simp [not_not.mp whole]
        · simp [not_not.mp alone,begin_]
      refine ⟨put fresh 0 one,by simp only [skips]; simp [begin_],?_⟩
      intro offset bound rest file
      exact head offset (by simp only [SectorSize] at *; omega) file

theorem address_sector (hdr : FileHeader) (i : Nat) : hdr.address i / SectorSize = (hdr.dataSectors (i / SectorSize)).toNat := by
  unfold address
  simp only [SectorSize]
  omega

-- What is left of a disk by a write of n bytes at p.
structure Written (hdr : FileHeader) (disk after : Disk) (from_ : Bytes) (p n : Nat) : Prop where
  outside : ∀ address, address / SectorSize ∉ hdr.sectors → after address = disk address
  bytes : ∀ i : Nat, (i : Int) < hdr.fileLength →
    hdr.byteAt after i = if p ≤ i ∧ i < p + n then from_ (i - p) else hdr.byteAt disk i

theorem writeAt_spec (sound : hdr.Sound) (disk : Disk) (fresh from_ : Bytes) (low : 0 ≤ position)
    (high : position + numBytes < 2 ^ 31) :
    ∃ after, hdr.writeAt disk fresh from_ numBytes position = some ((hdr.count numBytes position : Int),after) ∧
      Written hdr disk after from_ position.toNat (hdr.count numBytes position) := by
  by_cases asked : numBytes ≤ 0 ∨ position ≥ hdr.fileLength
  · have nothing : hdr.count numBytes position = 0 := if_pos asked
    refine ⟨disk,by simp [writeAt,asked,nothing],fun _ _ => rfl,?_⟩
    intro i _
    rw [nothing,if_neg (by omega)]
  · obtain ⟨start,some_,inside,_,clipped,first,last⟩ := sound.request low high asked
    generalize hdr.count numBytes position = n at *
    generalize position.toNat = p at *
    obtain ⟨buf,ready,kept⟩ := partialSectors_spec sound disk fresh p n some_ inside first last start
    subst start
    have covered := sound.covers (i := p + n - 1) (by omega)
    have number : (1 + (((p + n - 1) / SectorSize : Nat) : Int) - ((p / SectorSize : Nat) : Int)).toNat =
        (p + n - 1) / SectorSize + 1 - p / SectorSize := by
      simp only [SectorSize]
      omega
    have start : ((p : Int) - ((p / SectorSize : Nat) : Int) * SectorSize).toNat = p % SectorSize := by
      simp only [SectorSize]
      omega
    obtain ⟨after,ran,rest,bytes⟩ := writeSectors_spec sound disk (p / SectorSize) 0
      ((p + n - 1) / SectorSize + 1 - p / SectorSize) (by simp only [SectorSize] at *; omega)
      (put buf (p % SectorSize) (take from_ 0 n))
    refine ⟨after,?_,?_,?_⟩
    · unfold writeAt
      simp only [asked,if_false,clipped,first,last,number,ready,start,Option.bind_eq_bind,Option.bind_some]
      rw [if_pos (by simp only [SectorSize]; omega),Int.toNat_natCast,ran]
      rfl
    · intro address outside
      refine rest address ?_
      intro j _ high' same
      rw [same] at outside
      exact outside (sector_mem (by simp only [SectorSize] at *; omega))
    · intro i file
      by_cases touched : p / SectorSize ≤ i / SectorSize ∧ i / SectorSize ≤ (p + n - 1) / SectorSize
      · have split : i = p / SectorSize * SectorSize + (i - p / SectorSize * SectorSize) := by
          simp only [SectorSize] at *
          omega
        have written := bytes (i - p / SectorSize * SectorSize) (by simp only [SectorSize] at *; omega)
          (by simp only [SectorSize] at *; omega)
        rw [← split] at written
        rw [written]
        by_cases mine : p ≤ i ∧ i < p + n
        · rw [if_pos mine,put_sector (i := i - p) _ _ _ _ (by omega) (by simp only [SectorSize]; omega),Nat.zero_add]
        · have same := kept (i - p / SectorSize * SectorSize) (by simp only [SectorSize] at *; omega)
            (by simp only [SectorSize] at *; omega) (by rw [← split]; exact file)
          rw [← split] at same
          rw [if_neg mine,put_outside,same]
          simp only [take_length,SectorSize] at *
          omega
      · rw [if_neg (by simp only [SectorSize] at *; omega)]
        refine rest _ ?_
        intro j _ high' same
        rw [address_sector] at same
        have equal := sound.sector_inj (sound.covers file) (by simp only [SectorSize] at *; omega) same
        simp only [SectorSize] at *
        omega

-- The header in a sector of the disk.
def headerAt (bigEndian : Bool) (disk : Disk) (sector : Nat) : FileHeader :=
  ofBytes bigEndian fun offset => disk (sector * SectorSize + offset)

theorem fetchFrom_nat (bigEndian : Bool) (disk : Disk) (inside : sector < NumSectors) :
    fetchFrom bigEndian disk (sector : Int) = some (headerAt bigEndian disk sector) := by
  simp only [fetchFrom,readSector_nat disk inside,Option.bind_eq_bind,Option.bind_some]
  rfl

theorem headerAt_congr (bigEndian : Bool) (same : ∀ address, address / SectorSize = sector → after address = disk address) :
    headerAt bigEndian after sector = headerAt bigEndian disk sector := by
  have int : ∀ place, place + 4 ≤ SectorSize →
      intAt bigEndian (fun offset => after (sector * SectorSize + offset)) place =
        intAt bigEndian (fun offset => disk (sector * SectorSize + offset)) place := by
    intro place inside
    refine intAt_congr bigEndian ?_
    intro j small
    refine same _ ?_
    simp only [SectorSize] at *
    omega
  unfold headerAt ofBytes
  rw [int 0 (by decide),int 4 (by decide)]
  congr 1
  funext i
  split
  · rename_i inside
    refine int _ ?_
    simp only [NumDirect,SectorSize] at *
    omega
  · rfl

-- Nothing is kept behind the table.
def Tidy (hdr : FileHeader) : Prop := ∀ i, NumDirect ≤ i → hdr.dataSectors i = 0

theorem ofBytes_tidy (bigEndian : Bool) (bytes : Bytes) : (ofBytes bigEndian bytes).Tidy := by
  intro i behind
  exact if_neg (by omega)

theorem writeBack_spec (tidy : hdr.Tidy) (bigEndian : Bool) (disk : Disk) (inside : sector < NumSectors) :
    ∃ after, hdr.writeBack bigEndian disk (sector : Int) = some after ∧
      (∀ address, address / SectorSize ≠ sector → after address = disk address) ∧
      headerAt bigEndian after sector = hdr := by
  refine ⟨_,writeSector_nat disk _ inside,fun address differs => if_neg differs,?_⟩
  have int : ∀ k, 4 * k + 4 ≤ SectorSize → intAt bigEndian (fun offset =>
      if (sector * SectorSize + offset) / SectorSize = sector then
        ofInts bigEndian hdr.ints ((sector * SectorSize + offset) % SectorSize)
      else disk (sector * SectorSize + offset)) (4 * k) = hdr.ints k := by
    intro k bound
    rw [← intAt_ofInts bigEndian hdr.ints k]
    refine intAt_congr bigEndian ?_
    intro j small
    have here : (sector * SectorSize + (4 * k + j)) / SectorSize = sector := by
      simp only [SectorSize] at *
      omega
    have place : (sector * SectorSize + (4 * k + j)) % SectorSize = 4 * k + j := by
      simp only [SectorSize] at *
      omega
    rw [if_pos here,place]
  unfold headerAt ofBytes
  obtain ⟨numBytes,numSectors,dataSectors⟩ := hdr
  rw [FileHeader.mk.injEq]
  refine ⟨int 0 (by decide),int 1 (by decide),?_⟩
  funext i
  split
  · rename_i here
    have found := int (i + 2) (by simp only [NumDirect,SectorSize] at *; omega)
    rw [show 4 * (i + 2) = 8 + 4 * i by omega] at found
    exact found
  · rename_i behind
    exact (tidy i (by omega)).symm

-- A file is what it was if its sectors are.
theorem byteAt_congr (sound : hdr.Sound) (same : ∀ address, address / SectorSize ∈ hdr.sectors → after address = disk address)
    (inside : (i : Int) < hdr.fileLength) : hdr.byteAt after i = hdr.byteAt disk i := by
  refine same _ ?_
  rw [address_sector]
  exact sector_mem (sound.covers inside)

end FileHeader
end Nachos.FileSys
