import Nachos.FileSys.FreeMap
import Nachos.Library.Allotment

-- The file system of filesys.cc. The two files it keeps open are given by their
-- headers; the n-th block of memory a call allocates holds `fresh n`.
namespace Nachos.FileSys
open Allotment

def FreeMapSector : Nat := 0
def DirectorySector : Nat := 1
def FreeMapFileSize : Nat := NumSectors / BitsInByte
def NumDirEntries : Nat := 10
def DirectoryFileSize : Nat := EntrySize * NumDirEntries

structure FileSystem where
  freeMapFile : FileHeader
  directoryFile : FileHeader

-- new BitMap(NumSectors)
def newMap (bigEndian : Bool) (fresh : Bytes) : Option BitMap :=
  BitMap.new NumSectors ((List.range (divRoundUp NumSectors BitsInWord)).map fun k => intAt bigEndian fresh (4 * k)) (by simp)

section
variable (bigEndian : Bool)

-- FileSystem(TRUE)
def format (disk : Disk) (fresh : Nat → Bytes) : Option (FileSystem × Disk) := do
  let freeMap ← newMap bigEndian (fresh 0)
  let directory := Directory.new (fresh 1) NumDirEntries
  let mapHdr := FileHeader.ofBytes bigEndian (fresh 2)
  let dirHdr := FileHeader.ofBytes bigEndian (fresh 3)
  let freeMap ← freeMap.mark FreeMapSector
  let freeMap ← freeMap.mark DirectorySector
  let (allocated,mapHdr,freeMap) ← mapHdr.allocate freeMap (BitVec.ofNat 32 FreeMapFileSize)
  if !allocated then none
  else
    let (allocated,dirHdr,freeMap) ← dirHdr.allocate freeMap (BitVec.ofNat 32 DirectoryFileSize)
    if !allocated then none
    else
      let disk ← mapHdr.writeBack bigEndian disk FreeMapSector
      let disk ← dirHdr.writeBack bigEndian disk DirectorySector
      let freeMapFile ← FileHeader.fetchFrom bigEndian disk FreeMapSector
      let directoryFile ← FileHeader.fetchFrom bigEndian disk DirectorySector
      let disk ← freeMap.writeBack bigEndian freeMapFile disk (fresh 4)
      let disk ← directory.writeBack directoryFile disk (fresh 5)
      some (⟨freeMapFile,directoryFile⟩,disk)

namespace FileSystem

def create (fs : FileSystem) (disk : Disk) (fresh : Nat → Bytes) (name : Bytes) (initialSize : BitVec 32) :
    Option (Bool × Disk) := do
  let directory ← (Directory.new (fresh 0) NumDirEntries).fetchFrom fs.directoryFile disk (fresh 1)
  if directory.find bigEndian name ≠ -1 then some (false,disk)
  else
    let freeMap ← newMap bigEndian (fresh 2)
    let freeMap ← freeMap.fetchFrom bigEndian fs.freeMapFile disk (fresh 3)
    let (freeMap,sector) ← freeMap.find
    if sector = -1 then some (false,disk)
    else
      match directory.add bigEndian name (BitVec.ofInt 32 sector) with
      | none => some (false,disk)
      | some directory => do
        let (allocated,hdr,freeMap) ← (FileHeader.ofBytes bigEndian (fresh 4)).allocate freeMap initialSize
        if !allocated then some (false,disk)
        else
          let disk ← hdr.writeBack bigEndian disk sector
          let disk ← directory.writeBack fs.directoryFile disk (fresh 5)
          let disk ← freeMap.writeBack bigEndian fs.freeMapFile disk (fresh 6)
          some (true,disk)

-- The header of the opened file; `some none` is NULL.
def open_ (fs : FileSystem) (disk : Disk) (fresh : Nat → Bytes) (name : Bytes) : Option (Option FileHeader) := do
  let directory ← (Directory.new (fresh 0) NumDirEntries).fetchFrom fs.directoryFile disk (fresh 1)
  let sector := directory.find bigEndian name
  if sector ≥ 0 then
    let hdr ← FileHeader.fetchFrom bigEndian disk sector
    some (some hdr)
  else some none

def remove (fs : FileSystem) (disk : Disk) (fresh : Nat → Bytes) (name : Bytes) : Option (Bool × Disk) := do
  let directory ← (Directory.new (fresh 0) NumDirEntries).fetchFrom fs.directoryFile disk (fresh 1)
  let sector := directory.find bigEndian name
  if sector = -1 then some (false,disk)
  else
    let fileHdr ← FileHeader.fetchFrom bigEndian disk sector
    let freeMap ← newMap bigEndian (fresh 2)
    let freeMap ← freeMap.fetchFrom bigEndian fs.freeMapFile disk (fresh 3)
    let freeMap ← fileHdr.deallocate freeMap
    let freeMap ← freeMap.clear sector
    let directory := (directory.remove name).getD directory
    let disk ← freeMap.writeBack bigEndian fs.freeMapFile disk (fresh 4)
    let disk ← directory.writeBack fs.directoryFile disk (fresh 5)
    some (true,disk)

-- What the disk holds.
def directory (fs : FileSystem) (disk : Disk) : Directory :=
  ⟨NumDirEntries,fun offset => if offset < DirectoryFileSize then fs.directoryFile.byteAt disk offset else 0⟩

def freeMap (fs : FileSystem) (disk : Disk) : BitMap := BitMap.ofBytes bigEndian NumSectors (fs.freeMapFile.byteAt disk)

def headerSector (fs : FileSystem) (disk : Disk) (i : Nat) : Nat := ((fs.directory disk).sector bigEndian i).toNat

def header (fs : FileSystem) (disk : Disk) (i : Nat) : FileHeader :=
  .headerAt bigEndian disk (fs.headerSector bigEndian disk i)

-- The sectors of the system and of each entry of the directory.
def held (fs : FileSystem) (disk : Disk) : Option Nat → List Nat
  | none => FreeMapSector :: DirectorySector :: (fs.freeMapFile.sectors ++ fs.directoryFile.sectors)
  | some i =>
    if i < NumDirEntries ∧ (fs.directory disk).inUse i = true then
      fs.headerSector bigEndian disk i :: (fs.header bigEndian disk i).sectors
    else []

-- The two files that stay open.
structure Mounted (fs : FileSystem) : Prop where
  mapSound : fs.freeMapFile.Sound
  mapLength : fs.freeMapFile.fileLength = FreeMapFileSize
  directorySound : fs.directoryFile.Sound
  directoryLength : fs.directoryFile.fileLength = DirectoryFileSize

structure Layout (fs : FileSystem) (disk : Disk) : Prop where
  mounted : fs.Mounted
  mapHeader : FileHeader.headerAt bigEndian disk FreeMapSector = fs.freeMapFile
  directoryHeader : FileHeader.headerAt bigEndian disk DirectorySector = fs.directoryFile
  headers : ∀ i < NumDirEntries, (fs.directory disk).inUse i = true → (fs.header bigEndian disk i).Sound
  allotted : Allotted (fs.held bigEndian disk) {s | s ∈ (fs.freeMap bigEndian disk).clearBits} {s | s < NumSectors}
  names : ∀ i < NumDirEntries, ∀ j < NumDirEntries, (fs.directory disk).inUse i = true →
    (fs.directory disk).inUse j = true → (fs.directory disk).key i = (fs.directory disk).key j → i = j

end FileSystem
end

section
variable {bigEndian : Bool} {fs : FileSystem} {disk after : Disk} {fresh : Bytes}

-- Reading and writing a whole file from its beginning.
theorem readAt_whole {file : FileHeader} (sound : file.Sound) (length : file.fileLength = (n : Nat)) (disk : Disk)
    (fresh : Bytes) :
    file.readAt disk fresh n 0 = some (take (file.byteAt disk) 0 n) := by
  have bound := sound.length
  have size : MaxFileSize = 3840 := rfl
  rw [FileHeader.readAt_spec sound (by omega) (by omega)]
  have amount : file.count n 0 = n := by
    unfold FileHeader.count
    split
    · omega
    · omega
  rw [amount]
  rfl

theorem writeAt_whole {file : FileHeader} (sound : file.Sound) (length : file.fileLength = (n : Nat)) (disk : Disk)
    (fresh from_ : Bytes) :
    ∃ after, file.writeAt disk fresh from_ n 0 = some ((n : Int),after) ∧
      (∀ address, address / SectorSize ∉ file.sectors → after address = disk address) ∧
      ∀ i < n, file.byteAt after i = from_ i := by
  have bound := sound.length
  have size : MaxFileSize = 3840 := rfl
  obtain ⟨after,ran,written⟩ := FileHeader.writeAt_spec sound disk fresh from_ (show (0 : Int) ≤ 0 by omega)
    (show (0 : Int) + n < 2 ^ 31 by omega)
  have amount : file.count n 0 = n := by
    unfold FileHeader.count
    split
    · omega
    · omega
  rw [amount] at ran written
  refine ⟨after,ran,written.outside,?_⟩
  intro i inside
  rw [written.bytes i (by omega),if_pos (by omega)]
  rfl

namespace FileSystem

theorem fetchDirectory (mounted : fs.Mounted) (disk : Disk) (memory fresh : Bytes) :
    (Directory.new memory NumDirEntries).fetchFrom fs.directoryFile disk fresh = some (fs.directory disk) := by
  have read := readAt_whole mounted.directorySound mounted.directoryLength disk fresh
  have size : ((Directory.new memory NumDirEntries).tableSize * EntrySize : Nat) = DirectoryFileSize := rfl
  unfold Directory.fetchFrom
  rw [size,read]
  simp only [Option.bind_eq_bind,Option.bind_some,directory,Option.some.injEq,Directory.mk.injEq]
  refine ⟨rfl,?_⟩
  funext offset
  split
  · rename_i inside
    rw [put_zero _ _ (by simpa using inside),take_getD _ _ inside,Nat.zero_add]
  · rename_i outside
    rw [put_outside _ _ (.inr (by rw [take_length]; omega))]
    refine if_neg ?_
    rintro ⟨inside,_⟩
    exact outside inside

theorem fetchMap (bigEndian : Bool) (mounted : fs.Mounted) (disk : Disk) (memory fresh : Bytes) :
    ∃ empty, newMap bigEndian memory = some empty ∧
      empty.fetchFrom bigEndian fs.freeMapFile disk fresh = some (fs.freeMap bigEndian disk) := by
  obtain ⟨empty,made,size,_⟩ := BitMap.new_empty NumSectors
    ((List.range (divRoundUp NumSectors BitsInWord)).map fun k => intAt bigEndian memory (4 * k)) (by simp)
  refine ⟨empty,made,?_⟩
  have read := readAt_whole mounted.mapSound mounted.mapLength disk fresh
  have bytes : divRoundUp NumSectors BitsInWord * 4 = FreeMapFileSize := by decide
  unfold BitMap.fetchFrom
  rw [size,bytes,read]
  simp only [Option.bind_eq_bind,Option.bind_some,freeMap,BitMap.ofBytes,Option.some.injEq,BitMap.mk.injEq,true_and]
  refine List.map_congr_left ?_
  intro k member
  have small := List.mem_range.mp member
  refine intAt_congr bigEndian ?_
  intro j few
  have inside : 4 * k + j < FreeMapFileSize := by omega
  rw [put_zero _ _ (by simpa using inside),take_getD _ _ inside,Nat.zero_add]

-- Nothing is kept behind the table.
theorem directory_tidy (fs : FileSystem) (disk : Disk) (offset : Nat) (outside : DirectoryFileSize ≤ offset) :
    (fs.directory disk).table offset = 0 := if_neg (by omega)

theorem writeDirectory (mounted : fs.Mounted) (directory : Directory) (size : directory.tableSize = NumDirEntries)
    (tidy : ∀ offset, DirectoryFileSize ≤ offset → directory.table offset = 0) (disk : Disk) (fresh : Bytes) :
    ∃ after, directory.writeBack fs.directoryFile disk fresh = some after ∧
      (∀ address, address / SectorSize ∉ fs.directoryFile.sectors → after address = disk address) ∧
      fs.directory after = directory := by
  obtain ⟨after,ran,outside,bytes⟩ :=
    writeAt_whole mounted.directorySound mounted.directoryLength disk fresh directory.table
  have whole : (directory.tableSize * EntrySize : Nat) = DirectoryFileSize := by
    rw [size]
    rfl
  refine ⟨after,?_,outside,?_⟩
  · unfold Directory.writeBack
    rw [whole,ran]
    rfl
  · obtain ⟨tableSize,table⟩ := directory
    subst size
    unfold FileSystem.directory
    rw [Directory.mk.injEq]
    refine ⟨rfl,?_⟩
    funext offset
    split
    · rename_i inside
      exact bytes offset inside
    · rename_i behind
      exact (tidy offset (by omega)).symm

theorem writeMap (bigEndian : Bool) (mounted : fs.Mounted) (freeMap : BitMap) (size : freeMap.numBits = NumSectors) (disk : Disk)
    (fresh : Bytes) :
    ∃ after, freeMap.writeBack bigEndian fs.freeMapFile disk fresh = some after ∧
      (∀ address, address / SectorSize ∉ fs.freeMapFile.sectors → after address = disk address) ∧
      fs.freeMap bigEndian after = freeMap := by
  obtain ⟨after,ran,outside,bytes⟩ :=
    writeAt_whole mounted.mapSound mounted.mapLength disk fresh (ofInts bigEndian freeMap.ints)
  have whole : divRoundUp freeMap.numBits BitsInWord * 4 = FreeMapFileSize := by
    rw [size]
    decide
  refine ⟨after,?_,outside,?_⟩
  · unfold BitMap.writeBack
    rw [whole,ran]
    rfl
  · have words := freeMap.sized
    have count : divRoundUp freeMap.numBits BitsInWord = divRoundUp NumSectors BitsInWord := by rw [size]
    obtain ⟨numBits,map,sized⟩ := freeMap
    subst size
    unfold FileSystem.freeMap BitMap.ofBytes
    rw [BitMap.mk.injEq]
    refine ⟨rfl,?_⟩
    refine List.ext_getElem (by simpa using words.symm) ?_
    intro k one two
    rw [List.getElem_map,List.getElem_range]
    have inside : 4 * k + 4 ≤ FreeMapFileSize := by
      dsimp only at words
      omega
    have value : intAt bigEndian (fs.freeMapFile.byteAt after) (4 * k) = map.getD k 0 := by
      rw [← intAt_ofInts bigEndian (fun k => map.getD k 0) k]
      refine intAt_congr bigEndian ?_
      intro j few
      exact bytes _ (by omega)
    rw [value,List.getD_eq_getElem?_getD,List.getElem?_eq_getElem two]
    rfl

end FileSystem
end
end Nachos.FileSys
