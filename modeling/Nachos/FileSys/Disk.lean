import Nachos.BitMap
import Nachos.Mips.Bytes

-- The disk below the file system: sectors of bytes, as SynchDisk gives them. An int
-- of the host is 32 bits wide; `none` stands for a failed ASSERT, or an access
-- outside an object.
namespace Nachos.FileSys
open Mips (nativeWord wordBytes nativeWord_wordBytes)

def SectorSize : Nat := 128
def NumSectors : Nat := 1024
def BitsInByte : Nat := 8

abbrev Bytes := Nat → BitVec 8

-- The bytes of the whole disk, one sector after the other.
abbrev Disk := Nat → BitVec 8

-- What the result of int arithmetic is kept as.
def wrap (value : Int) : Int := value.bmod (2 ^ 32)

-- One step of a do block.
theorem bind_of_some {α β : Type} {x : Option α} {a : α} {f : α → Option β} {r : Option β} (done : x = some a)
    (rest : f a = r) : (x >>= f) = r := by
  rw [done]
  exact rest

theorem wrap_eq (low : -2 ^ 31 ≤ value) (high : value < 2 ^ 31) : wrap value = value :=
  Int.bmod_eq_of_le (by omega) (by omega)

def onDisk (sector : Int) : Bool := decide (0 ≤ sector ∧ sector < NumSectors)

def readSector (disk : Disk) (sector : Int) : Option Bytes :=
  if onDisk sector then some fun offset => disk (sector.toNat * SectorSize + offset) else none

def writeSector (disk : Disk) (sector : Int) (data : Bytes) : Option Disk :=
  if onDisk sector then
    some fun address => if address / SectorSize = sector.toNat then data (address % SectorSize) else disk address
  else none

-- Part of a buffer replaced.
def put (buf : Bytes) (start : Nat) (data : List (BitVec 8)) : Bytes :=
  fun offset => if start ≤ offset then data.getD (offset - start) (buf offset) else buf offset

def take (buf : Bytes) (start count : Nat) : List (BitVec 8) := (List.range count).map fun i => buf (start + i)

theorem put_inside (buf : Bytes) (data : List (BitVec 8)) (inside : i < data.length) :
    put buf start data (start + i) = data.getD i 0 := by
  simp [put,inside]

theorem put_first (buf : Bytes) (start : Nat) (byte : BitVec 8) : put buf start [byte] start = byte := by
  simp [put]

theorem put_zero (buf : Bytes) (data : List (BitVec 8)) (inside : i < data.length) : put buf 0 data i = data.getD i 0 := by
  simp [put,inside]

theorem put_outside (buf : Bytes) (data : List (BitVec 8)) (outside : i < start ∨ start + data.length ≤ i) :
    put buf start data i = buf i := by
  unfold put
  split
  · rw [List.getD_eq_getElem?_getD,List.getElem?_eq_none (by omega)]
    rfl
  · rfl

@[simp] theorem take_length (buf : Bytes) (start count : Nat) : (take buf start count).length = count := by
  simp [take]

theorem take_getD (buf : Bytes) (default : BitVec 8) (inside : i < count) :
    (take buf start count).getD i default = buf (start + i) := by
  simp [take,inside]

-- Ints in memory, in the byte order of the host.
section
variable (bigEndian : Bool)

def intAt (bytes : Bytes) (offset : Nat) : BitVec 32 :=
  nativeWord bigEndian (bytes offset) (bytes (offset + 1)) (bytes (offset + 2)) (bytes (offset + 3))

def ofInts (ints : Nat → BitVec 32) : Bytes := fun offset => (wordBytes bigEndian (ints (offset / 4))).getD (offset % 4) 0

theorem intAt_ofInts (ints : Nat → BitVec 32) (k : Nat) : intAt bigEndian (ofInts bigEndian ints) (4 * k) = ints k := by
  have place : ∀ j < 4, ofInts bigEndian ints (4 * k + j) = (wordBytes bigEndian (ints k)).getD j 0 := by
    intro j small
    simp only [ofInts,show (4 * k + j) / 4 = k by omega,show (4 * k + j) % 4 = j by omega]
  unfold intAt
  rw [show ofInts bigEndian ints (4 * k) = _ from place 0 (by decide),place 1 (by decide),place 2 (by decide),
    place 3 (by decide),nativeWord_wordBytes]

-- An int depends on its four bytes only.
theorem intAt_congr (same : ∀ j < 4, bytes (offset + j) = bytes' (offset + j)) :
    intAt bigEndian bytes offset = intAt bigEndian bytes' offset := by
  unfold intAt
  rw [same 1 (by decide),same 2 (by decide),same 3 (by decide),show bytes offset = bytes' offset from same 0 (by decide)]

end

section
variable {disk after : Disk} {sector : Nat} {data : Bytes}

theorem onDisk_nat (inside : sector < NumSectors) : onDisk (sector : Int) = true := by
  simp [onDisk,inside]

theorem readSector_nat (disk : Disk) (inside : sector < NumSectors) :
    readSector disk (sector : Int) = some fun offset => disk (sector * SectorSize + offset) := by
  simp [readSector,onDisk_nat inside]

theorem writeSector_nat (disk : Disk) (data : Bytes) (inside : sector < NumSectors) :
    writeSector disk (sector : Int) data =
      some fun address => if address / SectorSize = sector then data (address % SectorSize) else disk address := by
  simp [writeSector,onDisk_nat inside]

end
end Nachos.FileSys
