import Nachos.FileSys.Sectors

-- Which files Create refuses, and what becomes of the others.
namespace Nachos.FileSys
open FileSystem

-- The condition of the statement: present, no sector for the header, a full directory, or
-- too few sectors left.
def FileSystem.Refusing (bigEndian : Bool) (fs : FileSystem) (disk : Disk) (name : Bytes) (initialSize : BitVec 32) : Prop :=
  (∃ i < NumDirEntries, (fs.directory disk).inUse i = true ∧ (fs.directory disk).key i = chars FileNameMaxLen name) ∨
  (∀ sector < NumSectors, (fs.freeMap bigEndian disk).bit sector = true) ∨
  (∀ i < NumDirEntries, (fs.directory disk).inUse i = true) ∨
  ((fs.freeMap bigEndian disk).clearBits.card : Int) - 1 < ⌈(initialSize.toInt : ℚ) / SectorSize⌉

section
variable {bigEndian : Bool} {fs : FileSystem} {disk : Disk} {name : Bytes} {initialSize : BitVec 32}

theorem refusing_iff : fs.Refusing bigEndian disk name initialSize ↔ ¬fs.Room bigEndian disk name initialSize := by
  constructor
  · rintro (⟨i,inside,used,key⟩ | full | full | few) room
    · exact Directory.findIndex_none room.absent inside used key
    · obtain ⟨sector,member⟩ := Finset.card_pos.mp room.header
      obtain ⟨inside,clear⟩ := BitMap.mem_clearBits.mp member
      rw [full sector inside] at clear
      cases clear
    · obtain ⟨e,inside,free⟩ := room.slot
      rw [full e inside] at free
      cases free
    · have data := room.data
      rw [divRoundUpInt_ceil] at data
      omega
  · intro none
    by_contra refusing
    simp only [Refusing,not_or] at refusing
    obtain ⟨absent,header,slot,data⟩ := refusing
    refine none ⟨?_,?_,?_,?_⟩
    · cases found : (fs.directory disk).findIndex name with
      | none => rfl
      | some i =>
        obtain ⟨inside,used,key⟩ := Directory.findIndex_some found
        exact absurd ⟨i,inside,used,key⟩ absent
    · push Not at slot
      obtain ⟨e,inside,free⟩ := slot
      exact ⟨e,inside,by simpa using free⟩
    · push Not at header
      obtain ⟨sector,inside,clear⟩ := header
      exact Finset.card_pos.mpr ⟨sector,BitMap.mem_clearBits.mpr ⟨inside,by simpa using clear⟩⟩
    · rw [divRoundUpInt_ceil]
      omega

theorem failed_create_keeps (layout : fs.Layout bigEndian disk) (fresh : Nat → Bytes) (name : Bytes)
    (length : initialSize.toInt ≤ MaxFileSize) :
    ∃ success after, fs.create bigEndian disk fresh name initialSize = some (success,after) ∧
      (success = false → after = disk) ∧ (success = false ↔ fs.Refusing bigEndian disk name initialSize) := by
  rw [refusing_iff]
  by_cases room : fs.Room bigEndian disk name initialSize
  · obtain ⟨after,_,_,_,_,created,_⟩ := layout.create_makes fresh length room
    exact ⟨true,after,created,fun failed => Bool.noConfusion failed,fun failed => Bool.noConfusion failed,
      fun refused => absurd room refused⟩
  · exact ⟨false,disk,create_refuses layout.mounted fresh room,fun _ => rfl,fun _ => room,fun _ => rfl⟩

end

-- The second Create of a name is refused.
theorem failed_create_keeps_again : ∃ (fs : FileSystem) (disk : Disk), fs.Layout false disk ∧
    fs.create false disk (fun _ => zeros) (letter 97) 128 = some (false,disk) ∧ fs.Refusing false disk (letter 97) 128 := by
  obtain ⟨fs,disk,_,formatted⟩ := format_spec false zeros fun _ => zeros
  have small : (128 : BitVec 32).toInt ≤ MaxFileSize := by decide
  obtain ⟨one,e,_,_,_,_,enters,_⟩ := formatted.layout.create_makes (fun _ => zeros) small
    (room_empty formatted.unused formatted.card (letter 97))
  obtain ⟨inside,used,key⟩ := Directory.findIndex_some (enters.find_new formatted.layout)
  have refusing : fs.Refusing false one (letter 97) 128 := .inl ⟨e,inside,used,key⟩
  obtain ⟨success,after,created,kept,exact_⟩ := failed_create_keeps (enters.layout formatted.layout)
    (fun _ => zeros) (letter 97) small
  obtain rfl := exact_.mpr refusing
  rw [kept rfl] at created
  exact ⟨fs,one,enters.layout formatted.layout,created,refusing⟩

-- The header has a place for every sector that was taken.
def Recorded (freeMap rest : BitMap) (hdr : FileHeader) : Prop :=
  hdr.numSectors.toInt ≤ NumDirect ∧ ∀ sector, (sector ∈ freeMap.clearBits ∧ sector ∉ rest.clearBits) ↔
    ∃ i < NumDirect, (i : Int) < hdr.numSectors.toInt ∧ (hdr.dataSectors i).toNat = sector

-- Allocate ends without a write behind the header, what it takes is recorded, and it
-- refuses what is longer than a file may be, leaving the map as it was.
def AllocateFits (hdr : FileHeader) (freeMap : BitMap) (fileSize : BitVec 32) : Prop :=
  ∃ success after rest, hdr.allocate freeMap fileSize = some (success,after,rest) ∧
    (success = true → Recorded freeMap rest after) ∧
    ((MaxFileSize : Int) < fileSize.toInt → success = false ∧ rest = freeMap)

-- The same of Create.
def CreateFits (bigEndian : Bool) (fs : FileSystem) (disk : Disk) (fresh : Nat → Bytes) (name : Bytes)
    (initialSize : BitVec 32) : Prop :=
  ∃ success after, fs.create bigEndian disk fresh name initialSize = some (success,after) ∧
    (success = true → initialSize.toInt ≤ MaxFileSize ∧ ∃ first marked hdr rest,
      (fs.freeMap bigEndian disk).find = some (marked,first) ∧
      (FileHeader.ofBytes bigEndian (fresh 4)).allocate marked initialSize = some (true,hdr,rest) ∧
      Recorded marked rest hdr)

section
variable {bigEndian : Bool} {fs : FileSystem} {disk : Disk} {name : Bytes} {initialSize fileSize : BitVec 32}
  {hdr after : FileHeader} {freeMap rest : BitMap} {i left : Nat}

-- The loop runs off the end of the table.
theorem allocateFrom_astray (hdr : FileHeader) (freeMap : BitMap) (inside : i ≤ NumDirect) (beyond : NumDirect < i + left)
    (enough : left ≤ freeMap.clearBits.card) : hdr.allocateFrom freeMap i left = none := by
  induction left generalizing hdr freeMap i with
  | zero => omega
  | succ left ih =>
    obtain ⟨first,found,member,erased⟩ := BitMap.find_clear freeMap (by omega)
    simp only [FileHeader.allocateFrom,found,Option.bind_eq_bind,Option.bind_some]
    by_cases place : i < NumDirect
    · rw [if_pos place]
      refine ih _ _ (by omega) (by omega) ?_
      rw [erased,Finset.card_erase_of_mem member]
      omega
    · rw [if_neg place]

theorem long_needs (long : (MaxFileSize : Int) < fileSize.toInt) :
    (NumDirect : Int) < divRoundUpInt fileSize.toInt SectorSize := by
  have max : MaxFileSize = 3840 := rfl
  have direct : NumDirect = 30 := rfl
  rw [sectors_nonneg _ (by omega)]
  omega

theorem allocate_astray (hdr : FileHeader) (long : (MaxFileSize : Int) < fileSize.toInt)
    (enough : divRoundUpInt fileSize.toInt SectorSize ≤ freeMap.clearBits.card) : hdr.allocate freeMap fileSize = none := by
  have needs := long_needs long
  unfold FileHeader.allocate
  refine bind_of_some (BitMap.numClear_count freeMap) ?_
  dsimp only
  rw [sectors_int,if_neg (by omega),allocateFrom_astray _ _ (by omega) (by omega) (by omega)]
  rfl

theorem fitted_recorded (fitted : FileHeader.Fitted fileSize freeMap after rest) : Recorded freeMap rest after := by
  have enough := fitted.sound.enough
  have direct : NumDirect = 30 := rfl
  refine ⟨by omega,?_⟩
  intro sector
  rw [fitted.clear]
  constructor
  · rintro ⟨clear,taken⟩
    have member : sector ∈ after.sectors := by
      by_contra out
      exact taken ⟨clear,out⟩
    obtain ⟨i,inside,same⟩ := FileHeader.mem_sectors.mp member
    exact ⟨i,by omega,by omega,same⟩
  · rintro ⟨i,_,inside,same⟩
    have member := FileHeader.mem_sectors.mpr ⟨i,by omega,same⟩
    exact ⟨fitted.free sector member,fun still => still.2 member⟩

theorem allocate_fits_iff (tidy : hdr.Tidy) (size : freeMap.numBits = NumSectors) (fileSize : BitVec 32) :
    AllocateFits hdr freeMap fileSize ↔ fileSize.toInt ≤ MaxFileSize ∨
      (freeMap.clearBits.card : Int) < divRoundUpInt fileSize.toInt SectorSize := by
  by_cases few : (freeMap.clearBits.card : Int) < divRoundUpInt fileSize.toInt SectorSize
  · refine ⟨fun _ => .inr few,fun _ => ?_⟩
    obtain ⟨after,refused⟩ := FileHeader.allocate_refuses hdr freeMap fileSize few
    exact ⟨false,after,freeMap,refused,fun taken => Bool.noConfusion taken,fun _ => ⟨rfl,rfl⟩⟩
  · by_cases length : fileSize.toInt ≤ MaxFileSize
    · refine ⟨fun _ => .inl length,fun _ => ?_⟩
      obtain ⟨after,rest,allocated,fitted⟩ := FileHeader.allocate_spec tidy freeMap fileSize size length (by omega)
      exact ⟨true,after,rest,allocated,fun _ => fitted_recorded fitted,fun long => by omega⟩
    · refine ⟨?_,fun either => absurd either (not_or.mpr ⟨length,few⟩)⟩
      rintro ⟨_,_,_,allocated,_⟩
      rw [allocate_astray hdr (by omega) (by omega)] at allocated
      cases allocated

theorem create_fits (mounted : fs.Mounted) (fresh : Nat → Bytes) (length : initialSize.toInt ≤ MaxFileSize)
    (room : fs.Room bigEndian disk name initialSize) : CreateFits bigEndian fs disk fresh name initialSize := by
  obtain ⟨first,marked,e,added,taken,member,bits,_,enough,inside,_,table,runs⟩ := create_allocates mounted fresh room
  obtain ⟨hdr,rest,allocated,fitted⟩ := FileHeader.allocate_spec (FileHeader.ofBytes_tidy bigEndian (fresh 4))
    marked initialSize bits length enough
  have bound : first < NumSectors := (BitMap.mem_clearBits.mp member).1
  obtain ⟨one,wrote,_⟩ := FileHeader.writeBack_spec fitted.tidy bigEndian disk bound
  obtain ⟨two,wrote',_⟩ := writeDirectory mounted added (by rw [table]; rfl)
    (by rw [table]; exact enter_tidy fs disk inside _) one (fresh 5)
  obtain ⟨three,wrote'',_⟩ := writeMap bigEndian mounted rest (fitted.numBits.trans bits) two (fresh 6)
  refine ⟨true,three,?_,fun _ => ⟨length,first,marked,hdr,rest,taken,allocated,fitted_recorded fitted⟩⟩
  rw [runs]
  refine bind_of_some allocated ?_
  refine bind_of_some wrote ?_
  refine bind_of_some wrote' ?_
  exact bind_of_some wrote'' rfl

theorem create_astray (mounted : fs.Mounted) (fresh : Nat → Bytes) (long : (MaxFileSize : Int) < initialSize.toInt)
    (room : fs.Room bigEndian disk name initialSize) : fs.create bigEndian disk fresh name initialSize = none := by
  obtain ⟨first,marked,e,added,_,_,_,_,enough,_,_,_,runs⟩ := create_allocates mounted fresh room
  rw [runs,allocate_astray _ long enough]
  rfl

end

end Nachos.FileSys
