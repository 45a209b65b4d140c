import Nachos.FileSys.FileSystem

-- What the operations do to the layout of the disk.
namespace Nachos.FileSys
open Allotment

namespace FileSystem
variable {bigEndian : Bool} {fs : FileSystem} {disk after : Disk} {i : Nat}

theorem directory_congr (mounted : fs.Mounted)
    (same : ∀ address, address / SectorSize ∈ fs.directoryFile.sectors → after address = disk address) :
    fs.directory after = fs.directory disk := by
  unfold directory
  rw [Directory.mk.injEq]
  refine ⟨rfl,?_⟩
  funext offset
  split
  · rename_i inside
    refine FileHeader.byteAt_congr mounted.directorySound same ?_
    rw [mounted.directoryLength]
    omega
  · rfl

theorem freeMap_congr (mounted : fs.Mounted)
    (same : ∀ address, address / SectorSize ∈ fs.freeMapFile.sectors → after address = disk address) :
    fs.freeMap bigEndian after = fs.freeMap bigEndian disk := by
  unfold freeMap BitMap.ofBytes
  rw [BitMap.mk.injEq]
  refine ⟨rfl,List.map_congr_left ?_⟩
  intro k member
  have small := List.mem_range.mp member
  have bytes : divRoundUp NumSectors BitsInWord * 4 = FreeMapFileSize := by decide
  refine intAt_congr bigEndian ?_
  intro j few
  refine FileHeader.byteAt_congr mounted.mapSound same ?_
  rw [mounted.mapLength]
  omega

-- The sectors of the system and the headers of the files are left as they were.
structure Keeps (bigEndian : Bool) (fs : FileSystem) (disk after : Disk) : Prop where
  system : ∀ address, address / SectorSize ∈ fs.held bigEndian disk none → after address = disk address
  headers : ∀ i < NumDirEntries, (fs.directory disk).inUse i = true →
    ∀ address, address / SectorSize = fs.headerSector bigEndian disk i → after address = disk address

theorem Keeps.directory (keeps : fs.Keeps bigEndian disk after) (mounted : fs.Mounted) :
    fs.directory after = fs.directory disk :=
  directory_congr mounted fun address member => keeps.system address (by simp [held,member])

theorem Keeps.freeMap (keeps : fs.Keeps bigEndian disk after) (mounted : fs.Mounted) :
    fs.freeMap bigEndian after = fs.freeMap bigEndian disk :=
  freeMap_congr mounted fun address member => keeps.system address (by simp [held,member])

theorem Keeps.header (keeps : fs.Keeps bigEndian disk after) (mounted : fs.Mounted) (inside : i < NumDirEntries)
    (used : (fs.directory disk).inUse i = true) : fs.header bigEndian after i = fs.header bigEndian disk i := by
  unfold FileSystem.header headerSector
  rw [keeps.directory mounted]
  exact FileHeader.headerAt_congr bigEndian (keeps.headers i inside used)

theorem Keeps.held (keeps : fs.Keeps bigEndian disk after) (mounted : fs.Mounted) :
    fs.held bigEndian after = fs.held bigEndian disk := by
  funext slot
  cases slot with
  | none => rfl
  | some i =>
    simp only [FileSystem.held,headerSector,keeps.directory mounted]
    split
    · rename_i used
      rw [keeps.header mounted used.1 used.2]
    · rfl

theorem Layout.keeps (layout : fs.Layout bigEndian disk) (keeps : fs.Keeps bigEndian disk after) :
    fs.Layout bigEndian after := by
  have mounted := layout.mounted
  have directory := keeps.directory mounted
  refine ⟨mounted,?_,?_,?_,?_,?_⟩
  · rw [← layout.mapHeader]
    exact FileHeader.headerAt_congr bigEndian fun address here => keeps.system address (by simp [FileSystem.held,here])
  · rw [← layout.directoryHeader]
    exact FileHeader.headerAt_congr bigEndian fun address here => keeps.system address (by simp [FileSystem.held,here])
  · intro i inside used
    rw [directory] at used
    rw [keeps.header mounted inside used]
    exact layout.headers i inside used
  · rw [keeps.held mounted,keeps.freeMap mounted]
    exact layout.allotted
  · rw [directory]
    exact layout.names

theorem held_some (inside : i < NumDirEntries) (used : (fs.directory disk).inUse i = true) :
    fs.held bigEndian disk (some i) = fs.headerSector bigEndian disk i :: (fs.header bigEndian disk i).sectors := by
  simp only [held]
  exact if_pos ⟨inside,used⟩

-- A file's own sectors are not those of the system, nor a header, nor another file's.
theorem Layout.own (layout : fs.Layout bigEndian disk) (inside : i < NumDirEntries)
    (used : (fs.directory disk).inUse i = true) (member : sector ∈ (fs.header bigEndian disk i).sectors) :
    sector ∉ fs.held bigEndian disk none ∧
    (∀ j < NumDirEntries, (fs.directory disk).inUse j = true → sector ≠ fs.headerSector bigEndian disk j) ∧
    ∀ j < NumDirEntries, (fs.directory disk).inUse j = true → j ≠ i → sector ∉ (fs.header bigEndian disk j).sectors := by
  have mine : sector ∈ fs.held bigEndian disk (some i) := by
    rw [held_some inside used]
    exact List.mem_cons_of_mem _ member
  refine ⟨layout.allotted.apart _ _ _ (by simp) mine,?_,?_⟩
  · intro j inside' used' same
    by_cases here : j = i
    · subst here
      have nodup := layout.allotted.nodup (some j)
      rw [held_some inside used,List.nodup_cons] at nodup
      exact nodup.1 (same ▸ member)
    · refine layout.allotted.apart (some i) (some j) sector (by simpa using Ne.symm here) mine ?_
      rw [held_some inside' used',same]
      exact List.mem_cons_self
  · intro j inside' used' differs other
    refine layout.allotted.apart (some i) (some j) sector (by simpa using Ne.symm differs) mine ?_
    rw [held_some inside' used']
    exact List.mem_cons_of_mem _ other

-- Writing only to sectors that are neither the system's nor headers.
theorem Layout.spared (layout : fs.Layout bigEndian disk) {touched : List Nat} {mine : Nat → Prop}
    (outside : ∀ address, address / SectorSize ∉ touched → after address = disk address)
    (system : ∀ sector ∈ touched, sector ∉ fs.held bigEndian disk none)
    (headers : ∀ sector ∈ touched, ∀ j < NumDirEntries, (fs.directory disk).inUse j = true →
      sector ≠ fs.headerSector bigEndian disk j)
    (others : ∀ sector ∈ touched, ∀ j < NumDirEntries, (fs.directory disk).inUse j = true → ¬mine j →
      sector ∉ (fs.header bigEndian disk j).sectors) :
    fs.Keeps bigEndian disk after ∧
    ∀ j < NumDirEntries, (fs.directory disk).inUse j = true → ¬mine j →
      ∀ b : Nat, (b : Int) < (fs.header bigEndian disk j).fileLength →
        (fs.header bigEndian disk j).byteAt after b = (fs.header bigEndian disk j).byteAt disk b := by
  refine ⟨⟨?_,?_⟩,?_⟩
  · intro address member
    exact outside address fun own => system _ own member
  · intro j inside used address here
    exact outside address fun own => headers _ own j inside used here
  · intro j inside used differs b short
    refine FileHeader.byteAt_congr (layout.headers j inside used) ?_ short
    intro address member
    exact outside address fun own => others _ own j inside used differs member

-- Writing to a file of the directory.
theorem Layout.written (layout : fs.Layout bigEndian disk) (inside : i < NumDirEntries)
    (used : (fs.directory disk).inUse i = true)
    (outside : ∀ address, address / SectorSize ∉ (fs.header bigEndian disk i).sectors → after address = disk address) :
    fs.Keeps bigEndian disk after ∧
    ∀ j < NumDirEntries, (fs.directory disk).inUse j = true → j ≠ i →
      ∀ b : Nat, (b : Int) < (fs.header bigEndian disk j).fileLength →
        (fs.header bigEndian disk j).byteAt after b = (fs.header bigEndian disk j).byteAt disk b :=
  layout.spared outside (fun _ own => (layout.own inside used own).1) (fun _ own => (layout.own inside used own).2.1)
    fun _ own => (layout.own inside used own).2.2

-- Writing to sectors that nothing has.
theorem Layout.wasted (layout : fs.Layout bigEndian disk) {touched : List Nat}
    (unused : ∀ sector ∈ touched, sector ∈ (fs.freeMap bigEndian disk).clearBits)
    (outside : ∀ address, address / SectorSize ∉ touched → after address = disk address) :
    fs.Keeps bigEndian disk after ∧
    ∀ j < NumDirEntries, (fs.directory disk).inUse j = true → ¬False →
      ∀ b : Nat, (b : Int) < (fs.header bigEndian disk j).fileLength →
        (fs.header bigEndian disk j).byteAt after b = (fs.header bigEndian disk j).byteAt disk b := by
  have nowhere : ∀ sector ∈ touched, ∀ slot, sector ∉ fs.held bigEndian disk slot := fun sector member slot has =>
    layout.allotted.not_free has (unused sector member)
  refine layout.spared outside (fun sector member => nowhere sector member none) ?_ ?_
  · intro sector member j inside used same
    refine nowhere sector member (some j) ?_
    rw [held_some inside used,same]
    exact List.mem_cons_self
  · intro sector member j inside used _ has
    refine nowhere sector member (some j) ?_
    rw [held_some inside used]
    exact List.mem_cons_of_mem _ has

theorem Layout.find_some (layout : fs.Layout bigEndian disk) (found : (fs.directory disk).findIndex name = some i) :
    (fs.directory disk).find bigEndian name = (fs.headerSector bigEndian disk i : Int) ∧
      fs.headerSector bigEndian disk i < NumSectors ∧ i < NumDirEntries ∧ (fs.directory disk).inUse i = true ∧
      (fs.directory disk).key i = chars FileNameMaxLen name := by
  obtain ⟨inside,used,key⟩ := Directory.findIndex_some found
  have bound : fs.headerSector bigEndian disk i < NumSectors := by
    refine layout.allotted.inside (some i) _ ?_
    rw [held_some inside used]
    exact List.mem_cons_self
  refine ⟨?_,bound,inside,used,key⟩
  unfold Directory.find
  rw [found]
  exact FileHeader.sector_int _ bound

theorem find_none (missing : (fs.directory disk).findIndex name = none) :
    (fs.directory disk).find bigEndian name = -1 := by
  unfold Directory.find
  rw [missing]

-- There is room for a new file.
structure Room (bigEndian : Bool) (fs : FileSystem) (disk : Disk) (name : Bytes) (initialSize : BitVec 32) : Prop where
  absent : (fs.directory disk).findIndex name = none
  slot : ∃ e < NumDirEntries, (fs.directory disk).inUse e = false
  header : 0 < (fs.freeMap bigEndian disk).clearBits.card
  data : divRoundUpInt initialSize.toInt SectorSize ≤ ((fs.freeMap bigEndian disk).clearBits.card : Int) - 1

theorem find_full (freeMap : BitMap) (full : ¬0 < freeMap.clearBits.card) : freeMap.find = some (freeMap,-1) := by
  rcases BitMap.find_cases freeMap with ⟨found,_⟩ | ⟨first,_,bound,free,_⟩
  · exact found
  · exact absurd (Finset.card_pos.mpr ⟨first,BitMap.mem_clearBits.mpr ⟨bound,free⟩⟩) full

theorem create_refuses (mounted : fs.Mounted) (fresh : Nat → Bytes) (full : ¬fs.Room bigEndian disk name initialSize) :
    fs.create bigEndian disk fresh name initialSize = some (false,disk) := by
  obtain ⟨empty,made,fetched⟩ := fetchMap bigEndian mounted disk (fresh 2) (fresh 3)
  unfold create
  rw [fetchDirectory mounted disk (fresh 0) (fresh 1)]
  simp only [Option.bind_eq_bind,Option.bind_some]
  by_cases present : (fs.directory disk).find bigEndian name ≠ -1
  · rw [if_pos present]
  · rw [if_neg present,made]
    simp only [Option.bind_some,fetched]
    by_cases header : 0 < (fs.freeMap bigEndian disk).clearBits.card
    · obtain ⟨first,taken,member,erased⟩ := BitMap.find_clear _ header
      simp only [taken,Option.bind_some]
      rw [if_neg (by omega)]
      cases entered : (fs.directory disk).add bigEndian name (BitVec.ofInt 32 (first : Int)) with
      | none => rfl
      | some added =>
        obtain ⟨e,inside,free,absent,_⟩ := Directory.add_some entered
        have few : (((fs.freeMap bigEndian disk).setBit first).clearBits.card : Int) <
            divRoundUpInt initialSize.toInt SectorSize := by
          rw [erased,Finset.card_erase_of_mem member]
          by_contra enough
          exact full ⟨absent,⟨e,inside,free⟩,header,by omega⟩
        obtain ⟨hdr,refused⟩ := FileHeader.allocate_refuses (FileHeader.ofBytes bigEndian (fresh 4)) _ initialSize few
        simp only [refused,Option.bind_some]
        rfl
    · simp only [find_full _ header,Option.bind_some]
      rw [if_pos trivial]

-- Create up to the allocation of the sectors.
theorem create_allocates (mounted : fs.Mounted) (fresh : Nat → Bytes) (room : fs.Room bigEndian disk name initialSize) :
    ∃ (first : Nat) (marked : BitMap) (e : Nat) (added : Directory),
      (fs.freeMap bigEndian disk).find = some (marked,(first : Int)) ∧
      first ∈ (fs.freeMap bigEndian disk).clearBits ∧ marked.numBits = NumSectors ∧
      marked.clearBits = (fs.freeMap bigEndian disk).clearBits.erase first ∧
      divRoundUpInt initialSize.toInt SectorSize ≤ (marked.clearBits.card : Int) ∧
      e < NumDirEntries ∧ (fs.directory disk).inUse e = false ∧
      added = (fs.directory disk).enter bigEndian e name (BitVec.ofInt 32 (first : Int)) ∧
      fs.create bigEndian disk fresh name initialSize = (do
        let (allocated,hdr,freeMap) ← (FileHeader.ofBytes bigEndian (fresh 4)).allocate marked initialSize
        if !allocated then some (false,disk)
        else
          let disk ← hdr.writeBack bigEndian disk first
          let disk ← added.writeBack fs.directoryFile disk (fresh 5)
          let disk ← freeMap.writeBack bigEndian fs.freeMapFile disk (fresh 6)
          some (true,disk)) := by
  obtain ⟨empty,made,fetched⟩ := fetchMap bigEndian mounted disk (fresh 2) (fresh 3)
  obtain ⟨first,taken,member,erased⟩ := BitMap.find_clear _ room.header
  obtain ⟨slot,inSlot,freeSlot⟩ := room.slot
  obtain ⟨added,entered⟩ := Directory.add_room bigEndian (BitVec.ofInt 32 (first : Int)) room.absent inSlot freeSlot
  obtain ⟨e,inside,free,absent,table⟩ := Directory.add_some entered
  refine ⟨first,_,e,added,taken,member,rfl,erased,?_,inside,free,table,?_⟩
  · have data := room.data
    have some_ := room.header
    rw [erased,Finset.card_erase_of_mem member]
    omega
  · unfold create
    refine bind_of_some (fetchDirectory mounted disk (fresh 0) (fresh 1)) ?_
    rw [if_neg (by rw [find_none absent]; decide)]
    refine bind_of_some made ?_
    refine bind_of_some fetched ?_
    refine bind_of_some taken ?_
    dsimp only
    rw [if_neg (by omega),entered]

-- What Create has done with the free entry e, a free sector for the header and the
-- header itself.
structure Enters (bigEndian : Bool) (fs : FileSystem) (disk after : Disk) (name : Bytes) (e first : Nat) (hdr : FileHeader)
    (rest : BitMap) : Prop where
  inside : e < NumDirEntries
  free : (fs.directory disk).inUse e = false
  absent : (fs.directory disk).findIndex name = none
  sector : first ∈ (fs.freeMap bigEndian disk).clearBits
  sound : hdr.Sound
  unused : ∀ s ∈ hdr.sectors, s ∈ (fs.freeMap bigEndian disk).clearBits ∧ s ≠ first
  directory : fs.directory after = (fs.directory disk).enter bigEndian e name (BitVec.ofInt 32 (first : Int))
  map : fs.freeMap bigEndian after = rest
  clear : ∀ j, j ∈ rest.clearBits ↔ j ∈ (fs.freeMap bigEndian disk).clearBits ∧ j ∉ first :: hdr.sectors
  header : FileHeader.headerAt bigEndian after first = hdr
  others : ∀ address, address / SectorSize ≠ first → address / SectorSize ∉ fs.freeMapFile.sectors ++ fs.directoryFile.sectors →
    after address = disk address

section
variable {name : Bytes} {e first : Nat} {hdr : FileHeader} {rest : BitMap} {initialSize : BitVec 32}

theorem Layout.not_clear (layout : fs.Layout bigEndian disk) (has : s ∈ fs.held bigEndian disk slot) :
    s ∉ (fs.freeMap bigEndian disk).clearBits := layout.allotted.not_free has

theorem file_held (inside : i < NumDirEntries)
    (used : (fs.directory disk).inUse i = true) :
    fs.headerSector bigEndian disk i ∈ fs.held bigEndian disk (some i) ∧
      ∀ s ∈ (fs.header bigEndian disk i).sectors, s ∈ fs.held bigEndian disk (some i) := by
  rw [held_some inside used]
  exact ⟨List.mem_cons_self,fun s member => List.mem_cons_of_mem _ member⟩

-- The two headers in well-known places are not in the data of the system's files.
theorem Layout.well_known (layout : fs.Layout bigEndian disk) (which : s = FreeMapSector ∨ s = DirectorySector) :
    s ∈ fs.held bigEndian disk none ∧ s ∉ fs.freeMapFile.sectors ++ fs.directoryFile.sectors := by
  have nodup := layout.allotted.nodup none
  simp only [FileSystem.held,List.nodup_cons,List.mem_cons,not_or] at nodup
  rcases which with rfl | rfl
  · exact ⟨by simp [FileSystem.held],nodup.1.2⟩
  · exact ⟨by simp [FileSystem.held],nodup.2.1⟩

-- A held sector of a file is left alone.
theorem Enters.kept (enters : Enters bigEndian fs disk after name e first hdr rest) (layout : fs.Layout bigEndian disk)
    (held : s ∈ fs.held bigEndian disk (some i)) (here : address / SectorSize = s) : after address = disk address := by
  subst here
  refine enters.others address ?_ ?_
  · intro same
    exact layout.not_clear held (same ▸ enters.sector)
  · intro system
    have place : address / SectorSize ∈ fs.held bigEndian disk none :=
      List.mem_cons_of_mem _ (List.mem_cons_of_mem _ system)
    exact layout.allotted.apart none (some i) _ (by simp) place held

theorem Enters.number (enters : Enters bigEndian fs disk after name e first hdr rest) :
    (BitVec.ofInt 32 (first : Int)).toNat = first := by
  have bound : first < NumSectors := (BitMap.mem_clearBits.mp enters.sector).1
  simp only [NumSectors] at bound
  rw [BitVec.ofInt_natCast,BitVec.toNat_ofNat]
  omega

theorem Enters.headerSector (enters : Enters bigEndian fs disk after name e first hdr rest) (j : Nat) :
    fs.headerSector bigEndian after j = if j = e then first else fs.headerSector bigEndian disk j := by
  unfold FileSystem.headerSector
  rw [enters.directory,Directory.enter_sector]
  split
  · exact enters.number
  · rfl

theorem Enters.headerOf (enters : Enters bigEndian fs disk after name e first hdr rest) (layout : fs.Layout bigEndian disk)
    (inside : i < NumDirEntries) (used : (fs.directory disk).inUse i = true) :
    fs.header bigEndian after i = fs.header bigEndian disk i := by
  have differs : i ≠ e := by
    rintro rfl
    simp [enters.free] at used
  unfold FileSystem.header
  rw [enters.headerSector,if_neg differs]
  exact FileHeader.headerAt_congr bigEndian fun address here =>
    enters.kept layout (file_held inside used).1 here

theorem Enters.headerNew (enters : Enters bigEndian fs disk after name e first hdr rest) :
    fs.header bigEndian after e = hdr := by
  unfold FileSystem.header
  rw [enters.headerSector,if_pos rfl]
  exact enters.header

theorem Enters.held (enters : Enters bigEndian fs disk after name e first hdr rest) (layout : fs.Layout bigEndian disk) :
    fs.held bigEndian after = Function.update (fs.held bigEndian disk) (some e) (first :: hdr.sectors) := by
  funext slot
  cases slot with
  | none => rfl
  | some j =>
    have used : (fs.directory after).inUse j = (decide (j = e) || (fs.directory disk).inUse j) := by
      rw [enters.directory,Directory.enter_inUse]
    by_cases same : j = e
    · subst same
      rw [Function.update_self,held_some enters.inside (by simp [used]),enters.headerSector,if_pos rfl,enters.headerNew]
    · rw [Function.update_of_ne (by simpa using same)]
      simp only [FileSystem.held,used,same,decide_false,Bool.false_or]
      split
      · rename_i both
        rw [enters.headerSector,if_neg same,enters.headerOf layout both.1 both.2]
      · rfl

theorem Enters.layout (enters : Enters bigEndian fs disk after name e first hdr rest) (layout : fs.Layout bigEndian disk) :
    fs.Layout bigEndian after := by
  have used : ∀ j, (fs.directory after).inUse j = (decide (j = e) || (fs.directory disk).inUse j) := by
    intro j
    rw [enters.directory,Directory.enter_inUse]
  have system : ∀ address, address / SectorSize = FreeMapSector ∨ address / SectorSize = DirectorySector →
      after address = disk address := by
    intro address which
    obtain ⟨place,data⟩ := layout.well_known which
    refine enters.others address ?_ data
    intro same
    exact layout.not_clear place (same ▸ enters.sector)
  refine ⟨layout.mounted,?_,?_,?_,?_,?_⟩
  · rw [← layout.mapHeader]
    exact FileHeader.headerAt_congr bigEndian fun address here => system address (.inl here)
  · rw [← layout.directoryHeader]
    exact FileHeader.headerAt_congr bigEndian fun address here => system address (.inr here)
  · intro j inside active
    by_cases same : j = e
    · rw [same,enters.headerNew]
      exact enters.sound
    · rw [used] at active
      have before : (fs.directory disk).inUse j = true := by simpa [same] using active
      rw [enters.headerOf layout inside before]
      exact layout.headers j inside before
  · have empty : fs.held bigEndian disk (some e) = [] := by
      simp [FileSystem.held,enters.free]
    have taken := layout.allotted.take empty (show (first :: hdr.sectors).Nodup from
      List.nodup_cons.mpr ⟨fun wrong => (enters.unused _ wrong).2 rfl,enters.sound.distinct⟩)
      (by
        intro s member
        rcases List.mem_cons.mp member with rfl | data
        · exact enters.sector
        · exact (enters.unused s data).1)
    rw [enters.held layout,enters.map]
    have free : {s | s ∈ rest.clearBits} =
        {a | a ∈ {s | s ∈ (fs.freeMap bigEndian disk).clearBits} ∧ a ∉ first :: hdr.sectors} := by
      ext j
      exact enters.clear j
    rw [free]
    exact taken
  · have fresh : ∀ j < NumDirEntries, (fs.directory disk).inUse j = true →
        (fs.directory disk).key j ≠ chars FileNameMaxLen name :=
      fun j inside active => Directory.findIndex_none enters.absent inside active
    have keys : ∀ j, (fs.directory after).key j = if j = e then chars FileNameMaxLen name else (fs.directory disk).key j := by
      intro j
      rw [enters.directory,Directory.enter_key]
    intro i one j two activeI activeJ same
    rw [used] at activeI activeJ
    rw [keys,keys] at same
    by_cases first : i = e
    · by_cases second : j = e
      · omega
      · rw [if_pos first,if_neg second] at same
        exact absurd same.symm (fresh j two (by simpa [second] using activeJ))
    · by_cases second : j = e
      · rw [if_neg first,if_pos second] at same
        exact absurd same (fresh i one (by simpa [first] using activeI))
      · rw [if_neg first,if_neg second] at same
        exact layout.names i one j two (by simpa [first] using activeI) (by simpa [second] using activeJ) same

theorem enter_tidy (fs : FileSystem) (disk : Disk) (inside : e < NumDirEntries) (newSector : BitVec 32) (offset : Nat)
    (outside : DirectoryFileSize ≤ offset) :
    ((fs.directory disk).enter bigEndian e name newSector).table offset = 0 := by
  rw [Directory.enter_outside _ _ _ _ (.inr ?_)]
  · exact directory_tidy fs disk offset outside
  · simp only [DirectoryFileSize,NumDirEntries,EntrySize] at *
    omega

-- The sectors of the two files of the system are not each other's.
theorem Layout.system_apart (layout : fs.Layout bigEndian disk) (has : s ∈ fs.directoryFile.sectors) :
    s ∉ fs.freeMapFile.sectors := by
  have nodup := layout.allotted.nodup none
  simp only [FileSystem.held,List.nodup_cons] at nodup
  intro other
  exact (List.nodup_append'.mp nodup.2.2).2.2 other has

-- How Create comes to the sectors of a new file.
def Takes (bigEndian : Bool) (freeMap : BitMap) (memory : Bytes) (initialSize : BitVec 32) (first : Nat) (hdr : FileHeader)
    (rest : BitMap) : Prop :=
  ∃ marked, freeMap.find = some (marked,(first : Int)) ∧
    (FileHeader.ofBytes bigEndian memory).allocate marked initialSize = some (true,hdr,rest)

theorem Takes.unique {map : BitMap} (one : Takes bigEndian map memory initialSize first hdr rest)
    (two : Takes bigEndian map memory initialSize first' hdr' rest') : first = first' ∧ hdr = hdr' := by
  obtain ⟨marked,found,allocated⟩ := one
  obtain ⟨marked',found',allocated'⟩ := two
  rw [found,Option.some.injEq,Prod.mk.injEq] at found'
  obtain ⟨rfl,same⟩ := found'
  rw [allocated,Option.some.injEq,Prod.mk.injEq,Prod.mk.injEq] at allocated'
  exact ⟨by omega,allocated'.2.1⟩

theorem Layout.create_makes (layout : fs.Layout bigEndian disk) (fresh : Nat → Bytes)
    (length : initialSize.toInt ≤ MaxFileSize) (room : fs.Room bigEndian disk name initialSize) :
    ∃ after e first hdr rest, fs.create bigEndian disk fresh name initialSize = some (true,after) ∧
      Enters bigEndian fs disk after name e first hdr rest ∧ hdr.numBytes = initialSize ∧
      Takes bigEndian (fs.freeMap bigEndian disk) (fresh 4) initialSize first hdr rest := by
  have mounted := layout.mounted
  obtain ⟨first,marked,e,added,taken,member,bits,erased,enough,inside,free,table,runs⟩ := create_allocates mounted fresh room
  obtain ⟨hdr,rest,allocated,fitted⟩ := FileHeader.allocate_spec (FileHeader.ofBytes_tidy bigEndian (fresh 4))
    marked initialSize bits length enough
  have bound : first < NumSectors := (BitMap.mem_clearBits.mp member).1
  obtain ⟨one,wrote,outside,stored⟩ := FileHeader.writeBack_spec fitted.tidy bigEndian disk bound
  obtain ⟨two,wrote',outside',directory⟩ := writeDirectory mounted added (by rw [table]; rfl)
    (by rw [table]; exact enter_tidy fs disk inside _) one (fresh 5)
  obtain ⟨three,wrote'',outside'',map⟩ := writeMap bigEndian mounted rest (fitted.numBits.trans bits) two (fresh 6)
  have unheld : ∀ slot, first ∉ fs.held bigEndian disk slot := fun slot has => layout.not_clear has member
  have apart : first ∉ fs.freeMapFile.sectors ∧ first ∉ fs.directoryFile.sectors := by
    have none := unheld none
    simp only [FileSystem.held,List.mem_cons,List.mem_append,not_or] at none
    exact none.2.2
  refine ⟨three,e,first,hdr,rest,?_,⟨inside,free,room.absent,member,fitted.sound,?_,?_,map,?_,?_,?_⟩,fitted.numBytes,
    _,taken,allocated⟩
  · rw [runs]
    refine bind_of_some allocated ?_
    refine bind_of_some wrote ?_
    refine bind_of_some wrote' ?_
    exact bind_of_some wrote'' rfl
  · intro s data
    have clear := fitted.free s data
    rw [erased,Finset.mem_erase] at clear
    exact ⟨clear.2,clear.1⟩
  · rw [← table,← directory]
    exact directory_congr mounted fun address has => outside'' address (layout.system_apart has)
  · intro j
    rw [fitted.clear,erased,Finset.mem_erase,List.mem_cons,not_or]
    constructor
    · rintro ⟨⟨differs,clear⟩,data⟩
      exact ⟨clear,differs,data⟩
    · rintro ⟨clear,differs,data⟩
      exact ⟨⟨differs,clear⟩,data⟩
  · rw [← stored]
    refine FileHeader.headerAt_congr bigEndian ?_
    intro address here
    rw [outside'' address (by rw [here]; exact apart.1),outside' address (by rw [here]; exact apart.2)]
  · intro address differs data
    rw [List.mem_append,not_or] at data
    rw [outside'' address data.1,outside' address data.2,outside address differs]

-- What Remove has done with the entry e.
structure Frees (bigEndian : Bool) (fs : FileSystem) (disk after : Disk) (e : Nat) : Prop where
  inside : e < NumDirEntries
  used : (fs.directory disk).inUse e = true
  directory : fs.directory after = (fs.directory disk).free e
  clear : ∀ j, j ∈ (fs.freeMap bigEndian after).clearBits ↔
    j ∈ (fs.freeMap bigEndian disk).clearBits ∨ j ∈ fs.held bigEndian disk (some e)
  others : ∀ address, address / SectorSize ∉ fs.freeMapFile.sectors ++ fs.directoryFile.sectors →
    after address = disk address

theorem Frees.headerSector (frees : Frees bigEndian fs disk after e) (j : Nat) :
    fs.headerSector bigEndian after j = fs.headerSector bigEndian disk j := by
  unfold FileSystem.headerSector
  rw [frees.directory,Directory.free_sector]

theorem Frees.kept (frees : Frees bigEndian fs disk after e) (layout : fs.Layout bigEndian disk)
    (held : s ∈ fs.held bigEndian disk (some i)) (here : address / SectorSize = s) : after address = disk address := by
  subst here
  refine frees.others address ?_
  intro system
  have place : address / SectorSize ∈ fs.held bigEndian disk none :=
    List.mem_cons_of_mem _ (List.mem_cons_of_mem _ system)
  exact layout.allotted.apart none (some i) _ (by simp) place held

theorem Frees.headerOf (frees : Frees bigEndian fs disk after e) (layout : fs.Layout bigEndian disk)
    (inside : i < NumDirEntries) (used : (fs.directory disk).inUse i = true) :
    fs.header bigEndian after i = fs.header bigEndian disk i := by
  unfold FileSystem.header
  rw [frees.headerSector]
  exact FileHeader.headerAt_congr bigEndian fun address here =>
    frees.kept layout (file_held inside used).1 here

theorem Frees.held (frees : Frees bigEndian fs disk after e) (layout : fs.Layout bigEndian disk) :
    fs.held bigEndian after = Function.update (fs.held bigEndian disk) (some e) [] := by
  funext slot
  cases slot with
  | none => rfl
  | some j =>
    have used : (fs.directory after).inUse j = (!decide (j = e) && (fs.directory disk).inUse j) := by
      rw [frees.directory,Directory.free_inUse]
    by_cases same : j = e
    · subst same
      rw [Function.update_self]
      simp [FileSystem.held,used]
    · rw [Function.update_of_ne (by simpa using same)]
      simp only [FileSystem.held,used,same,decide_false,Bool.not_false,Bool.true_and]
      split
      · rename_i both
        rw [frees.headerSector,frees.headerOf layout both.1 both.2]
      · rfl

theorem Frees.layout (frees : Frees bigEndian fs disk after e) (layout : fs.Layout bigEndian disk) :
    fs.Layout bigEndian after := by
  have used : ∀ j, (fs.directory after).inUse j = true → j ≠ e ∧ (fs.directory disk).inUse j = true := by
    intro j active
    rw [frees.directory,Directory.free_inUse] at active
    simpa using active
  have system : ∀ address, address / SectorSize = FreeMapSector ∨ address / SectorSize = DirectorySector →
      after address = disk address := by
    intro address which
    exact frees.others address (layout.well_known which).2
  refine ⟨layout.mounted,?_,?_,?_,?_,?_⟩
  · rw [← layout.mapHeader]
    exact FileHeader.headerAt_congr bigEndian fun address here => system address (.inl here)
  · rw [← layout.directoryHeader]
    exact FileHeader.headerAt_congr bigEndian fun address here => system address (.inr here)
  · intro j inside active
    rw [frees.headerOf layout inside (used j active).2]
    exact layout.headers j inside (used j active).2
  · rw [frees.held layout]
    have free : {s | s ∈ (fs.freeMap bigEndian after).clearBits} =
        {a | a ∈ {s | s ∈ (fs.freeMap bigEndian disk).clearBits} ∨ a ∈ fs.held bigEndian disk (some e)} := by
      ext j
      exact frees.clear j
    rw [free]
    exact layout.allotted.give (some e)
  · intro i one j two activeI activeJ same
    rw [frees.directory,Directory.free_key,Directory.free_key] at same
    exact layout.names i one j two (used i activeI).2 (used j activeJ).2 same

-- Removing a file that was just created gives back the map there was before.
theorem Frees.restores (frees : Frees bigEndian fs after later e)
    (enters : Enters bigEndian fs disk after name e first hdr rest) (layout : fs.Layout bigEndian disk) :
    fs.freeMap bigEndian later = fs.freeMap bigEndian disk := by
  refine BitMap.ext_clear rfl (by decide : BitsInWord ∣ NumSectors) ?_
  ext j
  have held : fs.held bigEndian after (some e) = first :: hdr.sectors := by
    rw [enters.held layout,Function.update_self]
  rw [frees.clear,enters.map,enters.clear,held]
  constructor
  · rintro (⟨clear,_⟩ | mine)
    · exact clear
    · rcases List.mem_cons.mp mine with rfl | data
      · exact enters.sector
      · exact (enters.unused j data).1
  · intro clear
    by_cases mine : j ∈ first :: hdr.sectors
    · exact .inr mine
    · exact .inl ⟨clear,mine⟩

theorem Layout.remove_absent (layout : fs.Layout bigEndian disk) (fresh : Nat → Bytes)
    (absent : (fs.directory disk).findIndex name = none) :
    fs.remove bigEndian disk fresh name = some (false,disk) := by
  unfold remove
  rw [fetchDirectory layout.mounted disk (fresh 0) (fresh 1)]
  simp only [Option.bind_eq_bind,Option.bind_some,find_none absent]
  rfl

theorem Layout.remove_frees (layout : fs.Layout bigEndian disk) (fresh : Nat → Bytes)
    (found : (fs.directory disk).findIndex name = some e) :
    ∃ after, fs.remove bigEndian disk fresh name = some (true,after) ∧ Frees bigEndian fs disk after e := by
  have mounted := layout.mounted
  obtain ⟨sector,bound,inside,used,key⟩ := layout.find_some found
  obtain ⟨empty,made,fetched⟩ := fetchMap bigEndian mounted disk (fresh 2) (fresh 3)
  have mine : fs.held bigEndian disk (some e) = _ := held_some inside used
  have sound := layout.headers e inside used
  obtain ⟨rest,freed,size,clear⟩ := FileHeader.deallocate_spec sound (fs.freeMap bigEndian disk) rfl
    (fun s data => layout.not_clear ((file_held inside used).2 s data))
  have within : fs.headerSector bigEndian disk e < rest.numBits := by
    rw [size]
    exact bound
  obtain ⟨one,wrote,outside,map⟩ := writeMap bigEndian mounted (rest.clearBit (fs.headerSector bigEndian disk e))
    (by rw [BitMap.numBits_clearBit,size]; rfl) disk (fresh 4)
  obtain ⟨two,wrote',outside',directory⟩ := writeDirectory mounted ((fs.directory disk).free e) rfl
    (by
      intro offset behind
      rw [Directory.free_outside]
      · exact directory_tidy fs disk offset behind
      · simp only [DirectoryFileSize,NumDirEntries,EntrySize] at *
        omega) one (fresh 5)
  refine ⟨two,?_,inside,used,directory,?_,?_⟩
  · unfold remove
    rw [fetchDirectory mounted disk (fresh 0) (fresh 1)]
    simp only [Option.bind_eq_bind,Option.bind_some,sector]
    rw [if_neg (by omega),FileHeader.fetchFrom_nat bigEndian disk bound,made]
    have removed : (fs.directory disk).remove name = some ((fs.directory disk).free e) := by
      unfold Directory.remove
      rw [found]
    have given : (FileHeader.headerAt bigEndian disk (fs.headerSector bigEndian disk e)).deallocate
        (fs.freeMap bigEndian disk) = some rest := freed
    simp only [Option.bind_some,fetched,given,BitMap.clear_nat within,removed,Option.getD_some,wrote,wrote']
  · intro j
    have same : fs.freeMap bigEndian two = fs.freeMap bigEndian one :=
      freeMap_congr mounted fun address has => outside' address fun other => layout.system_apart other has
    rw [same,map,BitMap.clear_clearBits within,Finset.mem_insert,clear,mine,List.mem_cons]
    constructor
    · rintro (here | before | data)
      · exact .inr (.inl here)
      · exact .inl before
      · exact .inr (.inr data)
    · rintro (before | here | data)
      · exact .inr (.inl before)
      · exact .inl here
      · exact .inr (.inr data)
  · intro address data
    rw [List.mem_append,not_or] at data
    rw [outside' address data.2,outside address data.1]

end

theorem new_inUse (memory : Bytes) (size i : Nat) : (Directory.new memory size).inUse i = false := by
  simp [Directory.inUse,Directory.new]

theorem new_tidy (memory : Bytes) (offset : Nat) (outside : DirectoryFileSize ≤ offset) :
    (Directory.new memory NumDirEntries).table offset = 0 := by
  refine if_neg ?_
  rintro ⟨inside,_⟩
  simp only [DirectoryFileSize,NumDirEntries,EntrySize] at *
  omega

-- A new map with the two well-known sectors marked.
theorem format_map (bigEndian : Bool) (memory : Bytes) :
    ∃ empty, newMap bigEndian memory = some empty ∧ empty.numBits = NumSectors ∧
      (∀ j, j ∈ ((empty.setBit FreeMapSector).setBit DirectorySector).clearBits ↔
        j < NumSectors ∧ j ≠ FreeMapSector ∧ j ≠ DirectorySector) ∧
      ((empty.setBit FreeMapSector).setBit DirectorySector).clearBits.card = NumSectors - 2 := by
  obtain ⟨empty,made,size,none⟩ := BitMap.new_empty NumSectors
    ((List.range (divRoundUp NumSectors BitsInWord)).map fun k => intAt bigEndian memory (4 * k)) (by simp)
  have all : empty.clearBits = Finset.range NumSectors := by
    ext j
    rw [BitMap.mem_clearBits,Finset.mem_range,size]
    exact ⟨fun both => both.1,fun inside => ⟨inside,none j inside⟩⟩
  have clear : ((empty.setBit FreeMapSector).setBit DirectorySector).clearBits =
      ((Finset.range NumSectors).erase FreeMapSector).erase DirectorySector := by
    rw [BitMap.set_clearBits,BitMap.set_clearBits,all]
  refine ⟨empty,made,size,?_,?_⟩
  · intro j
    rw [clear,Finset.mem_erase,Finset.mem_erase,Finset.mem_range]
    constructor
    · rintro ⟨two,one,inside⟩
      exact ⟨inside,one,two⟩
    · rintro ⟨inside,one,two⟩
      exact ⟨two,one,inside⟩
  · have one : FreeMapSector ∈ Finset.range NumSectors := Finset.mem_range.mpr (by decide)
    have two : DirectorySector ∈ (Finset.range NumSectors).erase FreeMapSector :=
      Finset.mem_erase.mpr ⟨by decide,Finset.mem_range.mpr (by decide)⟩
    rw [clear,Finset.card_erase_of_mem two,Finset.card_erase_of_mem one,Finset.card_range]
    rfl

-- The state of a disk that has just been formatted.
structure Formatted (bigEndian : Bool) (fs : FileSystem) (disk : Disk) : Prop where
  mounted : fs.Mounted
  mapHeader : FileHeader.headerAt bigEndian disk FreeMapSector = fs.freeMapFile
  directoryHeader : FileHeader.headerAt bigEndian disk DirectorySector = fs.directoryFile
  unused : ∀ i, (fs.directory disk).inUse i = false
  mapSectors : ∀ s ∈ fs.freeMapFile.sectors, s ≠ FreeMapSector ∧ s ≠ DirectorySector
  directorySectors : ∀ s ∈ fs.directoryFile.sectors, s ≠ FreeMapSector ∧ s ≠ DirectorySector ∧ s ∉ fs.freeMapFile.sectors
  clear : ∀ s, s ∈ (fs.freeMap bigEndian disk).clearBits ↔
    s < NumSectors ∧ s ≠ FreeMapSector ∧ s ≠ DirectorySector ∧ s ∉ fs.freeMapFile.sectors ∧ s ∉ fs.directoryFile.sectors

theorem Formatted.entries (formatted : Formatted bigEndian fs disk) (i : Nat) : fs.held bigEndian disk (some i) = [] := by
  simp only [held,formatted.unused,Bool.false_eq_true,and_false,if_false]

theorem Formatted.allotted (formatted : Formatted bigEndian fs disk) :
    Allotted (fs.held bigEndian disk) {s | s ∈ (fs.freeMap bigEndian disk).clearBits} {s | s < NumSectors} := by
  have entries := formatted.entries
  refine ⟨?_,?_,?_,?_⟩
  · intro slot
    cases slot with
    | some i =>
      rw [entries]
      exact List.nodup_nil
    | none =>
      simp only [FileSystem.held,List.nodup_cons,List.mem_cons,List.mem_append,not_or]
      refine ⟨⟨by decide,fun data => (formatted.mapSectors _ data).1 rfl,fun data => (formatted.directorySectors _ data).1 rfl⟩,
        ⟨fun data => (formatted.mapSectors _ data).2 rfl,fun data => (formatted.directorySectors _ data).2.1 rfl⟩,?_⟩
      exact List.nodup_append'.mpr ⟨formatted.mounted.mapSound.distinct,formatted.mounted.directorySound.distinct,
        fun s one two => (formatted.directorySectors s two).2.2 one⟩
  · intro a b s differs has
    cases b with
    | some i =>
      rw [entries]
      exact List.not_mem_nil
    | none =>
      cases a with
      | none => exact absurd rfl differs
      | some i =>
        rw [entries] at has
        exact absurd has List.not_mem_nil
  · intro slot s has
    cases slot with
    | some i =>
      rw [entries] at has
      exact absurd has List.not_mem_nil
    | none =>
      simp only [FileSystem.held,List.mem_cons,List.mem_append] at has
      rcases has with rfl | rfl | data | data
      · exact (by decide : FreeMapSector < NumSectors)
      · exact (by decide : DirectorySector < NumSectors)
      · exact formatted.mounted.mapSound.bound s data
      · exact formatted.mounted.directorySound.bound s data
  · intro s
    refine (formatted.clear s).trans ?_
    constructor
    · rintro ⟨inside,one,two,three,four⟩
      refine ⟨inside,fun slot => ?_⟩
      cases slot with
      | some i =>
        rw [entries]
        exact List.not_mem_nil
      | none =>
        simp only [FileSystem.held,List.mem_cons,List.mem_append,not_or]
        exact ⟨one,two,three,four⟩
    · rintro ⟨inside,unheld⟩
      have system := unheld none
      simp only [FileSystem.held,List.mem_cons,List.mem_append,not_or] at system
      exact ⟨inside,system⟩

theorem Formatted.layout (formatted : Formatted bigEndian fs disk) : fs.Layout bigEndian disk := by
  refine ⟨formatted.mounted,formatted.mapHeader,formatted.directoryHeader,?_,formatted.allotted,?_⟩
  · intro i _ active
    rw [formatted.unused] at active
    cases active
  · intro i _ j _ active
    rw [formatted.unused] at active
    cases active

-- The two headers get sectors other than the two they are put in, and than each other's.
theorem format_allocates (bigEndian : Bool) (fresh : Nat → Bytes) (map : BitMap) (size : map.numBits = NumSectors)
    (enough : 3 ≤ map.clearBits.card) :
    ∃ mapHdr rest dirHdr rest',
      (FileHeader.ofBytes bigEndian (fresh 2)).allocate map (BitVec.ofNat 32 FreeMapFileSize) = some (true,mapHdr,rest) ∧
      (FileHeader.ofBytes bigEndian (fresh 3)).allocate rest (BitVec.ofNat 32 DirectoryFileSize) = some (true,dirHdr,rest') ∧
      FileHeader.Fitted (BitVec.ofNat 32 FreeMapFileSize) map mapHdr rest ∧
      FileHeader.Fitted (BitVec.ofNat 32 DirectoryFileSize) rest dirHdr rest' ∧ FileSystem.Mounted ⟨mapHdr,dirHdr⟩ := by
  have mapSize : (BitVec.ofNat 32 FreeMapFileSize).toInt = FreeMapFileSize := by decide
  have dirSize : (BitVec.ofNat 32 DirectoryFileSize).toInt = DirectoryFileSize := by decide
  have mapNeeds : divRoundUpInt FreeMapFileSize SectorSize = 1 := by decide
  have dirNeeds : divRoundUpInt DirectoryFileSize SectorSize = 2 := by decide
  obtain ⟨mapHdr,rest,allocated,mapFits⟩ := FileHeader.allocate_spec (FileHeader.ofBytes_tidy bigEndian (fresh 2)) map
    (BitVec.ofNat 32 FreeMapFileSize) size (by decide) (by rw [mapSize,mapNeeds]; omega)
  have mapLength : mapHdr.fileLength = FreeMapFileSize := by
    rw [FileHeader.fileLength,mapFits.numBytes,mapSize]
  have few : mapHdr.sectors.length = 1 := by
    have count := mapFits.sound.count
    rw [mapLength,mapNeeds] at count
    simp [FileHeader.sectors,count]
  have left := mapFits.card
  obtain ⟨dirHdr,rest',allocated',dirFits⟩ := FileHeader.allocate_spec (FileHeader.ofBytes_tidy bigEndian (fresh 3)) rest
    (BitVec.ofNat 32 DirectoryFileSize) (mapFits.numBits.trans size) (by decide) (by rw [dirSize,dirNeeds]; omega)
  have dirLength : dirHdr.fileLength = DirectoryFileSize := by
    rw [FileHeader.fileLength,dirFits.numBytes,dirSize]
  exact ⟨mapHdr,rest,dirHdr,rest',allocated,allocated',mapFits,dirFits,mapFits.sound,mapLength,dirFits.sound,dirLength⟩

theorem format_spec (bigEndian : Bool) (disk : Disk) (fresh : Nat → Bytes) :
    ∃ fs after, format bigEndian disk fresh = some (fs,after) ∧ Formatted bigEndian fs after := by
  obtain ⟨empty,made,size,clear,card⟩ := format_map bigEndian (fresh 0)
  have sizes : NumSectors = 1024 := rfl
  obtain ⟨mapHdr,rest,dirHdr,rest',allocated,allocated',mapFits,dirFits,mounted⟩ := format_allocates bigEndian fresh
    ((empty.setBit FreeMapSector).setBit DirectorySector) size (by omega)
  have mapFree : ∀ s ∈ mapHdr.sectors, s ≠ FreeMapSector ∧ s ≠ DirectorySector :=
    fun s data => ((clear s).mp (mapFits.free s data)).2
  have dirFree : ∀ s ∈ dirHdr.sectors, s ≠ FreeMapSector ∧ s ≠ DirectorySector ∧ s ∉ mapHdr.sectors := by
    intro s data
    obtain ⟨free,other⟩ := (mapFits.clear s).mp (dirFits.free s data)
    obtain ⟨_,one,two⟩ := (clear s).mp free
    exact ⟨one,two,other⟩
  obtain ⟨one,wroteOne,outsideOne,storedOne⟩ := FileHeader.writeBack_spec mapFits.tidy bigEndian disk
    (show FreeMapSector < NumSectors by decide)
  obtain ⟨two,wroteTwo,outsideTwo,storedTwo⟩ := FileHeader.writeBack_spec dirFits.tidy bigEndian one
    (show DirectorySector < NumSectors by decide)
  obtain ⟨three,wroteThree,outsideThree,map⟩ := writeMap bigEndian mounted rest' (dirFits.numBits.trans (mapFits.numBits.trans size))
    two (fresh 4)
  obtain ⟨four,wroteFour,outsideFour,directory⟩ := writeDirectory mounted (Directory.new (fresh 1) NumDirEntries) rfl
    (new_tidy (fresh 1)) three (fresh 5)
  have mapHeader : FileHeader.headerAt bigEndian two FreeMapSector = mapHdr := by
    rw [← storedOne]
    exact FileHeader.headerAt_congr bigEndian fun address here => outsideTwo address (by rw [here]; decide)
  -- The two headers are not in the data of the two files.
  have system : ∀ address, address / SectorSize = FreeMapSector ∨ address / SectorSize = DirectorySector →
      four address = two address := by
    intro address which
    rw [outsideFour address (fun data => ?_),outsideThree address (fun data => ?_)]
    · have apart := mapFree _ data
      rcases which with here | here
      · exact apart.1 here
      · exact apart.2 here
    · have apart := dirFree _ data
      rcases which with here | here
      · exact apart.1 here
      · exact apart.2.1 here
  refine ⟨⟨mapHdr,dirHdr⟩,four,?_,mounted,?_,?_,?_,mapFree,dirFree,?_⟩
  · have markOne : empty.mark (FreeMapSector : Int) = some (empty.setBit FreeMapSector) :=
      BitMap.mark_nat (by rw [size]; decide)
    have markTwo : (empty.setBit FreeMapSector).mark (DirectorySector : Int) =
        some ((empty.setBit FreeMapSector).setBit DirectorySector) :=
      BitMap.mark_nat (by rw [BitMap.numBits_setBit,size]; decide)
    have mapFetched : FileHeader.fetchFrom bigEndian two FreeMapSector = some mapHdr := by
      rw [FileHeader.fetchFrom_nat bigEndian two (show FreeMapSector < NumSectors by decide),mapHeader]
    have dirFetched : FileHeader.fetchFrom bigEndian two DirectorySector = some dirHdr := by
      rw [FileHeader.fetchFrom_nat bigEndian two (show DirectorySector < NumSectors by decide),storedTwo]
    unfold format
    refine bind_of_some made ?_
    refine bind_of_some markOne ?_
    refine bind_of_some markTwo ?_
    refine bind_of_some allocated ?_
    refine bind_of_some allocated' ?_
    refine bind_of_some wroteOne ?_
    refine bind_of_some wroteTwo ?_
    refine bind_of_some mapFetched ?_
    refine bind_of_some dirFetched ?_
    refine bind_of_some wroteThree ?_
    exact bind_of_some wroteFour rfl
  · rw [← mapHeader]
    exact FileHeader.headerAt_congr bigEndian fun address here => system address (.inl here)
  · rw [← storedTwo]
    exact FileHeader.headerAt_congr bigEndian fun address here => system address (.inr here)
  · intro i
    rw [directory]
    exact new_inUse _ _ _
  · have final : FileSystem.freeMap bigEndian ⟨mapHdr,dirHdr⟩ four = rest' := by
      rw [← map]
      exact freeMap_congr mounted fun address data => outsideFour address fun other => (dirFree _ other).2.2 data
    intro s
    rw [final,dirFits.clear,mapFits.clear,clear,and_assoc,and_assoc,and_assoc]

end FileSystem
end Nachos.FileSys
