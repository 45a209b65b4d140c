import Mathlib.Data.Rat.Floor
import Nachos.FileSys.Runs

-- Which sectors of the disk are in use.
namespace Nachos.FileSys
open FileSystem State

-- The two headers and the data of the system's files, then each file of the directory.
def FileSystem.sectorsInUse (bigEndian : Bool) (fs : FileSystem) (disk : Disk) : List Nat :=
  fs.held bigEndian disk none ++ (List.range NumDirEntries).flatMap fun i => fs.held bigEndian disk (some i)

section
variable {bigEndian : Bool} {fs : FileSystem} {disk : Disk} {sector : Nat} {s : State} {log : List (Op × Result)}

theorem mem_sectorsInUse : sector ∈ fs.sectorsInUse bigEndian disk ↔ ∃ slot, sector ∈ fs.held bigEndian disk slot := by
  simp only [sectorsInUse,List.mem_append,List.mem_flatMap,List.mem_range]
  constructor
  · rintro (system | ⟨i,_,file⟩)
    · exact ⟨none,system⟩
    · exact ⟨some i,file⟩
  · rintro ⟨slot,has⟩
    cases slot with
    | none => exact .inl has
    | some i =>
      by_cases inside : i < NumDirEntries
      · exact .inr ⟨i,inside,has⟩
      · rw [held,if_neg (fun used => inside used.1)] at has
        cases has

theorem FileSystem.Layout.nodup (layout : fs.Layout bigEndian disk) : (fs.sectorsInUse bigEndian disk).Nodup := by
  have allotted := layout.allotted
  refine List.nodup_append'.mpr ⟨allotted.nodup none,List.nodup_flatMap.mpr ⟨fun i _ => allotted.nodup (some i),?_⟩,?_⟩
  · refine List.Pairwise.imp ?_ List.nodup_range
    intro i j differs a one two
    exact allotted.apart (some i) (some j) a (by simpa using differs) one two
  · intro a system file
    obtain ⟨i,_,mine⟩ := List.mem_flatMap.mp file
    exact allotted.apart none (some i) a (by simp) system mine

theorem FileSystem.Layout.marked (layout : fs.Layout bigEndian disk) (inside : sector < NumSectors) :
    (fs.freeMap bigEndian disk).bit sector = true ↔ sector ∈ fs.sectorsInUse bigEndian disk := by
  rw [BitMap.test_clear (show sector < (fs.freeMap bigEndian disk).numBits from inside),mem_sectorsInUse]
  constructor
  · intro set
    by_contra nowhere
    exact set ((layout.allotted.exact_ sector).mpr ⟨inside,fun slot has => nowhere ⟨slot,has⟩⟩)
  · rintro ⟨slot,has⟩
    exact layout.not_clear has

-- No sector is lost: what is not in use is free.
theorem FileSystem.Layout.card (layout : fs.Layout bigEndian disk) :
    (fs.freeMap bigEndian disk).clearBits.card + (fs.sectorsInUse bigEndian disk).length = NumSectors := by
  have parts : (fs.freeMap bigEndian disk).clearBits = Finset.range NumSectors \ (fs.sectorsInUse bigEndian disk).toFinset := by
    ext j
    rw [Finset.mem_sdiff,Finset.mem_range,List.mem_toFinset,mem_sectorsInUse]
    refine (layout.allotted.exact_ j).trans ?_
    rw [not_exists]
    rfl
  have within : (fs.sectorsInUse bigEndian disk).toFinset ⊆ Finset.range NumSectors := by
    intro j member
    obtain ⟨slot,has⟩ := mem_sectorsInUse.mp (List.mem_toFinset.mp member)
    exact Finset.mem_range.mpr (layout.allotted.inside slot j has)
  have few := Finset.card_le_card within
  rw [Finset.card_range] at few
  rw [parts,Finset.card_sdiff_of_subset within,Finset.card_range,← List.toFinset_card_of_nodup layout.nodup]
  omega

-- divRoundUp on ints rounds up, below zero too.
theorem divRoundUpInt_ceil (n : Int) : divRoundUpInt n SectorSize = ⌈(n : ℚ) / SectorSize⌉ := by
  rw [Rat.ceil_intCast_div_natCast]
  have size : ((SectorSize : Nat) : Int) = 128 := rfl
  rcases Int.lt_or_le n 0 with negative | sign
  · have opposite : n = -(-n) := by omega
    rw [divRoundUpInt,size,opposite,Int.neg_tdiv,Int.neg_tmod,Int.tdiv_eq_ediv_of_nonneg (by omega),
      Int.tmod_eq_emod_of_nonneg (by omega)]
    split <;> omega
  · rw [sectors_nonneg n sign,size]
    omega

-- The sectors that hold a file header.
def FileSystem.HeaderIn (bigEndian : Bool) (fs : FileSystem) (disk : Disk) (sector : Nat) : Prop :=
  sector = FreeMapSector ∨ sector = DirectorySector ∨
    ∃ i < NumDirEntries, (fs.directory disk).inUse i = true ∧ sector = fs.headerSector bigEndian disk i

theorem FileSystem.Layout.ceil (layout : fs.Layout bigEndian disk) (header : fs.HeaderIn bigEndian disk sector) :
    (FileHeader.headerAt bigEndian disk sector).numSectors.toInt =
      ⌈((FileHeader.headerAt bigEndian disk sector).numBytes.toInt : ℚ) / SectorSize⌉ := by
  have sound : (FileHeader.headerAt bigEndian disk sector).Sound := by
    rcases header with rfl | rfl | ⟨i,inside,used,rfl⟩
    · rw [layout.mapHeader]
      exact layout.mounted.mapSound
    · rw [layout.directoryHeader]
      exact layout.mounted.directorySound
    · exact layout.headers i inside used
  rw [sound.count,divRoundUpInt_ceil]
  rfl

theorem FileSystem.Mounted.system_length (mounted : fs.Mounted) : (fs.held bigEndian disk none).length = 5 := by
  have map := mounted.mapSound.count
  have directory := mounted.directorySound.count
  rw [mounted.mapLength,show divRoundUpInt FreeMapFileSize SectorSize = 1 by decide] at map
  rw [mounted.directoryLength,show divRoundUpInt DirectoryFileSize SectorSize = 2 by decide] at directory
  simp only [held,FileHeader.sectors,map,directory,List.length_cons,List.length_append,List.length_map,List.length_range]
  rfl

theorem FileSystem.Formatted.card (formatted : Formatted bigEndian fs disk) :
    (fs.freeMap bigEndian disk).clearBits.card = 1019 := by
  have files : ((List.range NumDirEntries).flatMap fun i => fs.held bigEndian disk (some i)) = [] := by
    rw [List.flatMap_eq_nil_iff]
    intro i _
    exact formatted.entries i
  have total := formatted.layout.card
  rw [sectorsInUse,files,List.append_nil,formatted.mounted.system_length] at total
  have size : NumSectors = 1024 := rfl
  omega

-- The entry of a name that is in the directory.
theorem FileSystem.Layout.find_entry (layout : fs.Layout bigEndian disk) (inside : i < NumDirEntries)
    (used : (fs.directory disk).inUse i = true) (key : (fs.directory disk).key i = chars FileNameMaxLen name) :
    (fs.directory disk).findIndex name = some i := by
  cases found : (fs.directory disk).findIndex name with
  | none => exact absurd key (Directory.findIndex_none found inside used)
  | some j =>
    obtain ⟨inside',used',key'⟩ := Directory.findIndex_some found
    rw [layout.names j inside' i inside used' used (key'.trans key.symm)]

theorem find_unused (unused : ∀ i, (fs.directory disk).inUse i = false) (name : Bytes) :
    (fs.directory disk).findIndex name = none := by
  cases found : (fs.directory disk).findIndex name with
  | none => rfl
  | some i =>
    have used := (Directory.findIndex_some found).2.1
    rw [unused] at used
    cases used

theorem FileSystem.Enters.find_new (enters : Enters bigEndian fs disk after name e first hdr rest)
    (layout : fs.Layout bigEndian disk) : (fs.directory after).findIndex name = some e := by
  refine (enters.layout layout).find_entry enters.inside ?_ ?_
  · rw [enters.directory,Directory.enter_inUse]
    simp
  · rw [enters.directory,Directory.enter_key,if_pos rfl]

theorem room_empty (unused : ∀ i, (fs.directory disk).inUse i = false)
    (card : (fs.freeMap bigEndian disk).clearBits.card = 1019) (name : Bytes) : fs.Room bigEndian disk name 128 := by
  refine ⟨find_unused unused name,⟨0,by decide,unused 0⟩,by omega,?_⟩
  rw [card,show divRoundUpInt (128 : BitVec 32).toInt SectorSize = 1 by decide]
  omega

end

section
variable {bigEndian : Bool} {s : State} {disk : Disk} {fresh : Nat → Bytes} {name : Bytes} {initialSize : BitVec 32}
  {id : Nat}

theorem step_create (created : s.fs.create bigEndian s.disk fresh name initialSize = some (true,disk)) :
    s.step bigEndian fresh (.create name initialSize) = some (.bool true,⟨s.fs,disk,s.handles⟩) := by
  simp only [step,created,Option.bind_eq_bind,Option.bind_some]

theorem step_remove (removed : s.fs.remove bigEndian s.disk fresh name = some (true,disk)) :
    s.step bigEndian fresh (.remove name) =
      some (.bool true,⟨s.fs,disk,fun id => (s.handles id).map fun h => h.removed name⟩) := by
  simp only [step,removed,Option.bind_eq_bind,Option.bind_some,if_true]

theorem step_open (layout : s.fs.Layout bigEndian s.disk) (fresh : Nat → Bytes)
    (found : (s.fs.directory s.disk).findIndex name = some i) (id : Nat) :
    s.step bigEndian fresh (.open_ name id) = some (.opened true,⟨s.fs,s.disk,Function.update s.handles id
      (some ⟨s.fs.header bigEndian s.disk i,0,chars FileNameMaxLen name,true⟩)⟩) := by
  have opens := open_spec layout fresh name
  rw [found] at opens
  simp only [step,opens,Option.map_some,Option.bind_eq_bind,Option.bind_some]

theorem step_writeAt (bigEndian : Bool) (fresh : Nat → Bytes) {h : Handle} {from_ : Bytes} {numBytes position result : Int} (opened : s.handles id = some h)
    (wrote : h.hdr.writeAt s.disk (fresh 0) from_ numBytes position = some (result,disk)) :
    s.step bigEndian fresh (.writeAt id from_ numBytes position) = some (.count result,⟨s.fs,disk,s.handles⟩) := by
  simp only [step,opened,wrote,Option.bind_eq_bind,Option.bind_some]

theorem runs_allowed {log : List (Op × Result)} (path : Runs bigEndian (State.Allowed bigEndian) log s) : s.Inv bigEndian :=
  runs_inv (fun _ _ allowed => allowed) path

theorem runs_call {log : List (Op × Result)} {op : Op} {result : Result} {after : State}
    (path : Runs bigEndian (State.Allowed bigEndian) log s) (stepped : s.step bigEndian fresh op = some (result,after))
    (allowed : s.Allowed bigEndian op) : Runs bigEndian (State.Allowed bigEndian) ((op,result) :: log) after :=
  .call path allowed stepped

end

-- Memory full of zeros, and a name of one character.
def zeros : Bytes := fun _ => 0
def letter (c : BitVec 8) : Bytes := fun i => if i = 0 then c else 0

-- A file that was created and opened.
def firstCalls : List (Op × Result) := [(.open_ (letter 97) 0,.opened true),(.create (letter 97) 128,.bool true)]

theorem first_run : ∃ s h, Runs false (State.Allowed false) firstCalls s ∧ s.handles 0 = some h ∧ h.live = true ∧
    h.seekPosition = 0 := by
  obtain ⟨fs,disk,formats,formatted⟩ := format_spec false zeros fun _ => zeros
  have layout := formatted.layout
  have small : (128 : BitVec 32).toInt ≤ MaxFileSize := by decide
  obtain ⟨one,e,first,hdr,rest,created,enters,_,_⟩ := layout.create_makes (fun _ => zeros) small
    (room_empty formatted.unused formatted.card (letter 97))
  have start : Runs false (State.Allowed false) [] ⟨fs,disk,fun _ => none⟩ := .start formats
  have creates := runs_call start (step_create created) small
  have opens := runs_call creates
    (step_open (runs_allowed creates).layout (fun _ => zeros) (enters.find_new layout) 0) rfl
  exact ⟨_,_,opens,rfl,rfl,rfl⟩

section
variable {bigEndian : Bool} {sector : Nat} {s : State} {log : List (Op × Result)}

-- What holds on the disk after every run, and that no call is stopped by an ASSERT.
structure Laid (bigEndian : Bool) (s : State) : Prop where
  marked : ∀ sector < NumSectors,
    (s.fs.freeMap bigEndian s.disk).bit sector = true ↔ sector ∈ s.fs.sectorsInUse bigEndian s.disk
  distinct : (s.fs.sectorsInUse bigEndian s.disk).Nodup
  bound : ∀ sector ∈ s.fs.sectorsInUse bigEndian s.disk, sector < NumSectors
  names : ∀ i < NumDirEntries, ∀ j < NumDirEntries, (s.fs.directory s.disk).inUse i = true →
    (s.fs.directory s.disk).inUse j = true → i ≠ j → (s.fs.directory s.disk).key i ≠ (s.fs.directory s.disk).key j
  mapFile : FileHeader.headerAt bigEndian s.disk FreeMapSector = s.fs.freeMapFile
  directoryFile : FileHeader.headerAt bigEndian s.disk DirectorySector = s.fs.directoryFile
  ceil : ∀ sector, s.fs.HeaderIn bigEndian s.disk sector →
    (FileHeader.headerAt bigEndian s.disk sector).numSectors.toInt =
      ⌈((FileHeader.headerAt bigEndian s.disk sector).numBytes.toInt : ℚ) / SectorSize⌉
  returns : ∀ fresh op, s.Allowed bigEndian op → ∃ result after, s.step bigEndian fresh op = some (result,after)

theorem disk_laid (path : Runs bigEndian (State.Allowed bigEndian) log s) : Laid bigEndian s := by
  have inv := runs_inv (fun _ _ allowed => allowed) path
  have layout := inv.layout
  refine ⟨fun sector inside => layout.marked inside,layout.nodup,?_,?_,layout.mapHeader,layout.directoryHeader,
    fun sector header => layout.ceil header,?_⟩
  · intro sector member
    obtain ⟨slot,has⟩ := mem_sectorsInUse.mp member
    exact layout.allotted.inside slot sector has
  · intro i inside j inside' used used' differs same
    exact differs (layout.names i inside j inside' used used' same)
  · intro fresh op allowed
    obtain ⟨result,after,stepped,_⟩ := step_inv inv fresh allowed
    exact ⟨result,after,stepped⟩

end

theorem disk_laid_first : ∃ s, Runs false (State.Allowed false) firstCalls s ∧ Laid false s := by
  obtain ⟨s,h,path,_⟩ := first_run
  exact ⟨s,path,disk_laid path⟩

end Nachos.FileSys
