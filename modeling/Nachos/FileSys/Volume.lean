import Mathlib.Algebra.BigOperators.Group.Finset.Basic
import Mathlib.Order.Interval.Finset.Nat
import Nachos.FileSys.DirectoryRuns
import Nachos.FileSys.Sectors
import Nachos.Library.Trace

-- The file system as a map from names to byte arrays, and the runs of one thread beside it.
namespace Nachos.FileSys
open FileSystem State
open Directory (keyOf)

abbrev Name := List (BitVec 8)

-- The files by name; an open file by its name, and where it is positioned.
structure Volume where
  files : Finmap fun _ : Name => List (BitVec 8)
  handles : Nat → Option (Name × Int)

namespace Volume

def empty : Volume := ⟨∅,fun _ => none⟩

-- A header and the sectors of the data.
def sectorsFor (length : Nat) : Nat := 1 + divRoundUp length SectorSize

def sectorsOf (v : Volume) (key : Name) : Nat := ((v.files.lookup key).map fun data => sectorsFor data.length).getD 0

def taken (v : Volume) : Nat := v.files.keys.sum v.sectorsOf

-- The system itself has five sectors.
def Fits (v : Volume) (key : Name) (length : Nat) : Prop :=
  key ∉ v.files ∧ v.files.keys.card < NumDirEntries ∧ 5 + v.taken + sectorsFor length ≤ NumSectors

instance (v : Volume) (key : Name) (length : Nat) : Decidable (v.Fits key length) :=
  inferInstanceAs (Decidable (_ ∧ _ ∧ _))

def data (v : Volume) (key : Name) : List (BitVec 8) := (v.files.lookup key).getD []

def amount (v : Volume) (key : Name) (numBytes position : Int) : Nat :=
  min numBytes.toNat ((v.data key).length - position.toNat)

def bytes (v : Volume) (key : Name) (numBytes position : Int) : List (BitVec 8) :=
  ((v.data key).drop position.toNat).take numBytes.toNat

def overwrite (v : Volume) (key : Name) (from_ : Bytes) (numBytes position : Int) : Volume :=
  let n := v.amount key numBytes position
  let data := (v.data key).mapIdx fun i byte =>
    if position.toNat ≤ i ∧ i < position.toNat + n then from_ (i - position.toNat) else byte
  {v with files := v.files.insert key data}

def moveTo (v : Volume) (id : Nat) (position : Int) : Volume :=
  {v with handles := Function.update v.handles id ((v.handles id).map fun h => (h.1,position))}

-- What every call answers.
def result (v : Volume) : Op → Result
  | .create name initialSize => .bool (decide (v.Fits (keyOf name) initialSize.toInt.toNat))
  | .remove name => .bool (decide (keyOf name ∈ v.files))
  | .open_ name _ => .opened (decide (keyOf name ∈ v.files))
  | .close _ => .nothing
  | .seek _ _ => .nothing
  | .readAt id numBytes position => .bytes (((v.handles id).map fun h => v.bytes h.1 numBytes position).getD [])
  | .read id numBytes => .bytes (((v.handles id).map fun h => v.bytes h.1 numBytes h.2).getD [])
  | .writeAt id _ numBytes position => .count ((((v.handles id).map fun h => v.amount h.1 numBytes position).getD 0 : Nat))
  | .write id _ numBytes => .count ((((v.handles id).map fun h => v.amount h.1 numBytes h.2).getD 0 : Nat))

-- What every call leaves; a new file holds what happens to be in its sectors.
def after (v : Volume) (found : List (BitVec 8)) : Op → Volume
  | .create name initialSize =>
    if v.Fits (keyOf name) initialSize.toInt.toNat then {v with files := v.files.insert (keyOf name) found} else v
  | .remove name =>
    if keyOf name ∈ v.files then ⟨v.files.erase (keyOf name),fun id => (v.handles id).filter fun h => h.1 ≠ keyOf name⟩ else v
  | .open_ name id =>
    if keyOf name ∈ v.files then {v with handles := Function.update v.handles id (some (keyOf name,0))} else v
  | .close id => {v with handles := Function.update v.handles id none}
  | .seek id position => v.moveTo id position
  | .readAt _ _ _ => v
  | .read id numBytes => match v.handles id with
    | some (key,position) => v.moveTo id (position + (v.bytes key numBytes position).length)
    | none => v
  | .writeAt id from_ numBytes position => match v.handles id with
    | some (key,_) => v.overwrite key from_ numBytes position
    | none => v
  | .write id from_ numBytes => match v.handles id with
    | some (key,position) =>
      (v.overwrite key from_ numBytes position).moveTo id (position + v.amount key numBytes position)
    | none => v

-- A call with its result is a step of the map.
def Passes (v : Volume) (call : Op × Result) (w : Volume) : Prop :=
  call.2 = v.result call.1 ∧ ∃ found : List (BitVec 8),
    (∀ name initialSize, call.1 = .create name initialSize → found.length = initialSize.toInt.toNat) ∧ w = v.after found call.1

end Volume

-- The calls that are considered: sizes and positions within their bounds, and no use of an
-- open file that was removed.
def State.Served (s : State) (id : Nat) (numBytes position : Int) : Prop :=
  ∃ h, s.Serves id numBytes position h ∧ h.live = true

def State.Permits (s : State) : Op → Prop
  | .create _ initialSize => 0 ≤ initialSize.toInt ∧ initialSize.toInt ≤ MaxFileSize
  | .remove _ => True
  | .open_ _ id => s.handles id = none
  | .close id => (s.handles id).isSome
  | .seek id position => (∃ h, s.handles id = some h ∧ h.live = true) ∧ 0 ≤ position ∧ position < 2 ^ 31
  | .readAt id numBytes position | .writeAt id _ numBytes position => s.Served id numBytes position
  | .read id numBytes | .write id _ numBytes => ∃ h, s.Serves id numBytes h.seekPosition h ∧ h.live = true

-- The bytes of the file of an entry.
def FileSystem.contents (bigEndian : Bool) (fs : FileSystem) (disk : Disk) (i : Nat) : List (BitVec 8) :=
  take ((fs.header bigEndian disk i).byteAt disk) 0 (fs.header bigEndian disk i).fileLength.toNat

structure Refines (bigEndian : Bool) (s : State) (v : Volume) : Prop where
  inv : s.Inv bigEndian
  sizes : ∀ i < NumDirEntries, (s.fs.directory s.disk).inUse i = true → 0 ≤ (s.fs.header bigEndian s.disk i).fileLength
  files : ∀ key data, v.files.lookup key = some data ↔ ∃ i < NumDirEntries, (s.fs.directory s.disk).inUse i = true ∧
    (s.fs.directory s.disk).key i = key ∧ s.fs.contents bigEndian s.disk i = data
  handles : ∀ id, v.handles id = (s.handles id).bind fun h => if h.live then some (h.key,h.seekPosition) else none
  positions : ∀ id h, s.handles id = some h → 0 ≤ h.seekPosition ∧ h.seekPosition < 2 ^ 31

section
variable {bigEndian : Bool} {fs : FileSystem} {s : State} {v : Volume} {disk after : Disk} {name : Bytes} {key : Name}
  {initialSize : BitVec 32} {i : Nat}

theorem refines_mem (refines : Refines bigEndian s v) : key ∈ v.files ↔
    ∃ i < NumDirEntries, (s.fs.directory s.disk).inUse i = true ∧ (s.fs.directory s.disk).key i = key := by
  rw [Finmap.mem_iff]
  constructor
  · rintro ⟨data,found⟩
    obtain ⟨i,inside,used,same,_⟩ := (refines.files key data).mp found
    exact ⟨i,inside,used,same⟩
  · rintro ⟨i,inside,used,same⟩
    exact ⟨_,(refines.files key _).mpr ⟨i,inside,used,same,rfl⟩⟩

-- The directory finds the names of the map.
theorem refines_find (refines : Refines bigEndian s v) (name : Bytes) :
    ((s.fs.directory s.disk).findIndex name = none ∧ keyOf name ∉ v.files) ∨
    ∃ i < NumDirEntries, (s.fs.directory s.disk).findIndex name = some i ∧ (s.fs.directory s.disk).inUse i = true ∧
      (s.fs.directory s.disk).key i = keyOf name ∧ keyOf name ∈ v.files := by
  cases found : (s.fs.directory s.disk).findIndex name with
  | none =>
    refine .inl ⟨rfl,fun there => ?_⟩
    obtain ⟨i,inside,used,same⟩ := (refines_mem refines).mp there
    exact Directory.findIndex_none found inside used same
  | some i =>
    obtain ⟨_,_,inside,used,same⟩ := refines.inv.layout.find_some found
    exact .inr ⟨i,inside,rfl,used,same,(refines_mem refines).mpr ⟨i,inside,used,same⟩⟩

def FileSystem.entries (fs : FileSystem) (disk : Disk) : Finset Nat :=
  (Finset.range NumDirEntries).filter fun i => (fs.directory disk).inUse i

theorem mem_entries : i ∈ fs.entries disk ↔ i < NumDirEntries ∧ (fs.directory disk).inUse i = true := by
  simp [FileSystem.entries]

theorem entries_room : (fs.entries disk).card < NumDirEntries ↔ ∃ e < NumDirEntries, (fs.directory disk).inUse e = false := by
  have all : (Finset.range NumDirEntries).card = NumDirEntries := Finset.card_range _
  constructor
  · intro few
    by_contra none
    rw [not_exists] at none
    have full : fs.entries disk = Finset.range NumDirEntries := by
      refine Finset.filter_true_of_mem fun i member => ?_
      cases used : (fs.directory disk).inUse i with
      | true => rfl
      | false => exact absurd ⟨Finset.mem_range.mp member,used⟩ (none i)
    rw [full,all] at few
    exact absurd few (Nat.lt_irrefl _)
  · rintro ⟨e,inside,free⟩
    have less : fs.entries disk ⊂ Finset.range NumDirEntries :=
      Finset.filter_ssubset.mpr ⟨e,Finset.mem_range.mpr inside,by simp [free]⟩
    exact (Finset.card_lt_card less).trans_eq all

theorem refines_keys (refines : Refines bigEndian s v) :
    v.files.keys = (s.fs.entries s.disk).image (s.fs.directory s.disk).key ∧
    Set.InjOn (s.fs.directory s.disk).key (s.fs.entries s.disk) := by
  constructor
  · ext key
    rw [Finmap.mem_keys,refines_mem refines,Finset.mem_image]
    constructor
    · rintro ⟨i,inside,used,same⟩
      exact ⟨i,mem_entries.mpr ⟨inside,used⟩,same⟩
    · rintro ⟨i,member,same⟩
      exact ⟨i,(mem_entries.mp member).1,(mem_entries.mp member).2,same⟩
  · intro i one j two same
    have first := mem_entries.mp one
    have second := mem_entries.mp two
    exact refines.inv.layout.names i first.1 j second.1 first.2 second.2 same

theorem contents_length (i : Nat) :
    (fs.contents bigEndian disk i).length = (fs.header bigEndian disk i).fileLength.toNat := take_length _ _ _

theorem sectors_nat (n : Nat) : divRoundUp n SectorSize = (n + 127) / 128 := by
  have size : SectorSize = 128 := rfl
  unfold divRoundUp
  split
  · rw [size] at *
    omega
  · rw [size] at *
    omega

-- An entry has the sectors that its length needs.
theorem held_length (sound : (fs.header bigEndian disk i).Sound) (sign : 0 ≤ (fs.header bigEndian disk i).fileLength)
    (inside : i < NumDirEntries) (used : (fs.directory disk).inUse i = true) :
    (fs.held bigEndian disk (some i)).length = Volume.sectorsFor (fs.contents bigEndian disk i).length := by
  have count := sound.count
  rw [sectors_nonneg _ sign] at count
  rw [held_some inside used,List.length_cons,FileHeader.sectors,List.length_map,List.length_range,Volume.sectorsFor,
    contents_length,sectors_nat,count]
  omega

theorem refines_taken (refines : Refines bigEndian s v) :
    (s.fs.freeMap bigEndian s.disk).clearBits.card + 5 + v.taken = NumSectors := by
  have layout := refines.inv.layout
  obtain ⟨keys,injective⟩ := refines_keys refines
  have sum : v.taken = ((List.range NumDirEntries).map fun i => (s.fs.held bigEndian s.disk (some i)).length).sum := by
    rw [Volume.taken,keys,Finset.sum_image injective,FileSystem.entries,Finset.sum_filter,
      ← List.sum_toFinset _ List.nodup_range,List.toFinset_range]
    refine Finset.sum_congr rfl fun i member => ?_
    have inside := Finset.mem_range.mp member
    cases used : (s.fs.directory s.disk).inUse i with
    | true =>
      have found := (refines.files _ _).mpr ⟨i,inside,used,rfl,rfl⟩
      rw [if_pos rfl,held_length (layout.headers i inside used) (refines.sizes i inside used) inside used,Volume.sectorsOf,found]
      rfl
    | false =>
      rw [if_neg (by decide),held,if_neg (by simp [used])]
      rfl
  have total := layout.card
  rw [sectorsInUse,List.length_append,layout.mounted.system_length,List.length_flatMap] at total
  omega

-- There is room on the disk exactly when the map has room.
theorem room_fits (refines : Refines bigEndian s v) (sign : 0 ≤ initialSize.toInt) :
    s.fs.Room bigEndian s.disk name initialSize ↔ v.Fits (keyOf name) initialSize.toInt.toNat := by
  have free := refines_taken refines
  obtain ⟨keys,injective⟩ := refines_keys refines
  have card : v.files.keys.card = (s.fs.entries s.disk).card := by rw [keys,Finset.card_image_of_injOn injective]
  have slots : v.files.keys.card < NumDirEntries ↔ ∃ e < NumDirEntries, (s.fs.directory s.disk).inUse e = false := by
    rw [card,entries_room]
  have data : divRoundUpInt initialSize.toInt SectorSize = divRoundUp initialSize.toInt.toNat SectorSize := by
    rw [sectors_nonneg _ sign,sectors_nat]
    omega
  rw [Volume.Fits,slots,Volume.sectorsFor]
  constructor
  · rintro ⟨absent,slot,header,enough⟩
    rcases refines_find refines name with ⟨_,missing⟩ | ⟨i,_,found,_⟩
    · exact ⟨missing,slot,by omega⟩
    · rw [absent] at found
      cases found
  · rintro ⟨missing,slot,enough⟩
    rcases refines_find refines name with ⟨absent,_⟩ | ⟨i,_,_,_,_,there⟩
    · exact ⟨absent,slot,by omega,by omega⟩
    · exact absurd there missing

-- An entry whose header and bytes are left alone keeps its contents.
theorem contents_congr (header : fs.header bigEndian after i = fs.header bigEndian disk i)
    (bytes : ∀ b : Nat, (b : Int) < (fs.header bigEndian disk i).fileLength →
      (fs.header bigEndian disk i).byteAt after b = (fs.header bigEndian disk i).byteAt disk b) :
    fs.contents bigEndian after i = fs.contents bigEndian disk i := by
  rw [FileSystem.contents,header]
  refine List.map_congr_left fun b member => ?_
  have inside := List.mem_range.mp member
  rw [Nat.zero_add]
  exact bytes b (by omega)

theorem FileSystem.Enters.contents (enters : Enters bigEndian fs disk after name e first hdr rest) (layout : fs.Layout bigEndian disk)
    (inside : i < NumDirEntries) (used : (fs.directory disk).inUse i = true) :
    fs.contents bigEndian after i = fs.contents bigEndian disk i := by
  refine contents_congr (enters.headerOf layout inside used) fun b short => ?_
  refine FileHeader.byteAt_congr (layout.headers i inside used) ?_ short
  exact fun address member => enters.kept layout ((file_held inside used).2 _ member) rfl

theorem FileSystem.Frees.contents (frees : Frees bigEndian fs disk after e) (layout : fs.Layout bigEndian disk) (inside : i < NumDirEntries)
    (used : (fs.directory disk).inUse i = true) : fs.contents bigEndian after i = fs.contents bigEndian disk i := by
  refine contents_congr (frees.headerOf layout inside used) fun b short => ?_
  refine FileHeader.byteAt_congr (layout.headers i inside used) ?_ short
  exact fun address member => frees.kept layout ((file_held inside used).2 _ member) rfl

end

section
variable {bigEndian : Bool} {s : State} {v : Volume} {name : Bytes} {initialSize : BitVec 32} {h : Handle} {id : Nat}
  {numBytes position : Int}

theorem create_refines (refines : Refines bigEndian s v) (fresh : Nat → Bytes) (name : Bytes) (low : 0 ≤ initialSize.toInt)
    (high : initialSize.toInt ≤ MaxFileSize) :
    ∃ disk found, s.fs.create bigEndian s.disk fresh name initialSize =
        some (decide (v.Fits (keyOf name) initialSize.toInt.toNat),disk) ∧
      found.length = initialSize.toInt.toNat ∧ Refines bigEndian {s with disk} (v.after found (.create name initialSize)) := by
  have layout := refines.inv.layout
  by_cases room : s.fs.Room bigEndian s.disk name initialSize
  · have fits := (room_fits refines low).mp room
    obtain ⟨disk,e,first,hdr,rest,created,enters,size,_⟩ := layout.create_makes fresh high room
    obtain ⟨_,disk',created',inv⟩ := create_step refines.inv fresh name high
    rw [created] at created'
    cases created'
    have used : ∀ j, (s.fs.directory disk).inUse j = (decide (j = e) || (s.fs.directory s.disk).inUse j) := by
      intro j
      rw [enters.directory,Directory.enter_inUse]
    have keys : ∀ j, (s.fs.directory disk).key j = if j = e then keyOf name else (s.fs.directory s.disk).key j := by
      intro j
      rw [enters.directory,Directory.enter_key]
      rfl
    have length : hdr.fileLength = initialSize.toInt := by rw [FileHeader.fileLength,size]
    refine ⟨disk,s.fs.contents bigEndian disk e,?_,?_,?_⟩
    · rw [created,decide_eq_true fits]
    · rw [contents_length,enters.headerNew,length]
    · rw [Volume.after,if_pos fits]
      refine ⟨inv,?_,?_,refines.handles,refines.positions⟩
      · intro i inside active
        rw [used] at active
        by_cases same : i = e
        · rw [same,enters.headerNew,length]
          exact low
        · rw [decide_eq_false same,Bool.false_or] at active
          rw [enters.headerOf layout inside active]
          exact refines.sizes i inside active
      · intro key data
        by_cases new : key = keyOf name
        · rw [new,Finmap.lookup_insert]
          constructor
          · intro here
            cases here
            exact ⟨e,enters.inside,by simp [used],by rw [keys,if_pos rfl],rfl⟩
          · rintro ⟨i,inside,active,same,rfl⟩
            rw [used] at active
            by_cases mine : i = e
            · rw [mine]
            · rw [decide_eq_false mine,Bool.false_or] at active
              rw [keys,if_neg mine] at same
              exact absurd ((refines_mem refines).mpr ⟨i,inside,active,same⟩) fits.1
        · rw [Finmap.lookup_insert_of_ne _ new,refines.files]
          constructor
          · rintro ⟨i,inside,active,same,rfl⟩
            have differs : i ≠ e := by
              rintro rfl
              rw [enters.free] at active
              cases active
            exact ⟨i,inside,by rw [used,active,Bool.or_true],by rw [keys,if_neg differs,same],
              enters.contents layout inside active⟩
          · rintro ⟨i,inside,active,same,rfl⟩
            have differs : i ≠ e := by
              rintro rfl
              rw [keys,if_pos rfl] at same
              exact new same.symm
            rw [used,decide_eq_false differs,Bool.false_or] at active
            rw [keys,if_neg differs] at same
            exact ⟨i,inside,active,same,(enters.contents layout inside active).symm⟩
  · have full : ¬v.Fits (keyOf name) initialSize.toInt.toNat := fun fits => room ((room_fits refines low).mpr fits)
    refine ⟨s.disk,List.replicate initialSize.toInt.toNat 0,?_,List.length_replicate,?_⟩
    · rw [create_refuses layout.mounted fresh room,decide_eq_false full]
    · rw [Volume.after,if_neg full]
      exact refines

-- A live handle is on a file of the map.
theorem handle_file (refines : Refines bigEndian s v) (opened : s.handles id = some h) (live : h.live = true) :
    v.handles id = some (h.key,h.seekPosition) ∧ ∃ i < NumDirEntries, (s.fs.directory s.disk).inUse i = true ∧
      (s.fs.directory s.disk).key i = h.key ∧ h.hdr = s.fs.header bigEndian s.disk i ∧
      v.files.lookup h.key = some (s.fs.contents bigEndian s.disk i) := by
  refine ⟨?_,?_⟩
  · rw [refines.handles,opened,Option.bind_some,if_pos live]
  · obtain ⟨i,inside,used,key,same⟩ := refines.inv.handles id h opened live
    exact ⟨i,inside,used,key,same,(refines.files _ _).mpr ⟨i,inside,used,key,rfl⟩⟩

theorem remove_refines (refines : Refines bigEndian s v) (fresh : Nat → Bytes) (name : Bytes) (found : List (BitVec 8)) :
    ∃ after, s.step bigEndian fresh (.remove name) = some (.bool (decide (keyOf name ∈ v.files)),after) ∧
      Refines bigEndian after (v.after found (.remove name)) := by
  have layout := refines.inv.layout
  obtain ⟨_,after,stepped,inv⟩ := remove_step refines.inv fresh name
  rcases refines_find refines name with ⟨absent,missing⟩ | ⟨e,_,entry,_,key,there⟩
  · have kept : s.step bigEndian fresh (.remove name) = some (.bool false,s) := by
      simp only [step,layout.remove_absent fresh absent,Option.bind_eq_bind,Option.bind_some]
      rfl
    refine ⟨s,?_,?_⟩
    · rw [kept,decide_eq_false missing]
    · rw [Volume.after,if_neg missing]
      exact refines
  · obtain ⟨disk,removed,frees⟩ := layout.remove_frees fresh entry
    have goes := step_remove removed
    rw [goes] at stepped
    cases stepped
    have used : ∀ j, (s.fs.directory disk).inUse j = (!decide (j = e) && (s.fs.directory s.disk).inUse j) := by
      intro j
      rw [frees.directory,Directory.free_inUse]
    have keys : ∀ j, (s.fs.directory disk).key j = (s.fs.directory s.disk).key j := by
      intro j
      rw [frees.directory,Directory.free_key]
    have active : ∀ j, (s.fs.directory disk).inUse j = true ↔ j ≠ e ∧ (s.fs.directory s.disk).inUse j = true := by
      intro j
      rw [used]
      simp
    refine ⟨_,by rw [goes,decide_eq_true there],?_⟩
    rw [Volume.after,if_pos there]
    refine ⟨inv,?_,?_,?_,?_⟩
    · intro i inside now
      obtain ⟨_,before⟩ := (active i).mp now
      rw [frees.headerOf layout inside before]
      exact refines.sizes i inside before
    · intro key' data
      by_cases old : key' = keyOf name
      · rw [old,Finmap.lookup_erase]
        constructor
        · intro wrong
          cases wrong
        · rintro ⟨i,inside,now,same,_⟩
          obtain ⟨differs,before⟩ := (active i).mp now
          rw [keys] at same
          exact absurd (layout.names i inside e frees.inside before frees.used (same.trans key.symm)) differs
      · rw [Finmap.lookup_erase_ne old,refines.files]
        constructor
        · rintro ⟨i,inside,before,same,rfl⟩
          have differs : i ≠ e := by
            rintro rfl
            exact old (same.symm.trans key)
          exact ⟨i,inside,(active i).mpr ⟨differs,before⟩,by rw [keys,same],frees.contents layout inside before⟩
        · rintro ⟨i,inside,now,same,rfl⟩
          obtain ⟨_,before⟩ := (active i).mp now
          rw [keys] at same
          exact ⟨i,inside,before,same,(frees.contents layout inside before).symm⟩
    · intro id
      dsimp only
      rw [refines.handles]
      cases opened : s.handles id with
      | none => rfl
      | some h =>
        rw [Option.map_some,Option.bind_some,Option.bind_some]
        by_cases mine : h.key = chars FileNameMaxLen name
        · rw [Handle.removed,if_pos mine]
          cases h.live with
          | true => simp [mine,keyOf]
          | false => rfl
        · rw [Handle.removed,if_neg mine]
          cases h.live with
          | true => simp [mine,keyOf]
          | false => rfl
    · intro id h opened
      obtain ⟨old,before,rfl⟩ := Option.map_eq_some_iff.mp opened
      have place : (old.removed name).seekPosition = old.seekPosition := by
        unfold Handle.removed
        split <;> rfl
      rw [place]
      exact refines.positions id old before

-- What the map has of an open file is what its header has on the disk.
theorem handle_data (refines : Refines bigEndian s v) (opened : s.handles id = some h) (live : h.live = true) :
    v.data h.key = take (h.hdr.byteAt s.disk) 0 h.hdr.fileLength.toNat ∧ 0 ≤ h.hdr.fileLength := by
  obtain ⟨_,i,inside,used,_,same,found⟩ := handle_file refines opened live
  rw [Volume.data,found,same]
  exact ⟨rfl,refines.sizes i inside used⟩

theorem amount_count (numBytes : Int) (refines : Refines bigEndian s v) (opened : s.handles id = some h) (live : h.live = true)
    (low : 0 ≤ position) : v.amount h.key numBytes position = h.hdr.count numBytes position := by
  obtain ⟨data,sign⟩ := handle_data refines opened live
  rw [Volume.amount,data,take_length,FileHeader.count]
  split
  · omega
  · omega

theorem bytes_take (numBytes : Int) (refines : Refines bigEndian s v) (opened : s.handles id = some h) (live : h.live = true)
    (low : 0 ≤ position) :
    v.bytes h.key numBytes position = take (h.hdr.byteAt s.disk) position.toNat (h.hdr.count numBytes position) := by
  have count : min numBytes.toNat (h.hdr.fileLength.toNat - position.toNat) = h.hdr.count numBytes position := by
    have amount := amount_count numBytes refines opened live low
    rwa [Volume.amount,(handle_data refines opened live).1,take_length] at amount
  rw [Volume.bytes,(handle_data refines opened live).1]
  refine List.ext_getElem ?_ fun i one two => ?_
  · rw [List.length_take,List.length_drop,take_length,take_length,count]
  · simp [take]

-- A write changes the one file that it is meant for.
theorem write_refines (refines : Refines bigEndian s v) (opened : s.handles id = some h) (live : h.live = true)
    (low : 0 ≤ position) {disk : Disk} {from_ : Bytes}
    (written : h.hdr.Written s.disk disk from_ position.toNat (h.hdr.count numBytes position))
    (isolated : Isolated bigEndian s h disk) : Refines bigEndian {s with disk} (v.overwrite h.key from_ numBytes position) := by
  have layout := refines.inv.layout
  have keeps := isolated.keeps
  have directory : s.fs.directory disk = s.fs.directory s.disk := keeps.directory layout.mounted
  obtain ⟨_,e,inside,used,key,same,found⟩ := handle_file refines opened live
  obtain ⟨data,_⟩ := handle_data refines opened live
  have header : ∀ i < NumDirEntries, (s.fs.directory s.disk).inUse i = true →
      s.fs.header bigEndian disk i = s.fs.header bigEndian s.disk i :=
    fun i inside used => keeps.header layout.mounted inside used
  -- The file that is written to, and any other one.
  have mine : s.fs.contents bigEndian disk e = (v.data h.key).mapIdx fun i byte =>
      if position.toNat ≤ i ∧ i < position.toNat + v.amount h.key numBytes position then from_ (i - position.toNat) else byte := by
    rw [FileSystem.contents,header e inside used,← same,data,amount_count numBytes refines opened live low]
    refine List.ext_getElem ?_ fun i one two => ?_
    · rw [List.length_mapIdx,take_length,take_length]
    · rw [take_length] at one
      rw [List.getElem_mapIdx]
      simp only [take,List.getElem_map,List.getElem_range,Nat.zero_add]
      exact written.bytes i (by omega)
  have others : ∀ i < NumDirEntries, (s.fs.directory s.disk).inUse i = true → (s.fs.directory s.disk).key i ≠ h.key →
      s.fs.contents bigEndian disk i = s.fs.contents bigEndian s.disk i := by
    intro i inside used other
    exact contents_congr (header i inside used) (isolated.files i inside used fun wrong => other wrong.2)
  refine ⟨refines.inv.kept keeps,?_,?_,refines.handles,refines.positions⟩
  · intro i inside' used'
    rw [directory] at used'
    rw [header i inside' used']
    exact refines.sizes i inside' used'
  · intro key' data'
    dsimp only
    rw [directory,Volume.overwrite]
    by_cases here : key' = h.key
    · rw [here,Finmap.lookup_insert,← mine]
      constructor
      · intro wrote
        cases wrote
        exact ⟨e,inside,used,key,rfl⟩
      · rintro ⟨i,inside',used',same',rfl⟩
        rw [layout.names i inside' e inside used' used (same'.trans key.symm)]
    · rw [Finmap.lookup_insert_of_ne _ here,refines.files]
      constructor
      · rintro ⟨i,inside',used',same',rfl⟩
        exact ⟨i,inside',used',same',others i inside' used' (by rw [same']; exact here)⟩
      · rintro ⟨i,inside',used',same',rfl⟩
        exact ⟨i,inside',used',same',(others i inside' used' (by rw [same']; exact here)).symm⟩

theorem moved_refines (refines : Refines bigEndian s v) (opened : s.handles id = some h) (live : h.live = true)
    (low : 0 ≤ position) (high : position < 2 ^ 31) :
    Refines bigEndian ⟨s.fs,s.disk,Function.update s.handles id (some {h with seekPosition := position})⟩ (v.moveTo id position) := by
  refine ⟨refines.inv.reposition opened position,refines.sizes,refines.files,?_,?_⟩
  · intro id'
    dsimp only [Volume.moveTo]
    by_cases same : id' = id
    · rw [same,Function.update_self,Function.update_self,(handle_file refines opened live).1,Option.bind_some,if_pos live]
      rfl
    · rw [Function.update_of_ne same,Function.update_of_ne same]
      exact refines.handles id'
  · intro id' h' now
    dsimp only at now
    by_cases same : id' = id
    · rw [same,Function.update_self] at now
      cases now
      exact ⟨low,high⟩
    · rw [Function.update_of_ne same] at now
      exact refines.positions id' h' now

-- Advancing by what was transferred stays within the ints.
theorem advanced (numBytes : Int) (sound : h.hdr.Sound) (low : 0 ≤ h.seekPosition) (high : h.seekPosition < 2 ^ 31) :
    wrap (h.seekPosition + (h.hdr.count numBytes h.seekPosition : Nat)) = h.seekPosition + (h.hdr.count numBytes h.seekPosition : Nat) ∧
      h.seekPosition + (h.hdr.count numBytes h.seekPosition : Nat) < 2 ^ 31 := by
  have length := sound.length
  have size : MaxFileSize = 3840 := rfl
  have bound : h.seekPosition + (h.hdr.count numBytes h.seekPosition : Nat) < 2 ^ 31 := by
    rw [FileHeader.count]
    split <;> omega
  exact ⟨wrap_eq (by omega) bound,bound⟩

theorem opened_refines (refines : Refines bigEndian s v) (free : s.handles id = none) {i : Nat}
    (found : (s.fs.directory s.disk).findIndex name = some i) (fresh : Nat → Bytes) :
    Refines bigEndian ⟨s.fs,s.disk,Function.update s.handles id
      (some ⟨s.fs.header bigEndian s.disk i,0,chars FileNameMaxLen name,true⟩)⟩
      {v with handles := Function.update v.handles id (some (keyOf name,0))} := by
  obtain ⟨_,after,stepped,inv⟩ := step_inv refines.inv fresh (show s.Allowed bigEndian (.open_ name id) from free)
  rw [step_open refines.inv.layout fresh found id] at stepped
  cases stepped
  refine ⟨inv,refines.sizes,refines.files,?_,?_⟩
  · intro id'
    dsimp only
    by_cases same : id' = id
    · rw [same,Function.update_self,Function.update_self]
      rfl
    · rw [Function.update_of_ne same,Function.update_of_ne same]
      exact refines.handles id'
  · intro id' h' now
    dsimp only at now
    by_cases same : id' = id
    · rw [same,Function.update_self] at now
      cases now
      exact ⟨le_refl 0,show (0 : Int) < 2 ^ 31 by decide⟩
    · rw [Function.update_of_ne same] at now
      exact refines.positions id' h' now

theorem closed_refines (refines : Refines bigEndian s v) (id : Nat) :
    Refines bigEndian ⟨s.fs,s.disk,Function.update s.handles id none⟩ {v with handles := Function.update v.handles id none} := by
  have kept : ∀ id' h', Function.update s.handles id none id' = some h' → s.handles id' = some h' := by
    intro id' h' now
    by_cases same : id' = id
    · rw [same,Function.update_self] at now
      cases now
    · rwa [Function.update_of_ne same] at now
  refine ⟨refines.inv.rehandle _ fun id' h' now => ⟨h',kept id' h' now,rfl,rfl,rfl⟩,refines.sizes,refines.files,?_,?_⟩
  · intro id'
    dsimp only
    by_cases same : id' = id
    · rw [same,Function.update_self,Function.update_self]
      rfl
    · rw [Function.update_of_ne same,Function.update_of_ne same]
      exact refines.handles id'
  · exact fun id' h' now => refines.positions id' h' (kept id' h' now)

-- Every call that is considered returns, and does what the map does.
theorem step_refines (refines : Refines bigEndian s v) (fresh : Nat → Bytes) (op : Op) (permits : s.Permits op) :
    ∃ result after w, s.step bigEndian fresh op = some (result,after) ∧ v.Passes (op,result) w ∧ Refines bigEndian after w := by
  have same : ∀ found : List (BitVec 8), (∀ name initialSize, op ≠ .create name initialSize) →
      v.Passes (op,v.result op) (v.after found op) :=
    fun found other => ⟨rfl,found,fun name initialSize wrong => absurd wrong (other name initialSize),rfl⟩
  cases op with
  | create name initialSize =>
    obtain ⟨disk,found,created,length,next⟩ := create_refines refines fresh name permits.1 permits.2
    refine ⟨_,{s with disk},_,?_,⟨rfl,found,?_,rfl⟩,next⟩
    · simp only [step,created,Option.bind_eq_bind,Option.bind_some]
    · intro name' initialSize' here
      cases here
      exact length
  | remove name =>
    obtain ⟨after,stepped,next⟩ := remove_refines refines fresh name []
    exact ⟨_,after,_,stepped,same [] (fun _ _ wrong => by cases wrong),next⟩
  | open_ name id =>
    rcases refines_find refines name with ⟨absent,missing⟩ | ⟨i,_,found,_,_,there⟩
    · have opens := open_spec refines.inv.layout fresh name
      rw [absent] at opens
      refine ⟨_,s,_,?_,same [] (fun _ _ wrong => by cases wrong),?_⟩
      · simp only [step,opens,Option.map_none,Option.bind_eq_bind,Option.bind_some,Volume.result,decide_eq_false missing]
      · rw [Volume.after,if_neg missing]
        exact refines
    · have stepped := step_open refines.inv.layout fresh found id
      have answer : v.result (.open_ name id) = .opened true := by rw [Volume.result,decide_eq_true there]
      rw [← answer] at stepped
      refine ⟨_,_,_,stepped,same [] (fun _ _ wrong => by cases wrong),?_⟩
      rw [Volume.after,if_pos there]
      exact opened_refines refines permits found fresh
  | close id =>
    obtain ⟨h,opened⟩ := Option.isSome_iff_exists.mp permits
    refine ⟨_,_,_,?_,same [] (fun _ _ wrong => by cases wrong),closed_refines refines id⟩
    simp only [step,opened,Option.bind_eq_bind,Option.bind_some,Volume.result]
  | seek id position =>
    obtain ⟨⟨h,opened,live⟩,low,high⟩ := permits
    refine ⟨_,_,_,?_,same [] (fun _ _ wrong => by cases wrong),moved_refines refines opened live low high⟩
    simp only [step,opened,Option.bind_eq_bind,Option.bind_some,Volume.result]
  | readAt id numBytes position =>
    obtain ⟨h,serves,live⟩ := permits
    have file := (handle_file refines serves.opened live).1
    refine ⟨_,s,_,?_,same [] (fun _ _ wrong => by cases wrong),refines⟩
    simp only [step,serves.opened,read_step refines.inv serves,Option.bind_eq_bind,Option.bind_some,Volume.result,file,
      Option.map_some,Option.getD_some,bytes_take numBytes refines serves.opened live serves.low]
  | read id numBytes =>
    obtain ⟨h,serves,live⟩ := permits
    have file := (handle_file refines serves.opened live).1
    obtain ⟨low,high⟩ := refines.positions id h serves.opened
    have moves := advanced numBytes (refines.inv.sound id h serves.opened) low high
    have data := bytes_take numBytes refines serves.opened live low
    refine ⟨_,⟨s.fs,s.disk,Function.update s.handles id (some {h with seekPosition := h.seekPosition +
      (h.hdr.count numBytes h.seekPosition : Nat)})⟩,_,?_,same [] (fun _ _ wrong => by cases wrong),?_⟩
    · simp only [step,serves.opened,read_step refines.inv serves,Option.bind_eq_bind,Option.bind_some,Volume.result,file,
        Option.map_some,Option.getD_some,data,take_length,moves.1]
    · simp only [Volume.after,file,data,take_length]
      exact moved_refines refines serves.opened live (by omega) moves.2
  | writeAt id from_ numBytes position =>
    obtain ⟨h,serves,live⟩ := permits
    have file := (handle_file refines serves.opened live).1
    obtain ⟨disk,wrote,written,isolated⟩ := write_step refines.inv serves (.inl live) (fresh 0) from_
    refine ⟨_,{s with disk},_,?_,same [] (fun _ _ wrong => by cases wrong),?_⟩
    · simp only [step,serves.opened,wrote,Option.bind_eq_bind,Option.bind_some,Volume.result,file,Option.map_some,
        Option.getD_some,amount_count numBytes refines serves.opened live serves.low]
    · simp only [Volume.after,file]
      exact write_refines refines serves.opened live serves.low written isolated
  | write id from_ numBytes =>
    obtain ⟨h,serves,live⟩ := permits
    have file := (handle_file refines serves.opened live).1
    obtain ⟨low,high⟩ := refines.positions id h serves.opened
    have moves := advanced numBytes (refines.inv.sound id h serves.opened) low high
    have amount := amount_count numBytes refines serves.opened live low
    obtain ⟨disk,wrote,written,isolated⟩ := write_step refines.inv serves (.inl live) (fresh 0) from_
    have wrote_ := write_refines refines serves.opened live low written isolated
    refine ⟨_,⟨s.fs,disk,Function.update s.handles id (some {h with seekPosition := h.seekPosition +
      (h.hdr.count numBytes h.seekPosition : Nat)})⟩,_,?_,same [] (fun _ _ wrong => by cases wrong),?_⟩
    · simp only [step,serves.opened,wrote,Option.bind_eq_bind,Option.bind_some,Volume.result,file,Option.map_some,
        Option.getD_some,amount,moves.1]
    · simp only [Volume.after,file,amount]
      exact moved_refines wrote_ serves.opened live (by omega) moves.2

-- The formatted disk is the empty map.
theorem format_refines {fs : FileSystem} {disk after : Disk} {fresh : Nat → Bytes}
    (formats : format bigEndian disk fresh = some (fs,after)) : Refines bigEndian ⟨fs,after,fun _ => none⟩ Volume.empty := by
  obtain ⟨fs',after',formats',formatted⟩ := format_spec bigEndian disk fresh
  rw [formats] at formats'
  cases formats'
  refine ⟨runs_allowed (.start formats),?_,?_,fun _ => rfl,?_⟩
  · intro i _ used
    rw [formatted.unused] at used
    cases used
  · intro key data
    rw [show Volume.empty.files = ∅ from rfl,Finmap.lookup_empty]
    constructor
    · intro wrong
      cases wrong
    · rintro ⟨i,_,used,_⟩
      rw [formatted.unused] at used
      cases used
  · intro id h wrong
    cases wrong

-- What is on the disk and what is open determine the map.
theorem refines_unique {w : Volume} (refines : Refines bigEndian s v) (same : Refines bigEndian s w) : v = w := by
  have files : v.files = w.files := by
    refine Finmap.ext_lookup fun key => Option.ext fun data => ?_
    rw [refines.files key data,same.files key data]
  have handles : v.handles = w.handles := funext fun id => (refines.handles id).trans (same.handles id).symm
  cases v
  cases w
  cases files
  cases handles
  rfl

-- A permitted call prolongs a run, with the map's answer.
theorem runs_permitted {log : List (Op × Result)} (path : Runs bigEndian State.Permits log s)
    (refines : Refines bigEndian s v) (op : Op) (permits : s.Permits op) :
    ∃ after w, Runs bigEndian State.Permits ((op,v.result op) :: log) after ∧ v.Passes (op,v.result op) w ∧
      Refines bigEndian after w := by
  obtain ⟨result,after,w,stepped,passes,next⟩ := step_refines refines (fun _ _ => 0) op permits
  obtain rfl : result = v.result op := passes.1
  exact ⟨after,w,.call path permits stepped,passes,next⟩

-- What the map has open serves requests.
theorem handle_serves {position : Int} (refines : Refines bigEndian s v) (opened : v.handles id = some (key,position))
    {numBytes : Int} (high : position + numBytes < 2 ^ 31) :
    ∃ h, s.Serves id numBytes position h ∧ h.live = true ∧ h.seekPosition = position := by
  have both := refines.handles id
  rw [opened] at both
  obtain ⟨h,there,live⟩ := Option.bind_eq_some_iff.mp both.symm
  rw [Option.ite_none_right_eq_some,Option.some.injEq,Prod.mk.injEq] at live
  obtain ⟨live,_,rfl⟩ := live
  exact ⟨h,⟨there,(refines.positions id h there).1,high⟩,live,rfl⟩

-- Every run of one thread on a formatted disk is a run of the map, with the same answers; and
-- no call of such a run fails.
theorem file_system_refines_map {log : List (Op × Result)} (path : Runs bigEndian State.Permits log s) :
    ∃ v, Protocol.Trace Volume.empty Volume.Passes v log ∧ Refines bigEndian s v ∧
      ∀ fresh op, s.Permits op → ∃ result after, s.step bigEndian fresh op = some (result,after) := by
  have returns : ∀ s v, Refines bigEndian s v → ∀ fresh op, s.Permits op →
      ∃ result after, s.step bigEndian fresh op = some (result,after) := by
    intro s v refines fresh op permits
    obtain ⟨result,after,_,stepped,_⟩ := step_refines refines fresh op permits
    exact ⟨result,after,stepped⟩
  induction path with
  | start formats =>
    have refines := format_refines formats
    exact ⟨_,.start,refines,returns _ _ refines⟩
  | @call log s after fresh op result prior permits stepped ih =>
    obtain ⟨v,trace,refines,_⟩ := ih
    obtain ⟨result',after',w,stepped',passes,next⟩ := step_refines refines fresh op permits
    rw [stepped] at stepped'
    cases stepped'
    exact ⟨w,.step trace passes,next,returns _ _ next⟩

end

-- A file that is created, opened, written, read back, and removed twice.
def wholeCalls : List (Op × Result) :=
  [(.remove (letter 97),.bool false),(.remove (letter 97),.bool true),(.readAt 0 2 0,.bytes [7,7]),
    (.write 0 (fun _ => 7) 2,.count 2),(.open_ (letter 97) 0,.opened true),(.create (letter 97) 3,.bool true)]

theorem whole_run : ∃ s, Runs false State.Permits wholeCalls s := by
  obtain ⟨fs,disk,formats,_⟩ := format_spec false zeros fun _ => zeros
  have start : Runs false State.Permits [] ⟨fs,disk,fun _ => none⟩ := .start formats
  have empty := format_refines formats
  have fits : Volume.empty.Fits (keyOf (letter 97)) (3 : BitVec 32).toInt.toNat := by decide
  obtain ⟨disk,found,created,length,refines⟩ :=
    create_refines empty (fun _ => zeros) (letter 97) (show 0 ≤ (3 : BitVec 32).toInt by decide) (by decide)
  rw [decide_eq_true fits] at created
  have creates := Runs.call start (show State.Permits _ (.create _ _) from ⟨by decide,by decide⟩) (step_create created)
  rw [Volume.after,if_pos fits] at refines
  -- What is found in the new file is not known, but there are three bytes of it.
  obtain ⟨a,b,c,rfl⟩ := List.length_eq_three.mp length
  obtain ⟨_,_,opens,⟨_,_,_,rfl⟩,refines⟩ := runs_permitted creates refines (.open_ (letter 97) 0) rfl
  obtain ⟨h,serves,live,position⟩ := handle_serves refines (show Volume.handles _ 0 = some (keyOf (letter 97),0) from rfl)
    (show (0 : Int) + 2 < 2 ^ 31 by decide)
  obtain ⟨_,_,writes,⟨_,_,_,rfl⟩,refines⟩ := runs_permitted opens refines (.write 0 (fun _ => 7) 2)
    ⟨h,position ▸ serves,live⟩
  obtain ⟨h,serves,live,_⟩ := handle_serves refines (show Volume.handles _ 0 = some (keyOf (letter 97),2) from rfl)
    (show (2 : Int) + 0 < 2 ^ 31 by decide)
  obtain ⟨_,_,reads,⟨_,_,_,rfl⟩,refines⟩ := runs_permitted writes refines (.readAt 0 2 0)
    ⟨h,⟨serves.opened,by decide,by decide⟩,live⟩
  obtain ⟨_,_,removes,⟨_,_,_,rfl⟩,refines⟩ := runs_permitted reads refines (.remove (letter 97)) trivial
  obtain ⟨s,_,again,_⟩ := runs_permitted removes refines (.remove (letter 97)) trivial
  exact ⟨s,again⟩

theorem file_system_refines_map_whole : ∃ s v, Protocol.Trace Volume.empty Volume.Passes v wholeCalls ∧ Refines false s v := by
  obtain ⟨s,path⟩ := whole_run
  obtain ⟨v,trace,refines,_⟩ := file_system_refines_map path
  exact ⟨s,v,trace,refines⟩

end Nachos.FileSys
