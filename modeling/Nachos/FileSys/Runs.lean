import Nachos.FileSys.Layout

-- One thread's use of the file system, with any number of open files.
namespace Nachos.FileSys

-- An OpenFile; with the name it was opened under, and whether the file has been
-- there ever since.
structure Handle where
  hdr : FileHeader
  seekPosition : Int
  key : List (BitVec 8)
  live : Bool

structure State where
  fs : FileSystem
  disk : Disk
  handles : Nat → Option Handle

inductive Op where
  | create (name : Bytes) (initialSize : BitVec 32)
  | remove (name : Bytes)
  | open_ (name : Bytes) (id : Nat)
  | close (id : Nat)
  | seek (id : Nat) (position : Int)
  | read (id : Nat) (numBytes : Int)
  | write (id : Nat) (from_ : Bytes) (numBytes : Int)
  | readAt (id : Nat) (numBytes position : Int)
  | writeAt (id : Nat) (from_ : Bytes) (numBytes position : Int)

inductive Result where
  | bool (success : Bool)
  | opened (found : Bool)
  | nothing
  | bytes (data : List (BitVec 8))
  | count (numBytes : Int)

def Handle.removed (h : Handle) (name : Bytes) : Handle :=
  if h.key = chars FileNameMaxLen name then {h with live := false} else h

@[simp] theorem Handle.removed_hdr (h : Handle) (name : Bytes) : (h.removed name).hdr = h.hdr := by
  unfold Handle.removed
  split <;> rfl

namespace State
variable (bigEndian : Bool)

-- `none` is a failed ASSERT, an access outside an object, or a handle that is not open.
def step (s : State) (fresh : Nat → Bytes) : Op → Option (Result × State)
  | .create name initialSize => do
    let (success,disk) ← s.fs.create bigEndian s.disk fresh name initialSize
    some (.bool success,{s with disk})
  | .remove name => do
    let (success,disk) ← s.fs.remove bigEndian s.disk fresh name
    some (.bool success,if success then ⟨s.fs,disk,fun id => (s.handles id).map fun h => h.removed name⟩ else {s with disk})
  | .open_ name id => do
    match ← s.fs.open_ bigEndian s.disk fresh name with
    | some hdr =>
      some (.opened true,{s with handles := Function.update s.handles id (some ⟨hdr,0,chars FileNameMaxLen name,true⟩)})
    | none => some (.opened false,s)
  | .close id => do
    let _ ← s.handles id
    some (.nothing,{s with handles := Function.update s.handles id none})
  | .seek id position => do
    let h ← s.handles id
    some (.nothing,{s with handles := Function.update s.handles id (some {h with seekPosition := position})})
  | .readAt id numBytes position => do
    let h ← s.handles id
    let data ← h.hdr.readAt s.disk (fresh 0) numBytes position
    some (.bytes data,s)
  | .writeAt id from_ numBytes position => do
    let h ← s.handles id
    let (result,disk) ← h.hdr.writeAt s.disk (fresh 0) from_ numBytes position
    some (.count result,{s with disk})
  | .read id numBytes => do
    let h ← s.handles id
    let data ← h.hdr.readAt s.disk (fresh 0) numBytes h.seekPosition
    some (.bytes data,⟨s.fs,s.disk,
      Function.update s.handles id (some {h with seekPosition := wrap (h.seekPosition + data.length)})⟩)
  | .write id from_ numBytes => do
    let h ← s.handles id
    let (result,disk) ← h.hdr.writeAt s.disk (fresh 0) from_ numBytes h.seekPosition
    some (.count result,⟨s.fs,disk,
      Function.update s.handles id (some {h with seekPosition := wrap (h.seekPosition + result)})⟩)

-- A request through an open file, within the ints.
structure Serves (s : State) (id : Nat) (numBytes position : Int) (h : Handle) : Prop where
  opened : s.handles id = some h
  low : 0 ≤ position
  high : position + numBytes < 2 ^ 31

-- The file is still there, or what it had is still unused.
def Owns (s : State) (h : Handle) : Prop :=
  h.live = true ∨ ∀ sector ∈ h.hdr.sectors, sector ∈ (s.fs.freeMap bigEndian s.disk).clearBits

def Allowed (s : State) : Op → Prop
  | .create _ initialSize => initialSize.toInt ≤ MaxFileSize
  | .remove _ => True
  | .open_ _ id => s.handles id = none
  | .close id | .seek id _ => (s.handles id).isSome
  | .readAt id numBytes position => ∃ h, s.Serves id numBytes position h
  | .read id numBytes => ∃ h, s.Serves id numBytes h.seekPosition h
  | .writeAt id _ numBytes position => ∃ h, s.Serves id numBytes position h ∧ s.Owns bigEndian h
  | .write id _ numBytes => ∃ h, s.Serves id numBytes h.seekPosition h ∧ s.Owns bigEndian h

-- The layout of the disk, and open files that are what the disk has.
structure Inv (s : State) : Prop where
  layout : s.fs.Layout bigEndian s.disk
  sound : ∀ id h, s.handles id = some h → h.hdr.Sound
  handles : ∀ id h, s.handles id = some h → h.live = true →
    ∃ i < NumDirEntries, (s.fs.directory s.disk).inUse i = true ∧ (s.fs.directory s.disk).key i = h.key ∧
      h.hdr = s.fs.header bigEndian s.disk i

end State

section
variable {bigEndian : Bool} {s after : State} {fresh : Nat → Bytes} {initialSize : BitVec 32} {numBytes position : Int} {disk : Disk}
  {id : Nat} {h : Handle}
open FileSystem State

theorem open_spec (layout : s.fs.Layout bigEndian s.disk) (fresh : Nat → Bytes) (name : Bytes) :
    s.fs.open_ bigEndian s.disk fresh name =
      some (((s.fs.directory s.disk).findIndex name).map fun i => s.fs.header bigEndian s.disk i) := by
  unfold FileSystem.open_
  rw [fetchDirectory layout.mounted s.disk (fresh 0) (fresh 1)]
  simp only [Option.bind_eq_bind,Option.bind_some]
  cases found : (s.fs.directory s.disk).findIndex name with
  | none =>
    rw [find_none found]
    rfl
  | some i =>
    obtain ⟨sector,bound,_⟩ := layout.find_some found
    rw [sector,if_pos (by omega),FileHeader.fetchFrom_nat bigEndian s.disk bound]
    rfl

-- Creating a file leaves the open files what they were.
theorem create_step (inv : s.Inv bigEndian) (fresh : Nat → Bytes) (name : Bytes)
    (length : initialSize.toInt ≤ MaxFileSize) :
    ∃ success disk, s.fs.create bigEndian s.disk fresh name initialSize = some (success,disk) ∧
      ({s with disk} : State).Inv bigEndian := by
  by_cases room : s.fs.Room bigEndian s.disk name initialSize
  · obtain ⟨disk,e,first,hdr,rest,created,enters,_,_⟩ := inv.layout.create_makes fresh length room
    refine ⟨true,disk,created,enters.layout inv.layout,inv.sound,?_⟩
    intro id h opened live
    obtain ⟨i,inside,used,key,same⟩ := inv.handles id h opened live
    have differs : i ≠ e := by
      rintro rfl
      simp [enters.free] at used
    refine ⟨i,inside,?_,?_,?_⟩
    · rw [enters.directory,Directory.enter_inUse]
      simp [used]
    · rw [enters.directory,Directory.enter_key,if_neg differs]
      exact key
    · rw [same]
      exact (enters.headerOf inv.layout inside used).symm
  · refine ⟨false,s.disk,create_refuses inv.layout.mounted fresh room,inv⟩

theorem remove_step (inv : s.Inv bigEndian) (fresh : Nat → Bytes) (name : Bytes) :
    ∃ result after, s.step bigEndian fresh (.remove name) = some (result,after) ∧ after.Inv bigEndian := by
  cases found : (s.fs.directory s.disk).findIndex name with
  | none =>
    refine ⟨.bool false,s,?_,inv⟩
    simp only [step,inv.layout.remove_absent fresh found,Option.bind_eq_bind,Option.bind_some]
    rfl
  | some e =>
    obtain ⟨disk,removed,frees⟩ := inv.layout.remove_frees fresh found
    obtain ⟨_,_,_,_,name_⟩ := inv.layout.find_some found
    refine ⟨.bool true,⟨s.fs,disk,fun id => (s.handles id).map fun h => h.removed name⟩,?_,frees.layout inv.layout,?_,?_⟩
    · simp only [step,removed,Option.bind_eq_bind,Option.bind_some,if_true]
    · intro id h opened
      obtain ⟨old,before,rfl⟩ := Option.map_eq_some_iff.mp opened
      rw [Handle.removed_hdr]
      exact inv.sound id old before
    · intro id h opened live
      obtain ⟨old,before,rfl⟩ := Option.map_eq_some_iff.mp opened
      have other : old.key ≠ chars FileNameMaxLen name := by
        intro same
        simp [Handle.removed,same] at live
      rw [Handle.removed,if_neg other] at live ⊢
      obtain ⟨i,inside,used,key,same⟩ := inv.handles id old before live
      have differs : i ≠ e := by
        rintro rfl
        exact other (key.symm.trans name_)
      refine ⟨i,inside,?_,?_,?_⟩
      · rw [frees.directory,Directory.free_inUse]
        simp [used,differs]
      · rw [frees.directory,Directory.free_key]
        exact key
      · rw [same]
        exact (frees.headerOf inv.layout inside used).symm

-- What a write through a handle leaves alone: the sectors of the system, the headers,
-- and every file that is not the one the handle was opened on.
structure Isolated (bigEndian : Bool) (s : State) (h : Handle) (disk : Disk) : Prop where
  keeps : s.fs.Keeps bigEndian s.disk disk
  files : ∀ i < NumDirEntries, (s.fs.directory s.disk).inUse i = true →
    ¬(h.live = true ∧ (s.fs.directory s.disk).key i = h.key) →
      ∀ b : Nat, (b : Int) < (s.fs.header bigEndian s.disk i).fileLength →
        (s.fs.header bigEndian s.disk i).byteAt disk b = (s.fs.header bigEndian s.disk i).byteAt s.disk b

theorem State.Inv.isolated (inv : s.Inv bigEndian) (opened : s.handles id = some h) (owns : s.Owns bigEndian h)
    (outside : ∀ address, address / SectorSize ∉ h.hdr.sectors → disk address = s.disk address) :
    Isolated bigEndian s h disk := by
  rcases owns with live | unused
  · obtain ⟨i,inside,used,key,same⟩ := inv.handles id h opened live
    rw [same] at outside
    obtain ⟨keeps,bytes⟩ := inv.layout.written inside used outside
    refine ⟨keeps,?_⟩
    intro j inside' used' other
    refine bytes j inside' used' ?_
    rintro rfl
    exact other ⟨live,key⟩
  · obtain ⟨keeps,bytes⟩ := inv.layout.wasted unused outside
    exact ⟨keeps,fun j inside used _ => bytes j inside used not_false⟩

theorem State.Inv.kept (inv : s.Inv bigEndian) (keeps : s.fs.Keeps bigEndian s.disk disk) :
    ({s with disk} : State).Inv bigEndian := by
  refine ⟨inv.layout.keeps keeps,inv.sound,?_⟩
  intro id h opened live
  obtain ⟨i,inside,used,key,same⟩ := inv.handles id h opened live
  have directory := keeps.directory inv.layout.mounted
  refine ⟨i,inside,?_,?_,?_⟩
  · rw [directory]
    exact used
  · rw [directory]
    exact key
  · rw [same]
    exact (keeps.header inv.layout.mounted inside used).symm

theorem write_step (inv : s.Inv bigEndian) (serves : s.Serves id numBytes position h) (owns : s.Owns bigEndian h)
    (fresh from_ : Bytes) :
    ∃ disk, h.hdr.writeAt s.disk fresh from_ numBytes position = some ((h.hdr.count numBytes position : Int),disk) ∧
      h.hdr.Written s.disk disk from_ position.toNat (h.hdr.count numBytes position) ∧ Isolated bigEndian s h disk := by
  obtain ⟨disk,wrote,written⟩ :=
    FileHeader.writeAt_spec (inv.sound id h serves.opened) s.disk fresh from_ serves.low serves.high
  exact ⟨disk,wrote,written,inv.isolated serves.opened owns written.outside⟩

theorem read_step (inv : s.Inv bigEndian) (serves : s.Serves id numBytes position h) (fresh : Bytes) :
    h.hdr.readAt s.disk fresh numBytes position =
      some (take (h.hdr.byteAt s.disk) position.toNat (h.hdr.count numBytes position)) :=
  FileHeader.readAt_spec (inv.sound id h serves.opened) serves.low serves.high

-- Changing only how the handles are positioned, or which are open.
theorem State.Inv.rehandle (inv : s.Inv bigEndian) (handles : Nat → Option Handle)
    (from_ : ∀ id h, handles id = some h → ∃ h', s.handles id = some h' ∧ h'.live = h.live ∧ h'.hdr = h.hdr ∧ h'.key = h.key) :
    State.Inv bigEndian ⟨s.fs,s.disk,handles⟩ := by
  refine ⟨inv.layout,?_,?_⟩
  · intro id h opened
    obtain ⟨h',before,_,hdr,_⟩ := from_ id h opened
    rw [← hdr]
    exact inv.sound id h' before
  · intro id h opened live
    obtain ⟨h',before,live',hdr,key⟩ := from_ id h opened
    obtain ⟨i,inside,used,key',same⟩ := inv.handles id h' before (live'.trans live)
    exact ⟨i,inside,used,key'.trans key,hdr.symm.trans same⟩

theorem State.Inv.reposition (inv : s.Inv bigEndian) (opened : s.handles id = some h) (position : Int) :
    State.Inv bigEndian ⟨s.fs,s.disk,Function.update s.handles id (some {h with seekPosition := position})⟩ := by
  refine Inv.rehandle inv _ ?_
  intro id' h' now
  by_cases same : id' = id
  · rw [same,Function.update_self] at now
    cases now
    exact ⟨h,same ▸ opened,rfl,rfl,rfl⟩
  · rw [Function.update_of_ne same] at now
    exact ⟨h',now,rfl,rfl,rfl⟩

-- Every allowed call ends, and keeps the invariant.
theorem step_inv (inv : s.Inv bigEndian) (fresh : Nat → Bytes) (allowed : s.Allowed bigEndian op) :
    ∃ result after, s.step bigEndian fresh op = some (result,after) ∧ after.Inv bigEndian := by
  cases op with
  | create name initialSize =>
    obtain ⟨success,disk,created,kept⟩ := create_step inv fresh name allowed
    refine ⟨.bool success,{s with disk},?_,kept⟩
    simp only [step,created,Option.bind_eq_bind,Option.bind_some]
  | remove name => exact remove_step inv fresh name
  | open_ name id =>
    have opens := open_spec inv.layout fresh name
    cases found : (s.fs.directory s.disk).findIndex name with
    | none =>
      rw [found] at opens
      refine ⟨.opened false,s,?_,inv⟩
      simp only [step,opens,Option.map_none,Option.bind_eq_bind,Option.bind_some]
    | some i =>
      rw [found] at opens
      obtain ⟨_,_,inside,used,key⟩ := inv.layout.find_some found
      refine ⟨.opened true,⟨s.fs,s.disk,Function.update s.handles id
        (some ⟨s.fs.header bigEndian s.disk i,0,chars FileNameMaxLen name,true⟩)⟩,?_,inv.layout,?_,?_⟩
      · simp only [step,opens,Option.map_some,Option.bind_eq_bind,Option.bind_some]
      · intro id' h now
        dsimp only at now
        by_cases same : id' = id
        · rw [same,Function.update_self] at now
          cases now
          exact inv.layout.headers i inside used
        · rw [Function.update_of_ne same] at now
          exact inv.sound id' h now
      · intro id' h now live
        dsimp only at now
        by_cases same : id' = id
        · rw [same,Function.update_self] at now
          cases now
          exact ⟨i,inside,used,key,rfl⟩
        · rw [Function.update_of_ne same] at now
          exact inv.handles id' h now live
  | close id =>
    obtain ⟨h,opened⟩ := Option.isSome_iff_exists.mp allowed
    refine ⟨.nothing,⟨s.fs,s.disk,Function.update s.handles id none⟩,?_,?_⟩
    · simp only [step,opened,Option.bind_eq_bind,Option.bind_some]
    · refine Inv.rehandle inv _ ?_
      intro id' h' now
      by_cases same : id' = id
      · rw [same,Function.update_self] at now
        cases now
      · rw [Function.update_of_ne same] at now
        exact ⟨h',now,rfl,rfl,rfl⟩
  | seek id position =>
    obtain ⟨h,opened⟩ := Option.isSome_iff_exists.mp allowed
    refine ⟨.nothing,_,?_,Inv.reposition inv opened position⟩
    simp only [step,opened,Option.bind_eq_bind,Option.bind_some]
  | readAt id numBytes position =>
    obtain ⟨h,serves⟩ := allowed
    refine ⟨.bytes (take (h.hdr.byteAt s.disk) position.toNat (h.hdr.count numBytes position)),s,?_,inv⟩
    simp only [step,serves.opened,read_step inv serves,Option.bind_eq_bind,Option.bind_some]
  | read id numBytes =>
    obtain ⟨h,serves⟩ := allowed
    refine ⟨.bytes (take (h.hdr.byteAt s.disk) h.seekPosition.toNat (h.hdr.count numBytes h.seekPosition)),_,?_,
      inv.reposition serves.opened (wrap (h.seekPosition + (h.hdr.count numBytes h.seekPosition : Nat)))⟩
    simp only [step,serves.opened,read_step inv serves,Option.bind_eq_bind,Option.bind_some,take_length]
  | writeAt id from_ numBytes position =>
    obtain ⟨h,serves,owns⟩ := allowed
    obtain ⟨disk,wrote,_,isolated⟩ := write_step inv serves owns (fresh 0) from_
    refine ⟨.count (h.hdr.count numBytes position),{s with disk},?_,inv.kept isolated.keeps⟩
    simp only [step,serves.opened,wrote,Option.bind_eq_bind,Option.bind_some]
  | write id from_ numBytes =>
    obtain ⟨h,serves,owns⟩ := allowed
    obtain ⟨disk,wrote,_,isolated⟩ := write_step inv serves owns (fresh 0) from_
    refine ⟨.count (h.hdr.count numBytes h.seekPosition),_,?_,(inv.kept isolated.keeps).reposition serves.opened
      (wrap (h.seekPosition + (h.hdr.count numBytes h.seekPosition : Nat)))⟩
    simp only [step,serves.opened,wrote,Option.bind_eq_bind,Option.bind_some]

-- Runs of permitted calls on a disk that has been formatted, whatever it held before.
-- The calls and their results are logged, the newest first.
inductive Runs (bigEndian : Bool) (permit : State → Op → Prop) : List (Op × Result) → State → Prop where
  | start {disk formatted : Disk} {fresh : Nat → Bytes} {fs : FileSystem} :
      format bigEndian disk fresh = some (fs,formatted) → Runs bigEndian permit [] ⟨fs,formatted,fun _ => none⟩
  | call {log : List (Op × Result)} {s after : State} {fresh : Nat → Bytes} {op : Op} {result : Result} :
      Runs bigEndian permit log s → permit s op → s.step bigEndian fresh op = some (result,after) →
      Runs bigEndian permit ((op,result) :: log) after

theorem runs_inv {permit : State → Op → Prop} (within : ∀ s op, permit s op → s.Allowed bigEndian op)
    (path : Runs bigEndian permit log s) : s.Inv bigEndian := by
  induction path with
  | @start disk formatted fresh fs formats =>
    obtain ⟨fs',after,formats',formatted⟩ := format_spec bigEndian disk fresh
    rw [formats] at formats'
    cases formats'
    refine ⟨formatted.layout,?_,?_⟩
    · intro id h wrong
      cases wrong
    · intro id h wrong
      cases wrong
  | @call log s after fresh op result prior permitted stepped ih =>
    obtain ⟨result',after',stepped',inv⟩ := step_inv ih fresh (within s op permitted)
    rw [stepped] at stepped'
    cases stepped'
    exact inv

end
end Nachos.FileSys
