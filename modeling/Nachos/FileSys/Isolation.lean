import Nachos.FileSys.Sectors

-- Writes through open files, and the other files of the disk.
namespace Nachos.FileSys
open FileSystem State

def Op.writesTo : Op → Option Nat
  | .write id _ _ => some id
  | .writeAt id _ _ _ => some id
  | _ => none

section
variable {bigEndian : Bool} {fs : FileSystem} {disk : Disk} {s : State} {log : List (Op × Result)} {op : Op} {id : Nat}

-- As long as no write goes through an open file whose sectors were given away, every write
-- returns and is isolated.
theorem writes_isolated (path : Runs bigEndian (State.Allowed bigEndian) log s) (writes : op.writesTo = some id)
    (allowed : s.Allowed bigEndian op) (fresh : Nat → Bytes) :
    ∃ h result after, s.handles id = some h ∧ s.step bigEndian fresh op = some (result,after) ∧
      Isolated bigEndian s h after.disk := by
  have inv := runs_inv (fun _ _ allowed => allowed) path
  cases op with
  | write id' from_ numBytes =>
    cases writes
    obtain ⟨h,serves,owns⟩ := allowed
    obtain ⟨disk,wrote,_,isolated⟩ := write_step inv serves owns (fresh 0) from_
    refine ⟨h,.count (h.hdr.count numBytes h.seekPosition),⟨s.fs,disk,Function.update s.handles id
      (some {h with seekPosition := wrap (h.seekPosition + (h.hdr.count numBytes h.seekPosition : Nat))})⟩,serves.opened,?_,
      isolated⟩
    simp only [step,serves.opened,wrote,Option.bind_eq_bind,Option.bind_some]
  | writeAt id' from_ numBytes position =>
    cases writes
    obtain ⟨h,serves,owns⟩ := allowed
    obtain ⟨disk,wrote,_,isolated⟩ := write_step inv serves owns (fresh 0) from_
    refine ⟨h,.count (h.hdr.count numBytes position),{s with disk},serves.opened,?_,isolated⟩
    simp only [step,serves.opened,wrote,Option.bind_eq_bind,Option.bind_some]
  | _ => cases writes

theorem writes_isolated_first : ∃ s h result after, Runs false (State.Allowed false) firstCalls s ∧
    s.handles 0 = some h ∧ s.step false (fun _ => zeros) (.write 0 (fun _ => 7) 100) = some (result,after) ∧
      Isolated false s h after.disk := by
  obtain ⟨s,h,path,opened,live,position⟩ := first_run
  have allowed : s.Allowed false (.write 0 (fun _ => 7) 100) := by
    refine ⟨h,⟨opened,?_,?_⟩,.inl live⟩
    · rw [position]
    · rw [position]
      decide
  obtain ⟨h',result,after,opened',stepped,isolated⟩ := writes_isolated path rfl allowed fun _ => zeros
  exact ⟨s,h',result,after,path,opened',stepped,isolated⟩

-- A file created after another was removed gets the sectors of that one.
theorem FileSystem.Formatted.recycles (formatted : Formatted bigEndian fs disk) (fresh : Nat → Bytes) (a b : Bytes) :
    ∃ one two three e e' hdr, fs.create bigEndian disk fresh a 128 = some (true,one) ∧
      (fs.directory one).findIndex a = some e ∧ fs.header bigEndian one e = hdr ∧
      fs.remove bigEndian one fresh a = some (true,two) ∧
      fs.create bigEndian two fresh b 128 = some (true,three) ∧
      (fs.directory three).findIndex b = some e' ∧ fs.header bigEndian three e' = hdr ∧ hdr.numBytes = 128 := by
  have layout := formatted.layout
  obtain ⟨one,e,first,hdr,rest,created,enters,size,takes⟩ := layout.create_makes fresh
    (show (128 : BitVec 32).toInt ≤ MaxFileSize by decide) (room_empty formatted.unused formatted.card a)
  obtain ⟨two,removed,frees⟩ := (enters.layout layout).remove_frees fresh (enters.find_new layout)
  have map := frees.restores enters layout
  have unused : ∀ i, (fs.directory two).inUse i = false := by
    intro i
    rw [frees.directory,Directory.free_inUse,enters.directory,Directory.enter_inUse,formatted.unused]
    simp
  have again := frees.layout (enters.layout layout)
  obtain ⟨three,e',first',hdr',rest',created',enters',_,takes'⟩ := again.create_makes fresh
    (show (128 : BitVec 32).toInt ≤ MaxFileSize by decide) (room_empty unused (by rw [map]; exact formatted.card) b)
  rw [map] at takes'
  obtain ⟨rfl,rfl⟩ := takes.unique takes'
  exact ⟨one,two,three,e,e',hdr,created,enters.find_new layout,enters.headerNew,removed,created',enters'.find_new again,
    enters'.headerNew,size⟩

end

-- Opening a, removing it, and writing to a file created afterwards.
def staleCalls : List (Op × Result) :=
  [(.writeAt 1 zeros 1 0,.count 1),(.open_ (letter 98) 1,.opened true),(.create (letter 98) 128,.bool true),
    (.remove (letter 97),.bool true),(.open_ (letter 97) 0,.opened true),(.create (letter 97) 128,.bool true)]

theorem one_byte {hdr : FileHeader} (size : hdr.numBytes = 128) : hdr.fileLength = 128 ∧ hdr.count 1 0 = 1 := by
  have length : hdr.fileLength = 128 := by
    rw [FileHeader.fileLength,size]
    decide
  refine ⟨length,?_⟩
  unfold FileHeader.count
  rw [if_neg (by omega)]
  omega

theorem stale_run : ∃ s h, Runs false (State.Allowed false) staleCalls s ∧ s.handles 0 = some h ∧ h.live = false ∧
    h.hdr.numBytes = 128 ∧ h.hdr.byteAt s.disk 0 = 0 ∧
    ∃ i < NumDirEntries, (s.fs.directory s.disk).inUse i = true ∧ s.fs.header false s.disk i = h.hdr := by
  obtain ⟨fs,disk,formats,formatted⟩ := format_spec false zeros fun _ => zeros
  obtain ⟨one,two,three,e,e',hdr,created,found,header,removed,created',found',header',size⟩ :=
    formatted.recycles (fun _ => zeros) (letter 97) (letter 98)
  have start : Runs false (State.Allowed false) [] ⟨fs,disk,fun _ => none⟩ := .start formats
  have small : (128 : BitVec 32).toInt ≤ MaxFileSize := by decide
  have creates := runs_call start (step_create created) small
  have opens := runs_call creates (step_open (runs_allowed creates).layout (fun _ => zeros) found 0) rfl
  rw [header] at opens
  have removes := runs_call opens (step_remove removed) trivial
  have creates' := runs_call removes (step_create created') small
  have opens' := runs_call creates' (step_open (runs_allowed creates').layout (fun _ => zeros) found' 1) rfl
  rw [header'] at opens'
  have inv := runs_allowed opens'
  generalize state : State.mk _ _ _ = s at opens' inv
  have fresh_ : s.handles 1 = some ⟨hdr,0,chars FileNameMaxLen (letter 98),true⟩ := by
    rw [← state]
    rfl
  have stale : s.handles 0 = some ⟨hdr,0,chars FileNameMaxLen (letter 97),false⟩ := by
    rw [← state]
    rfl
  obtain ⟨i,inside,used,_,same⟩ := inv.handles 1 _ fresh_ rfl
  have serves : s.Serves 1 1 0 ⟨hdr,0,chars FileNameMaxLen (letter 98),true⟩ := ⟨fresh_,le_refl 0,by decide⟩
  obtain ⟨four,wrote,written,isolated⟩ := write_step inv serves (.inl rfl) zeros zeros
  have writes := runs_call opens' (step_writeAt false (fun _ => zeros) fresh_ wrote) ⟨_,serves,.inl rfl⟩
  obtain ⟨length,amount⟩ := one_byte size
  rw [amount] at writes written
  have mounted := inv.layout.mounted
  refine ⟨_,_,writes,stale,rfl,size,?_,i,inside,?_,?_⟩
  · rw [written.bytes 0 (by rw [length]; decide),if_pos (by decide)]
    rfl
  · rw [isolated.keeps.directory mounted]
    exact used
  · rw [isolated.keeps.header mounted inside used]
    exact same.symm

-- The write through the open file that was removed changes the other one.
theorem stale_write_changes : ∃ s h after, Runs false (State.Allowed false) staleCalls s ∧ s.handles 0 = some h ∧
    s.step false (fun _ => zeros) (.writeAt 0 (fun _ => 7) 1 0) = some (.count 1,after) ∧
      ¬Isolated false s h after.disk := by
  obtain ⟨s,h,path,opened,removed,size,before,i,inside,used,same⟩ := stale_run
  have inv := runs_allowed path
  obtain ⟨length,amount⟩ := one_byte size
  obtain ⟨disk,wrote,written⟩ := FileHeader.writeAt_spec (inv.sound 0 h opened) s.disk zeros (fun _ => 7)
    (show (0 : Int) ≤ 0 by decide) (show (0 : Int) + 1 < 2 ^ 31 by decide)
  have stepped := step_writeAt false (fun _ => zeros) opened wrote
  rw [amount] at stepped written
  refine ⟨s,h,_,path,opened,stepped,?_⟩
  intro isolated
  have kept := isolated.files i inside used (by rw [removed]; simp) 0 (by rw [same,length]; decide)
  rw [same,written.bytes 0 (by rw [length]; decide),if_pos (by decide),before] at kept
  exact absurd kept (by decide)

end Nachos.FileSys
