import Nachos.FileSys.Volume

-- The file system after Nachos has been halted and started again on the same disk.
namespace Nachos.FileSys
open FileSystem State

section
variable (bigEndian : Bool)

-- FileSystem(FALSE)
def mount (disk : Disk) : Option FileSystem := do
  let freeMapFile ← FileHeader.fetchFrom bigEndian disk FreeMapSector
  let directoryFile ← FileHeader.fetchFrom bigEndian disk DirectorySector
  some ⟨freeMapFile,directoryFile⟩

inductive Entry where
  | call (op : Op) (result : Result)
  | restart

-- A disk that is formatted once, and then any number of sessions on it. No file is open
-- when one begins.
inductive Sessions : List Entry → State → Prop where
  | start {disk formatted : Disk} {fresh : Nat → Bytes} {fs : FileSystem} :
      format bigEndian disk fresh = some (fs,formatted) → Sessions [] ⟨fs,formatted,fun _ => none⟩
  | call {log : List Entry} {s after : State} {fresh : Nat → Bytes} {op : Op} {result : Result} :
      Sessions log s → s.Permits op → s.step bigEndian fresh op = some (result,after) → Sessions (.call op result :: log) after
  | restart {log : List Entry} {s : State} {fs : FileSystem} :
      Sessions log s → mount bigEndian s.disk = some fs → Sessions (.restart :: log) ⟨fs,s.disk,fun _ => none⟩

end

-- All that a restart does to the map is to close the files.
def Volume.closed (v : Volume) : Volume := {v with handles := fun _ => none}

inductive Volume.Goes (v : Volume) : Entry → Volume → Prop where
  | call {op : Op} {answer : Result} {w : Volume} : v.Passes (op,answer) w → Goes v (.call op answer) w
  | restart : Goes v .restart v.closed

section
variable {bigEndian : Bool} {s : State} {v : Volume}

theorem FileSystem.Layout.mounts {fs : FileSystem} {disk : Disk} (layout : fs.Layout bigEndian disk) : mount bigEndian disk = some fs := by
  have map := FileHeader.fetchFrom_nat bigEndian disk (show FreeMapSector < NumSectors by decide)
  have directory := FileHeader.fetchFrom_nat bigEndian disk (show DirectorySector < NumSectors by decide)
  rw [layout.mapHeader] at map
  rw [layout.directoryHeader] at directory
  rw [mount,map,Option.bind_eq_bind,Option.bind_some,directory]
  rfl

theorem closed_all_refines (refines : Refines bigEndian s v) : Refines bigEndian ⟨s.fs,s.disk,fun _ => none⟩ v.closed := by
  have none_ : ∀ (id : Nat) (h : Handle), (fun _ : Nat => (none : Option Handle)) id ≠ some h := fun _ _ wrong => by cases wrong
  exact ⟨refines.inv.rehandle _ fun id h now => absurd now (none_ id h),refines.sizes,refines.files,fun _ => rfl,
    fun id h now => absurd now (none_ id h)⟩

theorem sessions_refine {log : List Entry} (path : Sessions bigEndian log s) :
    ∃ v, Protocol.Trace Volume.empty Volume.Goes v log ∧ Refines bigEndian s v := by
  induction path with
  | start formats => exact ⟨_,.start,format_refines formats⟩
  | @call log s after fresh op result prior permits stepped ih =>
    obtain ⟨v,trace,refines⟩ := ih
    obtain ⟨result',after',w,stepped',passes,next⟩ := step_refines refines fresh op permits
    rw [stepped] at stepped'
    cases stepped'
    exact ⟨w,.step trace (.call passes),next⟩
  | @restart log s fs prior mounted ih =>
    obtain ⟨v,trace,refines⟩ := ih
    have same := refines.inv.layout.mounts
    rw [mounted] at same
    cases same
    exact ⟨v.closed,.step trace .restart,closed_all_refines refines⟩

-- The disk can always be mounted: the file system that FileSystem(FALSE) finds on it is the one
-- that was running, the files are as they were left, and every later call answers as the map does.
theorem sessions_refine_map {log : List Entry} (path : Sessions bigEndian log s) :
    ∃ v, Protocol.Trace Volume.empty Volume.Goes v log ∧ Refines bigEndian s v ∧
      mount bigEndian s.disk = some s.fs ∧ Refines bigEndian ⟨s.fs,s.disk,fun _ => none⟩ v.closed ∧
      ∀ fresh op, s.Permits op → ∃ result after, s.step bigEndian fresh op = some (result,after) ∧ result = v.result op := by
  obtain ⟨v,trace,refines⟩ := sessions_refine path
  refine ⟨v,trace,refines,refines.inv.layout.mounts,closed_all_refines refines,fun fresh op permits => ?_⟩
  obtain ⟨result,after,_,stepped,passes,_⟩ := step_refines refines fresh op permits
  exact ⟨result,after,stepped,passes.1⟩

end

-- A formatted disk on which a file is created, and Nachos started again.
theorem sessions_refine_map_restarted : ∃ s v, Sessions false [.restart,.call (.create (letter 97) 128) (.bool true)] s ∧
    Refines false s v ∧ mount false s.disk = some s.fs := by
  obtain ⟨fs,disk,formats,formatted⟩ := format_spec false zeros fun _ => zeros
  obtain ⟨one,_,_,_,_,created,enters,_⟩ := formatted.layout.create_makes (fun _ => zeros)
    (show (128 : BitVec 32).toInt ≤ MaxFileSize by decide) (room_empty formatted.unused formatted.card (letter 97))
  have start : Sessions false [] ⟨fs,disk,fun _ => none⟩ := .start formats
  have creates : Sessions false [.call (.create (letter 97) 128) (.bool true)] ⟨fs,one,fun _ => none⟩ :=
    .call start ⟨by decide,by decide⟩ (step_create created)
  have again : Sessions false [.restart,.call (.create (letter 97) 128) (.bool true)] ⟨fs,one,fun _ => none⟩ :=
    .restart creates (enters.layout formatted.layout).mounts
  obtain ⟨v,_,refines,mounts,_⟩ := sessions_refine_map again
  exact ⟨_,v,again,refines,mounts⟩

end Nachos.FileSys
