import Nachos.DiskLatency

-- The track buffer over whole runs of requests. The head reads the track it stands on
-- into the buffer from the first boundary of a sector after the seek; lastSector and
-- bufferInit are to say on which track that is, and since when.
namespace Nachos.Latency
open Signed

def UpdateLast (totalTicks : Int) (disk : Disk) (newSector : Int) : Disk :=
  if (TimeToSeek totalTicks disk newSector).1 ≠ 0 then ⟨newSector,timeAfter totalTicks disk newSector⟩
  else {disk with lastSector := newSector}

structure Request where
  totalTicks : Int
  newSector : Int
  writing : Bool

-- The requests made so far, the newest first, with the disk behind them and the time of
-- the interrupt of the last one. The next comes no earlier (`active`), and the time when
-- the head is there is one that an int can hold.
inductive Served : List Request → Disk → Int → Prop where
  | start : Served [] ⟨0,0⟩ 0
  | request {older disk free} (r : Request) : Served older disk free → free ≤ r.totalTicks →
      0 ≤ r.newSector ∧ r.newSector < NumSectors → arrival r.totalTicks disk r.newSector < 2 ^ 31 →
      Served (r :: older) (UpdateLast r.totalTicks disk r.newSector)
        (r.totalTicks + ComputeLatency r.totalTicks disk r.newSector r.writing)

def track (sector : Int) : Int := sector / SectorsPerTrack

-- Where the arm stands.
def position : List Request → Int
  | [] => 0
  | r :: _ => r.newSector

-- The first boundary of a sector from then on.
def boundary (time : Int) : Int := (time + (RotationTime - 1)) / RotationTime * RotationTime

-- Since when it has stood on that track.
def since : List Request → Int
  | [] => 0
  | r :: older =>
    if track r.newSector = track (position older) then since older
    else boundary (r.totalTicks + SeekTime * (track r.newSector - track (position older)).natAbs)

-- The whole of the sector has gone by the head between the two times.
def Passed (first last sector : Int) : Prop :=
  ∃ turn, first ≤ turn * RotationTime ∧ (turn + 1) * RotationTime ≤ last ∧
    turn % SectorsPerTrack = sector % SectorsPerTrack

structure Follows (log : List Request) (disk : Disk) (free : Int) : Prop where
  last : disk.lastSector = position log
  init : disk.bufferInit = since log
  inside : 0 ≤ position log ∧ position log < NumSectors
  started : 0 ≤ since log ∧ since log ≤ free
  edge : since log = since log / RotationTime * RotationTime
  fits : since log < 2 ^ 31

section
variable {log older : List Request} {disk : Disk} {free : Int} {r : Request} {writing : Bool}

theorem seekTime_track (follows : Follows older disk free) (newSector : Int) :
    seekTime disk newSector = SeekTime * (track newSector - track (position older)).natAbs := by
  simp only [seekTime,track,follows.last]

-- No seek on the track where the arm stands.
theorem seekTime_zero (follows : Follows older disk free) (newSector : Int) :
    seekTime disk newSector = 0 ↔ track newSector = track (position older) := by
  rw [seekTime_track follows,SeekTime]
  omega

theorem arrival_boundary (totalTicks newSector : Int) :
    arrival totalTicks disk newSector = boundary (totalTicks + seekTime disk newSector) := rfl

theorem arrival_edge (disk : Disk) (totalTicks newSector : Int) : arrival totalTicks disk newSector =
    arrival totalTicks disk newSector / RotationTime * RotationTime := by
  simp only [arrival,RotationTime]
  omega

theorem boundary_bounds (time : Int) : time ≤ boundary time ∧ boundary time < time + RotationTime := by
  simp only [boundary,RotationTime]
  omega

theorem arrival_bounds (disk : Disk) (totalTicks newSector : Int) :
    totalTicks + seekTime disk newSector ≤ arrival totalTicks disk newSector ∧
      arrival totalTicks disk newSector < totalTicks + seekTime disk newSector + RotationTime :=
  boundary_bounds (totalTicks + seekTime disk newSector)

theorem since_cons (follows : Follows older disk free) (r : Request) :
    since (r :: older) = if seekTime disk r.newSector = 0 then since older else arrival r.totalTicks disk r.newSector := by
  have still := seekTime_zero follows r.newSector
  simp only [since,arrival_boundary,seekTime_track follows] at still ⊢
  simp only [still]

-- What a request sees of the disk, where the times fit an int.
structure Meets (disk : Disk) (r : Request) : Prop where
  ticks : 0 ≤ r.totalTicks ∧ r.totalTicks < 2 ^ 63
  last : 0 ≤ disk.lastSector ∧ disk.lastSector < NumSectors
  seek : (TimeToSeek r.totalTicks disk r.newSector).1 = seekTime disk r.newSector
  after : timeAfter r.totalTicks disk r.newSector = arrival r.totalTicks disk r.newSector
  waits : (TimeToSeek r.totalTicks disk r.newSector).2 =
    arrival r.totalTicks disk r.newSector - (r.totalTicks + seekTime disk r.newSector)

theorem Follows.meets (follows : Follows older disk free) (inactive : free ≤ r.totalTicks)
    (sector : 0 ≤ r.newSector ∧ r.newSector < NumSectors) (clock : arrival r.totalTicks disk r.newSector < 2 ^ 31) :
    Meets disk r := by
  have last : 0 ≤ disk.lastSector ∧ disk.lastSector < NumSectors := by
    rw [follows.last]
    exact follows.inside
  have way := seekTime_bound last sector
  have started := follows.started
  have bounds := arrival_bounds disk r.totalTicks r.newSector
  have ticks : 0 ≤ r.totalTicks ∧ r.totalTicks < 2 ^ 63 := by omega
  obtain ⟨seek,waits⟩ := TimeToSeek_eq ticks last sector
  rw [if_pos (by omega)] at waits
  refine ⟨ticks,last,seek,?_,waits⟩
  have there : int64 (r.totalTicks + seekTime disk r.newSector) = r.totalTicks + seekTime disk r.newSector :=
    int64_small (by omega) (by omega)
  simp only [timeAfter,seek,waits,there]
  rw [show r.totalTicks + seekTime disk r.newSector + (arrival r.totalTicks disk r.newSector -
    (r.totalTicks + seekTime disk r.newSector)) = arrival r.totalTicks disk r.newSector by omega,
    int64_small (by omega) (by omega),int32_small (by omega) clock]

-- The time when a request that is not served from the buffer is done.
theorem Meets.unbuffered (meets : Meets disk r) (sector : 0 ≤ r.newSector ∧ r.newSector < NumSectors)
    (clock : arrival r.totalTicks disk r.newSector < 2 ^ 31)
    (out : buffered r.totalTicks disk r.newSector writing = false) :
    r.totalTicks + ComputeLatency r.totalTicks disk r.newSector writing =
      (arrival r.totalTicks disk r.newSector / RotationTime +
        (r.newSector - arrival r.totalTicks disk r.newSector / RotationTime) % SectorsPerTrack + 1) * RotationTime := by
  obtain ⟨rotation,waits,latency⟩ := ComputeLatency_eq meets.ticks meets.last sector out
  have way := seekTime_bound meets.last sector
  have ticks := meets.ticks
  have bounds := arrival_bounds disk r.totalTicks r.newSector
  have edge := arrival_edge disk r.totalTicks r.newSector
  rw [meets.waits] at waits
  have time : r.totalTicks + seekTime disk r.newSector + rotation = arrival r.totalTicks disk r.newSector := by omega
  rw [latency,time,int32_small (by omega) clock,Int.tdiv_eq_ediv_of_nonneg (by omega)]
  simp only [RotationTime,SectorsPerTrack] at *
  omega

-- The test of ComputeLatency, in terms of what has gone by.
theorem Meets.buffered_iff (meets : Meets disk r) (follows : Follows older disk free) (inactive : free ≤ r.totalTicks)
    (sector : 0 ≤ r.newSector ∧ r.newSector < NumSectors) (clock : arrival r.totalTicks disk r.newSector < 2 ^ 31) :
    buffered r.totalTicks disk r.newSector r.writing = true ↔ r.writing = false ∧
      track r.newSector = track (position older) ∧ Passed (since older) (boundary r.totalTicks) r.newSector := by
  have started := follows.started
  have edge := follows.edge
  have fits := follows.fits
  simp only [buffered,Bool.and_eq_true,Bool.not_eq_true',decide_eq_true_eq,meets.seek,meets.after,follows.init,
    seekTime_zero follows,and_assoc,and_congr_right_iff]
  intro _ same
  have still : arrival r.totalTicks disk r.newSector = boundary r.totalTicks := by
    rw [arrival_boundary,(seekTime_zero follows _).mpr same,Int.add_zero]
  have bounds := boundary_bounds r.totalTicks
  rw [still] at clock ⊢
  have cut : int32 ((since older).tdiv RotationTime) = since older / RotationTime := by
    rw [Int.tdiv_eq_ediv_of_nonneg started.1]
    refine int32_small ?_ ?_ <;> simp only [RotationTime] <;> omega
  rw [cut,ModuloDiff_eq sector.1,int32_small (by omega) (by omega),Int.tdiv_eq_ediv_of_nonneg (by omega)]
  simp only [Passed]
  constructor
  · intro later
    refine ⟨since older / RotationTime + (r.newSector - since older / RotationTime) % SectorsPerTrack,?_,?_,?_⟩ <;>
      simp only [boundary,RotationTime,SectorsPerTrack] at * <;> omega
  · rintro ⟨turn,first,last,passes⟩
    simp only [boundary,RotationTime,SectorsPerTrack] at *
    omega

theorem Meets.done (meets : Meets disk r) (sector : 0 ≤ r.newSector ∧ r.newSector < NumSectors)
    (clock : arrival r.totalTicks disk r.newSector < 2 ^ 31) :
    arrival r.totalTicks disk r.newSector ≤ r.totalTicks + ComputeLatency r.totalTicks disk r.newSector r.writing := by
  cases out : buffered r.totalTicks disk r.newSector r.writing with
  | false =>
    rw [meets.unbuffered sector clock out]
    have edge := arrival_edge disk r.totalTicks r.newSector
    simp only [RotationTime,SectorsPerTrack] at *
    omega
  | true =>
    have seek : seekTime disk r.newSector = 0 := by
      simp only [buffered,Bool.and_eq_true,decide_eq_true_eq,meets.seek] at out
      exact out.1.2
    have bounds := arrival_bounds disk r.totalTicks r.newSector
    rw [seek] at bounds
    simp only [ComputeLatency,out,if_true]
    omega

theorem request_follows (follows : Follows older disk free) (inactive : free ≤ r.totalTicks)
    (sector : 0 ≤ r.newSector ∧ r.newSector < NumSectors) (clock : arrival r.totalTicks disk r.newSector < 2 ^ 31) :
    Follows (r :: older) (UpdateLast r.totalTicks disk r.newSector)
      (r.totalTicks + ComputeLatency r.totalTicks disk r.newSector r.writing) := by
  have meets := follows.meets inactive sector clock
  have done := meets.done sector clock
  have bounds := arrival_bounds disk r.totalTicks r.newSector
  have way := seekTime_bound meets.last sector
  have started := follows.started
  by_cases seek : seekTime disk r.newSector = 0
  · have kept : since (r :: older) = since older := by rw [since_cons follows,if_pos seek]
    have updated : UpdateLast r.totalTicks disk r.newSector = {disk with lastSector := r.newSector} := by
      simp [UpdateLast,meets.seek,seek]
    rw [updated]
    refine ⟨rfl,?_,sector,?_,?_,?_⟩ <;> rw [kept]
    · exact follows.init
    · omega
    · exact follows.edge
    · exact follows.fits
  · have moved : since (r :: older) = arrival r.totalTicks disk r.newSector := by rw [since_cons follows,if_neg seek]
    have updated : UpdateLast r.totalTicks disk r.newSector = ⟨r.newSector,arrival r.totalTicks disk r.newSector⟩ := by
      simp [UpdateLast,meets.seek,meets.after,seek]
    rw [updated]
    refine ⟨rfl,?_,sector,?_,?_,?_⟩ <;> rw [moved]
    · omega
    · exact arrival_edge disk r.totalTicks r.newSector
    · exact clock

theorem served_follows (served : Served log disk free) : Follows log disk free := by
  induction served with
  | start => exact ⟨rfl,rfl,by decide,by decide,by decide,by decide⟩
  | request r _ inactive sector clock ih => exact request_follows ih inactive sector clock

end

end Nachos.Latency
