import Nachos.FileSys.Disk
import Nachos.Library.Signed

-- How long the disk takes for a request: TimeToSeek, ModuloDiff and ComputeLatency of
-- disk.cc. An int is 32 bits wide; the clock and the constants of stats.h have 64.
namespace Nachos.Latency
open Signed

def RotationTime : Int := 500
def SeekTime : Int := 500
def SectorsPerTrack : Int := 32
def NumSectors : Int := 1024

def int32 (x : Int) : Int := wrap 32 x
def int64 (x : Int) : Int := wrap 64 x

structure Disk where
  lastSector : Int
  bufferInit : Int

-- *rotation, where the head is `over_` ticks behind the beginning of a sector.
def roundUp (over_ : Int) : Int := if over_ > 0 then int32 (RotationTime - over_) else 0

-- The seek, and *rotation.
def TimeToSeek (totalTicks : Int) (disk : Disk) (newSector : Int) : Int × Int :=
  let newTrack := newSector.tdiv SectorsPerTrack
  let oldTrack := disk.lastSector.tdiv SectorsPerTrack
  let seek := int32 ((newTrack - oldTrack).natAbs * SeekTime)
  let over_ := int32 ((int64 (totalTicks + seek)).tmod RotationTime)
  (seek,roundUp over_)

def ModuloDiff (to_ from_ : Int) : Int :=
  let toOffset := to_.tmod SectorsPerTrack
  let fromOffset := from_.tmod SectorsPerTrack
  ((toOffset - fromOffset) + SectorsPerTrack).tmod SectorsPerTrack

def timeAfter (totalTicks : Int) (disk : Disk) (newSector : Int) : Int :=
  let (seek,rotation) := TimeToSeek totalTicks disk newSector
  int32 (int64 (int64 (totalTicks + seek) + rotation))

-- The test for the track buffer.
def buffered (totalTicks : Int) (disk : Disk) (newSector : Int) (writing : Bool) : Bool :=
  !writing && decide ((TimeToSeek totalTicks disk newSector).1 = 0) &&
    decide ((int32 (timeAfter totalTicks disk newSector - disk.bufferInit)).tdiv RotationTime >
      ModuloDiff newSector (int32 (disk.bufferInit.tdiv RotationTime)))

def ComputeLatency (totalTicks : Int) (disk : Disk) (newSector : Int) (writing : Bool) : Int :=
  let (seek,rotation) := TimeToSeek totalTicks disk newSector
  let timeAfter := timeAfter totalTicks disk newSector
  if buffered totalTicks disk newSector writing then RotationTime
  else
    let rotation := int32 (rotation + ModuloDiff newSector (int32 (timeAfter.tdiv RotationTime)) * RotationTime)
    int32 (seek + rotation + RotationTime)

-- The time that the seek takes.
def seekTime (disk : Disk) (newSector : Int) : Int :=
  SeekTime * (newSector / SectorsPerTrack - disk.lastSector / SectorsPerTrack).natAbs

-- The head has passed the whole of newSector when the time is up, and never before
-- after the seek.
structure Lands (totalTicks : Int) (disk : Disk) (newSector latency : Int) : Prop where
  positive : 0 < latency
  boundary : (totalTicks + latency) % RotationTime = 0
  passed : ((totalTicks + latency) / RotationTime - 1) % SectorsPerTrack = newSector % SectorsPerTrack
  bound : latency ≤ seekTime disk newSector + (SectorsPerTrack + 1) * RotationTime
  behind : seekTime disk newSector + RotationTime ≤ latency
  first : ∀ earlier, seekTime disk newSector + RotationTime ≤ earlier → (totalTicks + earlier) % RotationTime = 0 →
    ((totalTicks + earlier) / RotationTime - 1) % SectorsPerTrack = newSector % SectorsPerTrack → latency ≤ earlier

-- The first boundary of a sector after the seek.
def arrival (totalTicks : Int) (disk : Disk) (newSector : Int) : Int :=
  (totalTicks + seekTime disk newSector + (RotationTime - 1)) / RotationTime * RotationTime

-- The sectors that are lost when a time is cut to an int: 2^32 ticks, as often as they
-- go away, in sectors rounded up, or down where the int is negative.
def lost (time : Int) : Int :=
  let gone := (time + 2 ^ 31) / 2 ^ 32 * 2 ^ 32
  if gone ≤ time then (gone + (RotationTime - 1)) / RotationTime else gone / RotationTime

-- Whole turns of the disk are lost, and the sum that decides how long to wait for the
-- boundary is no larger than the clock can hold.
def Fits (totalTicks : Int) (disk : Disk) (newSector : Int) : Prop :=
  lost (arrival totalTicks disk newSector) % SectorsPerTrack = 0 ∧
    (totalTicks + seekTime disk newSector < 2 ^ 63 ∨ (totalTicks + seekTime disk newSector) % RotationTime = 0)

section
variable {totalTicks newSector x t q : Int} {disk : Disk} {writing : Bool}

theorem int32_small (low : -2 ^ 31 ≤ x) (high : x < 2 ^ 31) : int32 x = x := wrap_small (w := 31) low high

theorem int64_small (low : -2 ^ 63 ≤ x) (high : x < 2 ^ 63) : int64 x = x := wrap_small (w := 63) low high

theorem int64_large (low : 2 ^ 63 ≤ x) (high : x < 2 ^ 64) : int64 x = x - 2 ^ 64 := by
  have shifted : int64 (x - 2 ^ 64) = x - 2 ^ 64 := int64_small (by omega) (by omega)
  rw [← shifted,int64,int64,wrap,wrap,← Int.sub_bmod_bmod,show ((2 : Int) ^ 64).bmod (2 ^ 64) = 0 by decide,Int.sub_zero]

theorem int32_int64 (x : Int) : int32 (int64 x) = int32 x := wrap_wrap (by decide) x

theorem int32_int64_add (x y : Int) : int32 (int64 x + y) = int32 (x + y) := wrap_add (by decide) x y

-- A time cut to an int.
theorem int32_cut (x : Int) : int32 x = x - (x + 2 ^ 31) / 2 ^ 32 * 2 ^ 32 := by
  rw [int32,wrap,Int.bmod_eq_emod]
  norm_num
  split <;> omega

theorem ModuloDiff_eq (inside : 0 ≤ newSector) (x : Int) : ModuloDiff newSector x = (newSector - x) % SectorsPerTrack := by
  unfold ModuloDiff SectorsPerTrack
  dsimp only
  rw [Int.tmod_eq_emod_of_nonneg inside]
  have positive : 0 ≤ newSector % 32 - x.tmod 32 + 32 := by
    have bound := Int.tmod_lt_of_pos x (show (0 : Int) < 32 by decide)
    omega
  rw [Int.tmod_eq_emod_of_nonneg positive]
  rcases Int.lt_or_le x 0 with negative | nonneg
  · rw [tmod_negative negative]
    omega
  · rw [Int.tmod_eq_emod_of_nonneg nonneg]
    omega

-- The sector that a whole number of rotations, cut to an int, is taken for.
theorem cut_sector (boundary : t = q * RotationTime) : (int32 t).tdiv RotationTime = q - lost t := by
  rw [int32_cut,lost]
  simp only [RotationTime] at *
  generalize gone : (t + 2 ^ 31) / 2 ^ 32 * 2 ^ 32 = away
  split
  · rw [Int.tdiv_eq_ediv_of_nonneg (by omega)]
    omega
  · rw [tdiv_negative (by omega)]
    omega

theorem seekTime_bound (last : 0 ≤ disk.lastSector ∧ disk.lastSector < NumSectors)
    (new : 0 ≤ newSector ∧ newSector < NumSectors) : 0 ≤ seekTime disk newSector ∧ seekTime disk newSector ≤ 15500 := by
  simp only [seekTime,SeekTime,SectorsPerTrack,NumSectors] at *
  omega

-- The seek, and the wait for the boundary where the sum fits the clock.
theorem TimeToSeek_eq (ticks : 0 ≤ totalTicks ∧ totalTicks < 2 ^ 63)
    (last : 0 ≤ disk.lastSector ∧ disk.lastSector < NumSectors) (new : 0 ≤ newSector ∧ newSector < NumSectors) :
    (TimeToSeek totalTicks disk newSector).1 = seekTime disk newSector ∧
    (TimeToSeek totalTicks disk newSector).2 =
      if totalTicks + seekTime disk newSector < 2 ^ 63 then
        arrival totalTicks disk newSector - (totalTicks + seekTime disk newSector)
      else 0 := by
  have bound := seekTime_bound last new
  have seek : (TimeToSeek totalTicks disk newSector).1 = seekTime disk newSector := by
    have whole : ((newSector.tdiv SectorsPerTrack - disk.lastSector.tdiv SectorsPerTrack).natAbs * SeekTime : Int) =
        seekTime disk newSector := by
      rw [Int.tdiv_eq_ediv_of_nonneg new.1,Int.tdiv_eq_ediv_of_nonneg last.1,seekTime,Int.mul_comm]
    simp only [TimeToSeek,whole]
    exact int32_small (by omega) (by omega)
  refine ⟨seek,?_⟩
  have rotation : (TimeToSeek totalTicks disk newSector).2 =
      roundUp (int32 ((int64 (totalTicks + (TimeToSeek totalTicks disk newSector).1)).tmod RotationTime)) := by
    simp only [TimeToSeek]
  rw [rotation,seek,arrival]
  generalize seekTime disk newSector = way at *
  simp only [RotationTime]
  split
  · rename_i fits
    have clock : int64 (totalTicks + way) = totalTicks + way := int64_small (by omega) fits
    have small : int32 ((totalTicks + way) % 500) = (totalTicks + way) % 500 := int32_small (by omega) (by omega)
    rw [clock,Int.tmod_eq_emod_of_nonneg (by omega),small,roundUp,RotationTime]
    split
    · have rest : int32 (500 - (totalTicks + way) % 500) = 500 - (totalTicks + way) % 500 :=
        int32_small (by omega) (by omega)
      rw [rest]
      omega
    · omega
  · rename_i out
    have clock : int64 (totalTicks + way) = totalTicks + way - 2 ^ 64 := int64_large (by omega) (by omega)
    have small : int32 (-(-(totalTicks + way - 2 ^ 64) % 500)) = -(-(totalTicks + way - 2 ^ 64) % 500) :=
      int32_small (by omega) (by omega)
    rw [clock,tmod_negative (by omega),small,roundUp,if_neg (by omega)]

-- What ComputeLatency gives, with the wait for the boundary left open.
theorem ComputeLatency_eq (ticks : 0 ≤ totalTicks ∧ totalTicks < 2 ^ 63)
    (last : 0 ≤ disk.lastSector ∧ disk.lastSector < NumSectors) (new : 0 ≤ newSector ∧ newSector < NumSectors)
    (unbuffered : buffered totalTicks disk newSector writing = false) :
    ∃ rotation, (TimeToSeek totalTicks disk newSector).2 = rotation ∧ ComputeLatency totalTicks disk newSector writing =
      seekTime disk newSector + rotation +
        (newSector - (int32 (totalTicks + seekTime disk newSector + rotation)).tdiv RotationTime) % SectorsPerTrack * RotationTime +
        RotationTime := by
  obtain ⟨seek,waits⟩ := TimeToSeek_eq ticks last new
  have bound := seekTime_bound last new
  have small : 0 ≤ (TimeToSeek totalTicks disk newSector).2 ∧ (TimeToSeek totalTicks disk newSector).2 < 500 := by
    rw [waits,arrival]
    simp only [RotationTime]
    split <;> omega
  refine ⟨_,rfl,?_⟩
  have after : timeAfter totalTicks disk newSector =
      int32 (totalTicks + seekTime disk newSector + (TimeToSeek totalTicks disk newSector).2) := by
    simp only [timeAfter,seek]
    rw [int32_int64,int32_int64_add]
  have latency : ComputeLatency totalTicks disk newSector writing =
      int32 ((TimeToSeek totalTicks disk newSector).1 + int32 ((TimeToSeek totalTicks disk newSector).2 +
        ModuloDiff newSector (int32 ((timeAfter totalTicks disk newSector).tdiv RotationTime)) * RotationTime) +
          RotationTime) := by
    simp only [ComputeLatency,unbuffered,Bool.false_eq_true,if_false]
  rw [latency,seek,after]
  generalize (TimeToSeek totalTicks disk newSector).2 = rotation at *
  generalize cut : int32 (totalTicks + seekTime disk newSector + rotation) = time
  have range : -2 ^ 31 ≤ time ∧ time < 2 ^ 31 := by
    rw [← cut,int32_cut]
    omega
  have sector : int32 (time.tdiv RotationTime) = time.tdiv RotationTime := by
    simp only [RotationTime]
    rcases Int.lt_or_le time 0 with negative | nonneg
    · rw [tdiv_negative negative]
      exact int32_small (by omega) (by omega)
    · rw [Int.tdiv_eq_ediv_of_nonneg nonneg]
      exact int32_small (by omega) (by omega)
  rw [sector,ModuloDiff_eq new.1]
  generalize time.tdiv RotationTime = from_
  simp only [SectorsPerTrack,RotationTime]
  have wait : int32 (rotation + (newSector - from_) % 32 * 500) = rotation + (newSector - from_) % 32 * 500 :=
    int32_small (by omega) (by omega)
  rw [wait,int32_small (by omega) (by omega)]
  omega

-- From the boundary of sector q on, with the disk taken to be at the sector q - gone.
theorem lands_boundary {rotation gone : Int} (bound : 0 ≤ seekTime disk newSector)
    (reached : totalTicks + seekTime disk newSector + rotation = q * RotationTime)
    (wait : 0 ≤ rotation ∧ rotation < RotationTime) :
    Lands totalTicks disk newSector (seekTime disk newSector + rotation +
      (newSector - (q - gone)) % SectorsPerTrack * RotationTime + RotationTime) ↔ gone % SectorsPerTrack = 0 := by
  generalize away : (newSector - (q - gone)) % SectorsPerTrack = sectors
  have end_ : totalTicks + (seekTime disk newSector + rotation + sectors * RotationTime + RotationTime) =
      (q + sectors + 1) * RotationTime := by
    simp only [RotationTime] at *
    omega
  have at_ : (totalTicks + (seekTime disk newSector + rotation + sectors * RotationTime + RotationTime)) / RotationTime - 1 =
      q + sectors := by
    rw [end_]
    simp only [RotationTime]
    omega
  simp only [SectorsPerTrack] at *
  constructor
  · intro lands
    have passed := lands.passed
    rw [at_] at passed
    simp only [SectorsPerTrack] at passed
    omega
  · intro whole
    refine ⟨?_,?_,?_,?_,?_,?_⟩
    · simp only [RotationTime] at *
      omega
    · rw [end_,RotationTime]
      omega
    · rw [at_]
      simp only [SectorsPerTrack]
      omega
    · simp only [SectorsPerTrack,RotationTime] at *
      omega
    · simp only [RotationTime] at *
      omega
    · intro earlier after exact_ passed
      simp only [SectorsPerTrack,RotationTime] at *
      omega

end

-- Past 2^31 ticks the head is no longer where the int says. The latency is right exactly
-- where whole turns are lost.
theorem latency_lands_iff {totalTicks newSector : Int} {disk : Disk} {writing : Bool}
    (ticks : 0 ≤ totalTicks ∧ totalTicks < 2 ^ 63) (last : 0 ≤ disk.lastSector ∧ disk.lastSector < NumSectors)
    (new : 0 ≤ newSector ∧ newSector < NumSectors) (unbuffered : buffered totalTicks disk newSector writing = false) :
    Lands totalTicks disk newSector (ComputeLatency totalTicks disk newSector writing) ↔
      Fits totalTicks disk newSector := by
  obtain ⟨rotation,waits,latency⟩ := ComputeLatency_eq ticks last new unbuffered
  rw [(TimeToSeek_eq ticks last new).2] at waits
  have bound := seekTime_bound last new
  rw [latency]
  by_cases sum : totalTicks + seekTime disk newSector < 2 ^ 63 ∨ (totalTicks + seekTime disk newSector) % RotationTime = 0
  · have reached : totalTicks + seekTime disk newSector + rotation = arrival totalTicks disk newSector := by
      rw [← waits,arrival]
      simp only [RotationTime] at *
      split <;> omega
    have boundary : arrival totalTicks disk newSector =
        (totalTicks + seekTime disk newSector + (RotationTime - 1)) / RotationTime * RotationTime := rfl
    have positive : 0 ≤ arrival totalTicks disk newSector := by
      simp only [arrival,RotationTime]
      omega
    have sector := cut_sector boundary
    have wait : 0 ≤ rotation ∧ rotation < RotationTime := by
      simp only [arrival,RotationTime] at *
      omega
    rw [reached,sector,Fits,lands_boundary bound.1 (reached.trans boundary) wait]
    exact ⟨fun whole => ⟨whole,sum⟩,And.left⟩
  · refine iff_of_false (fun lands => ?_) fun fits => sum fits.2
    have none : rotation = 0 := by
      rw [← waits,if_neg fun fits => sum (.inl fits)]
    have exact_ := lands.boundary
    rw [none] at exact_
    generalize (newSector - (int32 (totalTicks + seekTime disk newSector + 0)).tdiv RotationTime) % SectorsPerTrack = sectors at *
    simp only [RotationTime] at *
    omega

-- 352 ticks from a boundary that the int puts 10 sectors, and not 24, behind the first.
theorem latency_misses : buffered 2147483648 ⟨0,0⟩ 0 true = false ∧
    ¬Lands 2147483648 ⟨0,0⟩ 0 (ComputeLatency 2147483648 ⟨0,0⟩ 0 true) := by
  refine ⟨rfl,fun lands => ?_⟩
  have passed := lands.passed
  revert passed
  decide

-- The 94489280 sectors that the int has lost at the one time are whole turns of 32, the
-- 8589934 at the other are not.
theorem latency_lands_iff_turns : Lands 45097160000 ⟨0,0⟩ 5 (ComputeLatency 45097160000 ⟨0,0⟩ 5 true) ∧
    ¬Lands 2147480000 ⟨700,0⟩ 5 (ComputeLatency 2147480000 ⟨700,0⟩ 5 true) := by
  have whole : Fits 45097160000 ⟨0,0⟩ 5 := by
    unfold Fits
    decide
  have broken : ¬Fits 2147480000 ⟨700,0⟩ 5 := by
    unfold Fits
    decide
  exact ⟨(latency_lands_iff (by decide) (by decide) (by decide) rfl).mpr whole,
    mt (latency_lands_iff (by decide) (by decide) (by decide) rfl).mp broken⟩

end Nachos.Latency
