import Nachos.Interrupts

-- What holds along whole runs of the interrupt simulation, and that its loops end.
namespace Nachos.Interrupt
open Agenda

variable {s after : Interrupt H} {behaviour : Behaviour H}

theorem setLevel_later (changed : s.setLevel now = some after) : s.totalTicks ≤ after.totalTicks := by
  rcases setLevel_cases changed with ⟨rfl,_⟩ | ⟨rfl,_⟩
  · exact le_rfl
  · exact oneTick_later {s with level := now}

theorem schedule_fields (scheduled : s.schedule handler arg fromNow type = some after) :
    ∃ toOccur : PendingInterrupt H, s.totalTicks < toOccur.when ∧
      after = {s with
        pending := sortedInsert PendingInterrupt.when toOccur s.pending
        scheduled := toOccur :: s.scheduled} := by
  unfold schedule at scheduled
  split at scheduled
  · rename_i later
    cases scheduled
    exact ⟨_,by dsimp only; omega,rfl⟩
  · cases scheduled

theorem request_later (granted : s.request asked = some after) : s.totalTicks ≤ after.totalTicks := by
  cases asked with
  | schedule handler arg fromNow type =>
    obtain ⟨toOccur,_,rfl⟩ := schedule_fields granted
    exact le_rfl
  | setLevel now => exact setLevel_later granted
  | yieldOnReturn =>
    simp only [request] at granted
    split at granted <;> cases granted
    exact le_rfl

theorem leave_totalTicks (s : Interrupt H) (loop : Loop) : (s.leave loop).totalTicks = s.totalTicks := by
  cases loop with
  | oneTick old =>
    unfold leave
    dsimp only
    split <;> rfl
  | idle => rfl

theorem step_later (steps : Steps behaviour s after) : s.totalTicks ≤ after.totalTicks := by
  cases steps with
  | setLevel _ changed => exact setLevel_later changed
  | oneTick => exact oneTick_later s
  | schedule _ scheduled =>
    obtain ⟨toOccur,_,rfl⟩ := schedule_fields scheduled
    exact le_rfl
  | setStatus | halt | returns => exact le_rfl
  | idles _ _ ways | stops _ _ ways | invokes _ _ ways => exact (checked_later ways :)
  | leaves _ _ ways =>
    rw [leave_totalTicks]
    exact checked_later ways
  | requests _ granted => exact (request_later granted :)

-- The flags that CheckIfDue leaves behind.
theorem checked_flags (checked : Checked s advanceClock after fired) :
    after.level = s.level ∧ after.phase = s.phase ∧ after.yieldOnReturn = s.yieldOnReturn ∧
      (fired = none → after.inHandler = s.inHandler ∧ after.status = s.status) ∧
      (fired ≠ none → after.inHandler = true) := by
  have moved : ∀ when, (s.advance advanceClock when).level = s.level ∧
      (s.advance advanceClock when).phase = s.phase ∧
      (s.advance advanceClock when).yieldOnReturn = s.yieldOnReturn ∧
      (s.advance advanceClock when).inHandler = s.inHandler := by
    intro when
    unfold advance
    split <;> simp
  cases checked with
  | empty | early => simp
  | onlyTimer _ _ clock | fires _ clock => simp [clock,moved]

theorem leave_fits (flags : s.inHandler = false) (mode : s.status = .IdleMode → loop = .idle) :
    (s.leave loop).Fits (s.leave loop).phase := by
  cases loop with
  | oneTick old =>
    have awake : s.status ≠ .IdleMode := fun idle => by cases mode idle
    unfold leave
    dsimp only
    split <;> simp [Fits,flags,awake]
  | idle => simp [leave,Fits,flags]

theorem setLevel_fits (outside : s.phase = .outside) (fits : s.Fits s.phase) (changed : s.setLevel now = some after) :
    after.Fits after.phase := by
  rw [outside] at fits
  obtain ⟨flag,mode⟩ := fits
  rcases setLevel_cases changed with ⟨rfl,_⟩ | ⟨rfl,_⟩
  · simp [Fits,outside,flag,mode]
  · unfold oneTick
    dsimp only
    split <;> simp_all [Fits]

theorem oneTick_fits (outside : s.phase = .outside) (fits : s.Fits s.phase) : s.oneTick.Fits s.oneTick.phase := by
  rw [outside] at fits
  obtain ⟨flag,mode⟩ := fits
  unfold oneTick
  dsimp only
  split <;> simp_all [Fits]

-- Inside a handler a request leaves the level off and the status to CheckIfDue.
theorem request_flags (off : s.level = .IntOff) (handling : s.inHandler = true) (granted : s.request asked = some after) :
    after.level = .IntOff ∧ after.inHandler = true ∧ after.totalTicks = s.totalTicks ∧
      due PendingInterrupt.when s.totalTicks after.pending = due PendingInterrupt.when s.totalTicks s.pending := by
  cases asked with
  | schedule handler arg fromNow type =>
    obtain ⟨toOccur,later,rfl⟩ := schedule_fields granted
    simp [off,handling,due_sortedInsert,later]
  | setLevel now =>
    simp only [request,setLevel,handling] at granted
    split at granted
    · rename_i low
      simp only [Bool.true_eq_false,or_false] at low
      simp only [low] at granted
      cases granted
      simp
    · cases granted
  | yieldOnReturn =>
    simp only [request,handling,if_true] at granted
    cases granted
    simp [off]

theorem step_fits (behaved : Behaved behaviour) (fits : s.Fits s.phase) (steps : Steps behaviour s after) :
    after.Fits after.phase := by
  cases steps with
  | setLevel outside changed => exact setLevel_fits outside fits changed
  | oneTick outside => exact oneTick_fits outside fits
  | schedule outside scheduled =>
    obtain ⟨toOccur,_,rfl⟩ := schedule_fields scheduled
    rw [outside] at fits
    simpa only [outside,Fits] using fits
  | setStatus outside mode =>
    rw [outside] at fits
    simpa only [outside,Fits] using ⟨fits.1,mode⟩
  | halt | stops => trivial
  | idles outside off ways =>
    obtain ⟨level,_,_,_,handling⟩ := checked_flags ways
    exact ⟨level.trans off,handling (by simp),fun _ => rfl,behaved _ _ _⟩
  | invokes looping off ways =>
    rw [looping] at fits
    obtain ⟨level,_,_,_,handling⟩ := checked_flags ways
    exact ⟨level.trans off,handling (by simp),fits.2.2,behaved _ _ _⟩
  | leaves looping off ways =>
    rw [looping] at fits
    obtain ⟨_,_,_,same,_⟩ := checked_flags ways
    obtain ⟨handling,status⟩ := same rfl
    exact leave_fits (handling.trans fits.2.1) (by rw [status]; exact fits.2.2)
  | requests handling granted =>
    rw [handling] at fits
    obtain ⟨off,inside,mode,allowed⟩ := fits
    obtain ⟨level,flag,_,_⟩ := request_flags off inside granted
    exact ⟨level,flag,mode,fun asked member => allowed asked (by simp [member])⟩
  | returns handling =>
    rw [handling] at fits
    exact ⟨fits.1,rfl,fits.2.2.1⟩

theorem reached_fits (behaved : Behaved behaviour) (reached : Reached behaviour s) : s.Fits s.phase := by
  induction reached with
  | initial => exact ⟨rfl,by simp [initial]⟩
  | step _ stepped ih => exact step_fits behaved ih (step_sound stepped)

theorem run_append (first : s.run behaviour actions = some middle) (rest : middle.run behaviour later = some after) :
    s.run behaviour (actions ++ later) = some after := by
  induction actions generalizing s with
  | nil =>
    cases first
    exact rest
  | cons action actions ih =>
    simp only [run,Option.bind_eq_bind,Option.bind_eq_some_iff] at first
    obtain ⟨next,stepped,path⟩ := first
    simp [run,stepped,ih path]

theorem run_reached (reached : Reached behaviour s) (path : s.run behaviour actions = some after) :
    Reached behaviour after := by
  induction actions generalizing s with
  | nil =>
    cases path
    exact reached
  | cons action actions ih =>
    simp only [run,Option.bind_eq_bind,Option.bind_eq_some_iff] at path
    obtain ⟨next,stepped,later⟩ := path
    exact ih (reached.step stepped) later

theorem goes_cons (stepped : s.step behaviour .go = some middle) (rest : middle.goes behaviour steps = some after) :
    s.goes behaviour (steps + 1) = some after := by
  simpa [goes,List.replicate_succ,run,stepped] using rest

theorem goes_trans {middle : Interrupt H} (first : s.goes behaviour steps = some middle)
    (rest : middle.goes behaviour more = some after) : s.goes behaviour (steps + more) = some after := by
  unfold goes
  rw [List.replicate_add]
  exact run_append first rest

theorem request_granted (handling : s.inHandler = true) (allowed : asked.Allowed) :
    ∃ served, s.request asked = some served := by
  cases asked with
  | schedule handler arg fromNow type =>
    have later : 0 < fromNow := allowed
    exact ⟨_,by simp [request,schedule,later]; rfl⟩
  | setLevel now =>
    obtain rfl : now = .IntOff := allowed
    exact ⟨_,by simp [request,setLevel]; rfl⟩
  | yieldOnReturn => exact ⟨_,by simp [request,handling]; rfl⟩

-- A handler asks for finitely many things and returns; nothing new is due by then.
theorem handler_returns (behaviour : Behaviour H) (phase : s.phase = .handling loop old rest) (fits : s.Fits s.phase) :
    ∃ steps back, s.goes behaviour steps = some back ∧ back.phase = .looping loop ∧
      back.totalTicks = s.totalTicks ∧
      due PendingInterrupt.when back.totalTicks back.pending = due PendingInterrupt.when s.totalTicks s.pending := by
  induction rest generalizing s with
  | nil =>
    have stepped : s.step behaviour .go =
        some {s with status := old, inHandler := false, phase := .looping loop} := by simp [step,phase,handle]
    exact ⟨1,_,goes_cons stepped rfl,rfl,rfl,rfl⟩
  | cons asked rest ih =>
    rw [phase] at fits
    obtain ⟨off,inside,mode,allowed⟩ := fits
    obtain ⟨served,granted⟩ := request_granted inside (allowed asked (by simp))
    obtain ⟨level,flag,clock,same⟩ := request_flags off inside granted
    have stepped : s.step behaviour .go = some {served with phase := .handling loop old rest} := by
      simp [step,phase,handle,granted]
    have later : ∀ asked ∈ rest, asked.Allowed := fun asked member => allowed asked (by simp [member])
    obtain ⟨steps,back,path,looping,stays,count⟩ :=
      ih (s := {served with phase := .handling loop old rest}) rfl ⟨level,flag,mode,later⟩
    refine ⟨steps + 1,back,goes_cons stepped path,looping,stays.trans clock,count.trans ?_⟩
    dsimp only
    rw [clock,same]

theorem checkIfDue_total (off : s.level = .IntOff) (advanceClock : Bool) :
    ∃ checked fired, s.checkIfDue advanceClock = some (checked,fired) := by
  unfold checkIfDue
  rw [if_neg (by simp [off])]
  split
  · exact ⟨_,_,rfl⟩
  · dsimp only
    split
    · exact ⟨_,_,rfl⟩
    · split
      · exact ⟨_,_,rfl⟩
      · exact ⟨_,_,rfl⟩

theorem leave_phase (s : Interrupt H) (loop : Loop) :
    (s.leave loop).phase = .outside ∧ (s.leave loop).pending = s.pending := by
  cases loop with
  | oneTick old =>
    unfold leave
    dsimp only
    split <;> simp
  | idle => simp [leave]

-- Outside of Idle the loop is left only when nothing is due.
theorem unfired_late (timely : Timely s) (awake : s.status ≠ .IdleMode) (checked : Checked s false after none) :
    ∀ p ∈ after.pending, after.totalTicks < p.when := by
  cases checked with
  | empty none_ => simp [none_]
  | early waiting _ late =>
    intro p member
    refine sorted_later (waiting ▸ timely.sorted) late p ?_
    exact List.mem_cons.mpr (mem_sortedInsert.mp member)
  | onlyTimer _ idle => exact absurd idle awake

theorem fired_due (checked : Checked s false after (some toOccur)) : after.totalTicks = s.totalTicks ∧
    due PendingInterrupt.when after.totalTicks after.pending < due PendingInterrupt.when s.totalTicks s.pending := by
  cases checked with
  | fires waiting clock come =>
    have still : s.advance false toOccur.when = s := by simp [advance]
    rw [still] at clock
    cases clock
    refine ⟨rfl,?_⟩
    dsimp only
    rw [waiting,due,due,List.countP_cons]
    simp [come]

-- Each round that fires a handler leaves fewer interrupts due, since handlers
-- schedule only for later; so the loop ends.
theorem loop_ends (behaved : Behaved behaviour) (reached : Reached behaviour s) (looping : s.phase = .looping loop) :
    ∃ steps after, s.goes behaviour steps = some after ∧ after.phase = .outside ∧
      (loop ≠ .idle → ∀ p ∈ after.pending, after.totalTicks < p.when) := by
  induction count : due PendingInterrupt.when s.totalTicks s.pending using Nat.strongRecOn generalizing s with
  | _ count ih =>
    subst count
    have fits := reached_fits behaved reached
    rw [looping] at fits
    obtain ⟨checked,fired,checks⟩ := checkIfDue_total fits.1 false
    obtain ⟨off,ways⟩ := checkIfDue_cases checks
    cases fired with
    | none =>
      have stepped : s.step behaviour .go = some (checked.leave loop) := by simp [step,looping,round,checks]
      refine ⟨1,_,goes_cons stepped rfl,(leave_phase _ _).1,?_⟩
      intro ticking p member
      rw [leave_totalTicks]
      rw [(leave_phase _ _).2] at member
      exact unfired_late (reached_timely reached) (fun idle => ticking (fits.2.2 idle)) ways p member
    | some toOccur =>
      have stepped : s.step behaviour .go = some (checked.invoke behaviour loop s.status toOccur) := by
        simp [step,looping,round,checks]
      obtain ⟨clock,fewer⟩ := fired_due ways
      have invoked := reached.step stepped
      obtain ⟨steps,back,path,again,stays,same⟩ := handler_returns behaviour
        (s := checked.invoke behaviour loop s.status toOccur) rfl (reached_fits behaved invoked)
      have handled := goes_cons stepped path
      have drops : due PendingInterrupt.when back.totalTicks back.pending <
          due PendingInterrupt.when s.totalTicks s.pending := lt_of_eq_of_lt same fewer
      obtain ⟨more,after,rest,ended⟩ := ih _ drops (run_reached reached handled) again rfl
      exact ⟨_,after,goes_trans handled rest,ended⟩

-- A timer that schedules itself again and asks for a context switch, beside a
-- disk whose first interrupt is due at the first tick.
def timerAndDisk : Behaviour Bool
  | true,_,_ => [.schedule true 0 100 .TimerInt,.setLevel .IntOff,.yieldOnReturn]
  | false,_,_ => []

def timerRun : List (Action Bool) :=
  [.schedule true 0 100 .TimerInt,.schedule false 3 5 .DiskInt,.schedule false 4 200 .DiskInt,.setLevel .IntOn]

end Nachos.Interrupt
