import Nachos.CpuThreads
import Mathlib.Data.List.Nodup

-- Every thread is in one place: running, on the ready list, on the queue it sleeps
-- on, finished, or not yet forked.
namespace Nachos.Cpu

variable [DecidableEq T] [DecidableEq L] [DecidableEq C] [DecidableEq S] {v w : View T L C S}
  {bed : T → Option (Bed L C S)}

-- `bed` is the queue a thread is on. It joins the queue before its status becomes
-- BLOCKED, and the frame `sleep` stands for the time between.
structure Conserved (v : View T L C S) (bed : T → Option (Bed L C S)) : Prop where
  queued : ∀ q t, t ∈ v.queue q ↔ bed t = some q
  nodup : ∀ q, (v.queue q).Nodup
  ready : ∀ t, t ∈ v.readyList ↔ v.status t = .READY
  once : v.readyList.Nodup
  running : ∀ t, v.status t = .RUNNING → t = v.currentThread
  awake : (∀ reason, .sleepLoop reason ∉ v.stack v.currentThread) → v.status v.currentThread = .RUNNING
  dozing : ∀ reason, .sleepLoop reason ∈ v.stack v.currentThread →
    v.status v.currentThread = .BLOCKED ∨ v.status v.currentThread = .READY
  blocked : ∀ t, v.status t = .BLOCKED → bed t ≠ none ∨ t ∈ v.finished
  bedded : ∀ t q, bed t = some q →
    v.status t = .BLOCKED ∨ (t = v.currentThread ∧ .sleep (.waits q) ∈ v.stack v.currentThread)
  lying : ∀ q, .sleep (.waits q) ∈ v.stack v.currentThread → bed v.currentThread = some q
  ending : .sleep .finishes ∈ v.stack v.currentThread → v.currentThread ∈ v.finished
  yielding : .sleep .yields ∉ v.stack v.currentThread
  gone : ∀ t, t ∈ v.finished →
    bed t = none ∧ (v.status t = .BLOCKED ∨ (t = v.currentThread ∧ .sleep .finishes ∈ v.stack v.currentThread))
  distinct : v.finished.Nodup
  fifo : v.enqueued = v.dispatched ++ v.readyList

omit [DecidableEq L] [DecidableEq C] [DecidableEq S] in
theorem initial_conserved (main : T) (initialValue : S → Int) :
    Conserved (initial main initialValue : Cpu T L C S).view fun _ => none := by
  refine ⟨?_,?_,?_,?_,?_,?_,?_,?_,?_,?_,?_,?_,?_,?_,rfl⟩
  · intro q t
    cases q <;> simp [view,queue,initial,Lock.new,Condition.new,Semaphore.new]
  · intro q
    cases q <;> simp [view,queue,initial,Lock.new,Condition.new,Semaphore.new]
  · intro t
    by_cases same : t = main
    · subst same; simp [view,initial]
    · simp [view,initial,same]
  · simp [view,initial]
  · intro t runs
    by_contra other
    simp [view,initial] at runs
    simp [show t ≠ main from other] at runs
  · simp [view,initial]
  · simp [view,initial]
  · intro t blocked
    by_cases same : t = main
    · subst same; simp [view,initial] at blocked
    · simp [view,initial,same] at blocked
  · simp
  · simp [view,initial]
  · simp [view,initial]
  · simp [view,initial]
  · simp [view,initial,finishedOf]
  · simp [view,initial,finishedOf]

-- While nothing of Sleep is on the stack the running thread is on no queue.
omit [DecidableEq T] [DecidableEq L] [DecidableEq C] [DecidableEq S] in
theorem Conserved.up (conserved : Conserved v bed) (clear : Clear (v.stack v.currentThread)) :
    v.status v.currentThread = .RUNNING ∧ bed v.currentThread = none ∧ v.currentThread ∉ v.finished := by
  have runs := conserved.awake fun reason => (clear_sleeps clear reason).2
  refine ⟨runs,?_,?_⟩
  · cases place : bed v.currentThread with
    | none => rfl
    | some q =>
      rcases conserved.bedded _ _ place with blocked | ⟨_,sleeps⟩
      · simp [runs] at blocked
      · exact absurd sleeps (clear_sleeps clear _).1
  · intro finished
    rcases (conserved.gone _ finished).2 with blocked | ⟨_,sleeps⟩
    · simp [runs] at blocked
    · exact absurd sleeps (clear_sleeps clear _).1

omit [DecidableEq L] [DecidableEq C] [DecidableEq S] in
theorem still_conserved (conserved : Conserved v bed) (same : SameSleeps (v.stack v.currentThread) frames) :
    Conserved (v.frames frames) bed := by
  obtain ⟨queued,nodup,ready,once,running,awake,dozing,blocked,bedded,lying,ending,yielding,gone,distinct,fifo⟩ := conserved
  have top : (v.frames frames).stack (v.frames frames).currentThread = frames := Function.update_self _ _ _
  refine ⟨queued,nodup,ready,once,running,?_,?_,blocked,?_,?_,?_,?_,?_,distinct,fifo⟩
  · rw [top]
    exact fun none_ => awake fun reason member => none_ reason ((same reason).2.mpr member)
  · rw [top]
    exact fun reason member => dozing reason ((same reason).2.mp member)
  · rw [top]
    intro t q place
    refine (bedded t q place).imp_right ?_
    exact fun lies => ⟨lies.1,(same _).1.mpr lies.2⟩
  · rw [top]
    exact fun q member => lying q ((same _).1.mp member)
  · rw [top]
    exact fun member => ending ((same _).1.mp member)
  · rw [top]
    exact fun member => yielding ((same _).1.mp member)
  · rw [top]
    intro t finished
    obtain ⟨none_,rest⟩ := gone t finished
    exact ⟨none_,rest.imp_right fun lies => ⟨lies.1,(same _).1.mpr lies.2⟩⟩

theorem joins_conserved (conserved : Conserved v bed) (clear : Clear (v.stack v.currentThread))
    (sleeps : ∀ reason, (.sleep reason ∈ frames ↔ reason = .waits q) ∧ .sleepLoop reason ∉ frames) :
    Conserved {v.frames frames with queue := Function.update v.queue q (v.queue q ++ [v.currentThread])}
      (Function.update bed v.currentThread (some q)) := by
  obtain ⟨runs,out,alive⟩ := conserved.up clear
  obtain ⟨queued,nodup,ready,once,running,_,_,blocked,bedded,_,_,_,gone,distinct,fifo⟩ := conserved
  have top : (v.frames frames).stack v.currentThread = frames := Function.update_self _ _ _
  have moved : ∀ t, v.status t = .BLOCKED → t ≠ v.currentThread := by
    rintro t asleep rfl
    simp [runs] at asleep
  refine ⟨?_,?_,ready,once,running,?_,?_,?_,?_,?_,?_,?_,?_,distinct,fifo⟩
  · intro r t
    by_cases self : t = v.currentThread
    · subst self
      by_cases same : r = q
      · subst same; simp
      · simpa [same,Ne.symm same,out] using queued r v.currentThread
    · by_cases same : r = q
      · subst same; simpa [self] using queued r t
      · simpa [same,self] using queued r t
  · intro r
    by_cases same : r = q
    · subst same
      have absent : v.currentThread ∉ v.queue r := by simp [queued,out]
      simpa using List.Nodup.concat absent (nodup r)
    · simpa [same] using nodup r
  · exact fun _ => runs
  · intro reason member
    dsimp only [View.frames] at member
    rw [Function.update_self] at member
    exact absurd member (sleeps reason).2
  · intro t asleep
    simpa [View.frames,moved t asleep] using blocked t asleep
  · intro t r place
    by_cases self : t = v.currentThread
    · subst self
      obtain rfl : q = r := by simpa using place
      refine .inr ⟨rfl,?_⟩
      dsimp only [View.frames]
      rw [Function.update_self]
      exact (sleeps _).1.mpr rfl
    · refine (bedded t r (by simpa [self] using place)).imp_right ?_
      exact fun lies => absurd lies.1 self
  · intro r member
    dsimp only [View.frames] at member ⊢
    rw [Function.update_self] at member
    cases (sleeps _).1.mp member
    simp
  · intro member
    dsimp only [View.frames] at member
    rw [Function.update_self] at member
    cases (sleeps _).1.mp member
  · intro member
    dsimp only [View.frames] at member
    rw [Function.update_self] at member
    cases (sleeps _).1.mp member
  · intro t finished
    obtain ⟨none_,rest⟩ := gone t finished
    have other : t ≠ v.currentThread := by rintro rfl; exact alive finished
    exact ⟨by simpa [other] using none_,rest.imp_right fun lies => absurd lies.1 other⟩

theorem wakes_conserved (conserved : Conserved v bed) (first : v.queue q = t :: rest)
    (up : .sleep (.waits q) ∉ v.stack v.currentThread) (same : SameSleeps (v.stack v.currentThread) frames) :
    Conserved {v.frames frames with
      queue := Function.update v.queue q rest
      status := Function.update v.status t .READY
      readyList := v.readyList ++ [t]
      enqueued := v.enqueued ++ [t]} (Function.update bed t none) := by
  obtain ⟨queued,nodup,ready,once,running,awake,dozing,blocked,bedded,lying,ending,yielding,gone,distinct,fifo⟩ :=
    still_conserved conserved same
  have place : bed t = some q := (queued q t).mp (by simp [View.frames,first])
  have asleep : v.status t = .BLOCKED := by
    refine (conserved.bedded t q place).resolve_right ?_
    exact fun lies => up lies.2
  obtain ⟨absent,others⟩ := List.nodup_cons.mp (first ▸ conserved.nodup q)
  refine ⟨?_,?_,?_,?_,?_,?_,?_,?_,?_,?_,ending,yielding,?_,distinct,?_⟩
  · intro r u
    by_cases self : u = t
    · subst self
      by_cases here : r = q
      · subst here; simpa using absent
      · have before := conserved.queued r u
        simp only [place,Option.some.injEq,Ne.symm here,iff_false] at before
        simpa [here] using before
    · by_cases here : r = q
      · subst here
        have before := conserved.queued r u
        simpa [self,first] using before
      · simpa [here,self] using conserved.queued r u
  · intro r
    by_cases here : r = q
    · subst here; simpa using others
    · simpa [here] using nodup r
  · intro u
    by_cases self : u = t
    · subst self; simp
    · simpa [self] using ready u
  · have out : t ∉ v.readyList := by
      intro member
      simp [(conserved.ready t).mp member] at asleep
    simpa using List.Nodup.concat out once
  · intro u runs
    by_cases self : u = t
    · subst self; simp at runs
    · exact running u (by simpa [self] using runs)
  · intro none_
    have runs : v.status v.currentThread = .RUNNING := awake none_
    have other : v.currentThread ≠ t := by rintro rfl; simp [runs] at asleep
    simpa [View.frames,other] using runs
  · intro reason member
    by_cases self : v.currentThread = t
    · exact .inr (by simp [View.frames,self])
    · simpa [View.frames,self] using dozing reason member
  · intro u sleeps
    have other : u ≠ t := by rintro rfl; simp at sleeps
    simpa [other] using blocked u (by simpa [other] using sleeps)
  · intro u r lies
    have other : u ≠ t := by rintro rfl; simp at lies
    simpa [other] using bedded u r (by simpa [other] using lies)
  · intro r member
    have before := lying r member
    have other : v.currentThread ≠ t := by
      intro self
      have equal : bed v.currentThread = some r := before
      rw [self,place] at equal
      cases equal
      exact up (((same _).1).mp (by simpa [View.frames] using member))
    simpa [View.frames,other] using before
  · intro u finished
    obtain ⟨none_,state⟩ := gone u finished
    have other : u ≠ t := by rintro rfl; simp [place] at none_
    exact ⟨by simpa [other] using none_,by simpa [other] using state⟩
  · simp [View.frames,conserved.fifo]

omit [DecidableEq L] [DecidableEq C] [DecidableEq S] in
theorem forks_conserved (conserved : Conserved v bed) (fresh : v.status t = .JUST_CREATED)
    (before : Clear (v.stack v.currentThread)) (clear : Clear frames) :
    Conserved {v with
      stack := Function.update (Function.update v.stack t [.root]) v.currentThread frames
      status := Function.update v.status t .READY
      readyList := v.readyList ++ [t]
      enqueued := v.enqueued ++ [t]} bed := by
  obtain ⟨runs,out,alive⟩ := conserved.up before
  obtain ⟨queued,nodup,ready,once,running,awake,dozing,blocked,bedded,lying,ending,yielding,gone,distinct,fifo⟩ := conserved
  have other : v.currentThread ≠ t := by rintro rfl; simp [runs] at fresh
  have loops := fun reason => (clear_sleeps clear reason).2
  have sleeps := fun reason => (clear_sleeps clear reason).1
  refine ⟨queued,nodup,?_,?_,?_,?_,?_,?_,?_,?_,?_,?_,?_,distinct,?_⟩
  · intro u
    by_cases self : u = t
    · subst self; simp
    · simpa [self] using ready u
  · have absent : t ∉ v.readyList := by
      intro member
      simp [(ready t).mp member] at fresh
    simpa using List.Nodup.concat absent once
  · intro u runs'
    by_cases self : u = t
    · subst self; simp at runs'
    · exact running u (by simpa [self] using runs')
  · intro _
    simpa [other] using runs
  · intro reason member
    exact absurd (by simpa using member) (loops reason)
  · intro u asleep
    have apart : u ≠ t := by rintro rfl; simp at asleep
    exact blocked u (by simpa [apart] using asleep)
  · intro u q lies
    rcases bedded u q lies with asleep | ⟨rfl,_⟩
    · have apart : u ≠ t := by rintro rfl; simp [fresh] at asleep
      exact .inl (by simpa [apart] using asleep)
    · simp [out] at lies
  · intro q member
    exact absurd (by simpa using member) (sleeps (.waits q))
  · intro member
    exact absurd (by simpa using member) (sleeps .finishes)
  · intro member
    exact absurd (by simpa using member) (sleeps .yields)
  · intro u finished
    obtain ⟨none_,state⟩ := gone u finished
    rcases state with asleep | ⟨rfl,_⟩
    · have apart : u ≠ t := by rintro rfl; simp [fresh] at asleep
      exact ⟨none_,.inl (by simpa [apart] using asleep)⟩
    · exact absurd finished alive
  · simp [fifo]

omit [DecidableEq L] [DecidableEq C] [DecidableEq S] in
theorem sleeps_conserved (conserved : Conserved v bed) (top : v.stack v.currentThread = .sleep reason :: rest)
    (clear : Clear rest) : Conserved {v.frames (.sleepLoop reason :: rest) with
      status := Function.update v.status v.currentThread .BLOCKED} bed := by
  obtain ⟨queued,nodup,ready,once,running,awake,dozing,blocked,bedded,lying,ending,yielding,gone,distinct,fifo⟩ := conserved
  have runs : v.status v.currentThread = .RUNNING := awake fun r => by simpa [top] using (clear_sleeps clear r).2
  have now : Function.update v.stack v.currentThread (.sleepLoop reason :: rest) v.currentThread =
      .sleepLoop reason :: rest := Function.update_self _ _ _
  have none_ : ∀ r, .sleep r ∉ Frame.sleepLoop reason :: rest := fun r => by simpa using (clear_sleeps clear r).1
  refine ⟨queued,nodup,?_,once,?_,?_,?_,?_,?_,?_,?_,?_,?_,distinct,fifo⟩
  · intro u
    by_cases self : u = v.currentThread
    · subst self; simpa [runs] using ready v.currentThread
    · simpa [self] using ready u
  · intro u runs'
    by_cases self : u = v.currentThread
    · exact self
    · exact running u (by simpa [self] using runs')
  · intro loops
    exact absurd (by simp [View.frames]) (loops reason)
  · intro r _
    exact .inl (Function.update_self _ _ _)
  · intro u asleep
    by_cases self : u = v.currentThread
    · subst self
      cases reason with
      | waits q => exact .inl (by simp [lying q (by simp [top])])
      | finishes => exact .inr (ending (by simp [top]))
      | yields => exact absurd (by simp [top]) yielding
    · exact blocked u (by simpa [self] using asleep)
  · intro u q lies
    by_cases self : u = v.currentThread
    · subst self
      exact .inl (Function.update_self _ _ _)
    · refine .inl ?_
      have asleep := (bedded u q lies).resolve_right fun here => self here.1
      simpa [self] using asleep
  · intro q member
    dsimp only [View.frames] at member
    rw [now] at member
    exact absurd member (none_ _)
  · intro member
    dsimp only [View.frames] at member
    rw [now] at member
    exact absurd member (none_ _)
  · intro member
    dsimp only [View.frames] at member
    rw [now] at member
    exact absurd member (none_ _)
  · intro u finished
    obtain ⟨out,state⟩ := gone u finished
    refine ⟨out,.inl ?_⟩
    by_cases self : u = v.currentThread
    · subst self; exact Function.update_self _ _ _
    · have asleep := state.resolve_right fun here => self here.1
      simpa [self] using asleep

-- The CPU goes to the first thread of the ready list; nothing of Sleep before its
-- SWITCH is on that thread's stack.
omit [DecidableEq L] [DecidableEq C] [DecidableEq S] in
theorem runs_conserved (conserved : Conserved v bed) (others : ∀ t, t ≠ v.currentThread → Clear (v.stack t))
    (top : v.stack v.currentThread = .sleepLoop reason :: rest) (clear : Clear rest) (first : v.readyList = next :: later) :
    Conserved {v.frames (.switched reason :: rest) with
      currentThread := next
      status := Function.update v.status next .RUNNING
      readyList := later
      dispatched := v.dispatched ++ [next]} bed := by
  obtain ⟨queued,nodup,ready,once,running,_,dozing,blocked,bedded,_,_,_,gone,distinct,fifo⟩ := conserved
  have waiting : v.status next = .READY := (ready next).mp (by simp [first])
  have idle : v.status v.currentThread ≠ .RUNNING := by
    rcases dozing reason (by simp [top]) with asleep | woken
    · simp [asleep]
    · simp [woken]
  have awake : ∀ r, .sleep r ∉ v.stack v.currentThread := fun r => by simpa [top] using (clear_sleeps clear r).1
  have calm : Clear (Function.update v.stack v.currentThread (.switched reason :: rest) next) := by
    by_cases self : next = v.currentThread
    · simpa [self] using clear_cons.mpr ⟨rfl,clear⟩
    · simpa [self] using others next self
  have quiet := fun r => clear_sleeps calm r
  obtain ⟨absent,later'⟩ := List.nodup_cons.mp (first ▸ once)
  refine ⟨queued,nodup,?_,later',?_,?_,?_,?_,?_,?_,?_,?_,?_,distinct,?_⟩
  · intro t
    by_cases self : t = next
    · subst self; simpa using absent
    · simpa [self,first] using ready t
  · intro t runs
    by_contra other
    have other : t ≠ next := other
    have before : v.status t = .RUNNING := by simpa [other] using runs
    exact idle (running t before ▸ before)
  · intro _
    exact Function.update_self _ _ _
  · intro r member
    exact absurd member (quiet r).2
  · intro t asleep
    have other : t ≠ next := by rintro rfl; simp at asleep
    exact blocked t (by simpa [other] using asleep)
  · intro t q lies
    have asleep := (bedded t q lies).resolve_right fun here => awake _ here.2
    have other : t ≠ next := by rintro rfl; simp [waiting] at asleep
    exact .inl (by simpa [other] using asleep)
  · intro q member
    exact absurd member (quiet _).1
  · intro member
    exact absurd member (quiet _).1
  · exact (quiet _).1
  · intro t finished
    obtain ⟨out,state⟩ := gone t finished
    have asleep := state.resolve_right fun here => awake _ here.2
    have other : t ≠ next := by rintro rfl; simp [waiting] at asleep
    exact ⟨out,.inl (by simpa [other] using asleep)⟩
  · simp [View.frames,fifo,first]

omit [DecidableEq L] [DecidableEq C] [DecidableEq S] in
theorem yields_conserved (conserved : Conserved v bed) (others : ∀ t, t ≠ v.currentThread → Clear (v.stack t))
    (before : Clear (v.stack v.currentThread)) (first : v.readyList = next :: later) :
    Conserved {v.frames frames with
      currentThread := next
      status := Function.update (Function.update v.status v.currentThread .READY) next .RUNNING
      readyList := later ++ [v.currentThread]
      enqueued := v.enqueued ++ [v.currentThread]
      dispatched := v.dispatched ++ [next]} bed := by
  obtain ⟨runs,out,alive⟩ := conserved.up before
  obtain ⟨queued,nodup,ready,once,running,_,_,blocked,bedded,_,_,_,gone,distinct,fifo⟩ := conserved
  have waiting : v.status next = .READY := (ready next).mp (by simp [first])
  have apart : next ≠ v.currentThread := by rintro rfl; simp [runs] at waiting
  have calm : Clear (Function.update v.stack v.currentThread frames next) := by simpa [apart] using others next apart
  have quiet := fun r => clear_sleeps calm r
  obtain ⟨absent,later'⟩ := List.nodup_cons.mp (first ▸ once)
  -- A thread on a queue or finished is neither the one that runs nor the next.
  have moved : ∀ t, v.status t = .BLOCKED → t ≠ next ∧ t ≠ v.currentThread := by
    intro t asleep
    constructor
    · rintro rfl; simp [waiting] at asleep
    · rintro rfl; simp [runs] at asleep
  have kept : ∀ t, v.status t = .BLOCKED →
      Function.update (Function.update v.status v.currentThread .READY) next .RUNNING t = .BLOCKED := by
    intro t asleep
    simpa [moved t asleep] using asleep
  refine ⟨queued,nodup,?_,?_,?_,?_,?_,?_,?_,?_,?_,?_,?_,distinct,?_⟩
  · intro t
    by_cases self : t = next
    · subst self; simpa [apart] using absent
    · by_cases current : t = v.currentThread
      · subst current; simp [self]
      · simpa [self,current,first] using ready t
  · have out' : v.currentThread ∉ later := by
      intro member
      have queued := (ready v.currentThread).mp (by simp [first,member])
      simp [runs] at queued
    simpa using List.Nodup.concat out' later'
  · intro t runs'
    by_contra other
    have other : t ≠ next := other
    by_cases current : t = v.currentThread
    · subst current; simp [other] at runs'
    · exact current (running t (by simpa [other,current] using runs'))
  · intro _
    exact Function.update_self _ _ _
  · intro r member
    exact absurd member (quiet r).2
  · intro t asleep
    have other : t ≠ next := by rintro rfl; simp at asleep
    have current : t ≠ v.currentThread := by rintro rfl; simp [other] at asleep
    exact blocked t (by simpa [other,current] using asleep)
  · intro t q lies
    refine .inl (kept t ?_)
    refine (bedded t q lies).resolve_right ?_
    rintro ⟨rfl,_⟩
    simp [out] at lies
  · intro q member
    exact absurd member (quiet _).1
  · intro member
    exact absurd member (quiet _).1
  · exact (quiet _).1
  · intro t finished
    obtain ⟨none_,state⟩ := gone t finished
    refine ⟨none_,.inl (kept t (state.resolve_right ?_))⟩
    rintro ⟨rfl,_⟩
    exact alive finished
  · simp [fifo,first]

omit [DecidableEq L] [DecidableEq C] [DecidableEq S] in
theorem finishes_conserved (conserved : Conserved v bed) (before : Clear (v.stack v.currentThread)) :
    Conserved {v.frames [.sleep .finishes] with finished := v.currentThread :: v.finished} bed := by
  obtain ⟨runs,out,alive⟩ := conserved.up before
  obtain ⟨queued,nodup,ready,once,running,_,_,blocked,bedded,_,_,_,gone,distinct,fifo⟩ := conserved
  have top : Function.update v.stack v.currentThread [.sleep .finishes] v.currentThread =
      [Frame.sleep .finishes] := Function.update_self _ _ _
  refine ⟨queued,nodup,ready,once,running,?_,?_,?_,?_,?_,?_,?_,?_,?_,fifo⟩
  · exact fun _ => runs
  · intro reason member
    dsimp only [View.frames] at member
    simp at member
  · intro t asleep
    exact (blocked t asleep).imp_right (List.mem_cons_of_mem _)
  · intro t q lies
    refine .inl ((bedded t q lies).resolve_right ?_)
    rintro ⟨rfl,_⟩
    simp [out] at lies
  · intro q member
    dsimp only [View.frames] at member
    simp at member
  · intro _
    exact List.mem_cons_self ..
  · dsimp only [View.frames]
    simp
  · intro t finished
    dsimp only [View.frames]
    rcases List.mem_cons.mp finished with rfl | earlier
    · exact ⟨out,.inr ⟨rfl,by simp⟩⟩
    · obtain ⟨none_,state⟩ := gone t earlier
      refine ⟨none_,.inl (state.resolve_right ?_)⟩
      rintro ⟨rfl,_⟩
      exact alive earlier
  · exact List.nodup_cons.mpr ⟨alive,distinct⟩

theorem turn_conserved (conserved : Conserved v bed) (others : ∀ t, t ≠ v.currentThread → Clear (v.stack t))
    (turn : Turn v w) : ∃ bed, Conserved w bed := by
  cases turn with
  | still same => exact ⟨_,still_conserved conserved same⟩
  | joins clear sleeps => exact ⟨_,joins_conserved conserved clear sleeps⟩
  | wakes first up same => exact ⟨_,wakes_conserved conserved first up same⟩
  | forks fresh before clear => exact ⟨_,forks_conserved conserved fresh before clear⟩
  | sleeps top clear => exact ⟨_,sleeps_conserved conserved top clear⟩
  | runs top clear first => exact ⟨_,runs_conserved conserved others top clear first⟩
  | yields before clear first => exact ⟨_,yields_conserved conserved others before first⟩
  | finishes before => exact ⟨_,finishes_conserved conserved before⟩

theorem reached_conserved {c : Cpu T L C S} (reached : Reached main initialValue c) :
    ∃ bed, Conserved c.view bed := by
  induction reached with
  | initial => exact ⟨_,initial_conserved main initialValue⟩
  | step prior stepped ih =>
    obtain ⟨bed,conserved⟩ := ih
    have orderly := reached_orderly prior
    rcases (step_turn (reached_leveled prior) orderly stepped).2 with turn | same
    · exact turn_conserved conserved (fun t other => (orderly.others t other).1) turn
    · exact ⟨bed,same ▸ conserved⟩

omit [DecidableEq T] [DecidableEq L] [DecidableEq C] [DecidableEq S] in
theorem mem_finishedOf {log : List (Event T L C S)} : t ∈ finishedOf log ↔ .finished t ∈ log := by
  simp only [finishedOf,List.mem_filterMap]
  constructor
  · rintro ⟨event,member,equal⟩
    cases event <;> cases equal
    exact member
  · exact fun member => ⟨_,member,rfl⟩

-- No operation is half executed where the current thread is in its own code. Every
-- thread is then where its status says, once, and threads got the CPU in the order
-- in which they were put on the ready list.
theorem threads_conserved {c : Cpu T L C S} (reached : Reached main initialValue c)
    (between : c.stack c.currentThread = []) :
    (∀ t, c.status t = .RUNNING ↔ t = c.currentThread) ∧
      (∀ t, c.status t = .READY → c.readyList.count t = 1) ∧
      (∀ t, c.status t = .BLOCKED ∨ .finished t ∈ c.log → t ∉ c.readyList) ∧
      (∀ t, c.status t = .BLOCKED → .finished t ∉ c.log →
        ∃ q, (c.queue q).count t = 1 ∧ ∀ r, r ≠ q → t ∉ c.queue r) ∧
      enqueuedOf c.log = dispatchedOf c.log ++ c.readyList := by
  obtain ⟨bed,conserved⟩ := reached_conserved reached
  have clear : Clear (c.stack c.currentThread) := by simp [between,Clear]
  obtain ⟨runs,_,_⟩ := conserved.up clear
  refine ⟨?_,?_,?_,?_,conserved.fifo⟩
  · intro t
    constructor
    · exact conserved.running t
    · rintro rfl
      exact runs
  · intro t waits
    exact List.count_eq_one_of_mem conserved.once ((conserved.ready t).mpr waits)
  · intro t state member
    have waits : c.status t = .READY := (conserved.ready t).mp member
    rcases state with asleep | finished
    · simp [waits] at asleep
    · obtain ⟨_,asleep | ⟨_,sleeps⟩⟩ := conserved.gone t (mem_finishedOf.mpr finished)
      · have asleep : c.status t = .BLOCKED := asleep
        simp [waits] at asleep
      · exact absurd sleeps (clear_sleeps clear _).1
  · intro t asleep alive
    cases place : bed t with
    | none =>
      rcases conserved.blocked t asleep with lies | finished
      · exact absurd place lies
      · exact absurd (mem_finishedOf.mp finished) alive
    | some q =>
      refine ⟨q,List.count_eq_one_of_mem (conserved.nodup q) ((conserved.queued q t).mpr place),?_⟩
      intro r other member
      have elsewhere := (conserved.queued r t).mp member
      rw [place] at elsewhere
      cases elsewhere
      exact other rfl

-- The main thread sleeps in P; the thread it forked runs in its own code.
def sleepInP : Except Fault (Cpu Bool Unit Unit Unit) :=
  (initial false fun _ => 0).steps <|
    Choice.call (.fork true) :: List.replicate 4 Choice.go ++ Choice.call (.p ()) :: List.replicate 7 Choice.go

theorem threads_conserved_sleeping : ∃ c, sleepInP = .ok c ∧ (∀ t, c.status t = .RUNNING ↔ t = true) ∧
    ∃ q, (c.queue q).count false = 1 := by
  have found : (sleepInP.toOption.map fun c => decide (c.stack c.currentThread = [] ∧ c.currentThread = true ∧
      c.status false = .BLOCKED ∧ .finished false ∉ c.log)) = some true := by decide +kernel
  cases ran : sleepInP with
  | error fault => simp [ran,Except.toOption] at found
  | ok c =>
    simp only [ran,Except.toOption,Option.map_some,Option.some.injEq,decide_eq_true_eq] at found
    obtain ⟨between,current,asleep,alive⟩ := found
    obtain ⟨one,_,_,placed,_⟩ := threads_conserved (steps_reached .initial ran) between
    obtain ⟨q,counted,_⟩ := placed false asleep alive
    exact ⟨c,rfl,fun t => current ▸ one t,q,counted⟩

end Nachos.Cpu
