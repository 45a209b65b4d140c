import Nachos.KernelHistory

namespace Nachos.Kernel
variable [DecidableEq T] [DecidableEq L] [DecidableEq C] {k after : Kernel T L C}

-- The threads put on and taken off the queue of a condition, oldest first.
def enqueuedOn (c : C) (history : List (Event T L C)) : List T :=
  history.reverse.filterMap fun
    | .enqueued t d => if d = c then some t else none
    | _ => none

def wokenOn (c : C) (history : List (Event T L C)) : List T :=
  history.reverse.filterMap fun
    | .woken t d _ => if d = c then some t else none
    | _ => none

omit [DecidableEq T] [DecidableEq L] in
theorem enqueuedOn_append (c : C) (new older : List (Event T L C)) :
    enqueuedOn c (new ++ older) = enqueuedOn c older ++ enqueuedOn c new := by
  simp [enqueuedOn]

omit [DecidableEq T] [DecidableEq L] in
theorem wokenOn_append (c : C) (new older : List (Event T L C)) :
    wokenOn c (new ++ older) = wokenOn c older ++ wokenOn c new := by
  simp [wokenOn]

omit [DecidableEq L] [DecidableEq C] in
theorem acquireEvents_cases (k : Kernel T L C) (t : T) (l : L) :
    k.acquireEvents t l = [] ∨ k.acquireEvents t l = [.acquired t l] := by
  unfold acquireEvents
  split <;> simp

omit [DecidableEq C] in
theorem acquire_condition (k : Kernel T L C) (t : T) (l : L) (place : Inside L C) :
    (k.acquire t l place).condition = k.condition := by
  unfold acquire
  dsimp only
  split <;> rfl

omit [DecidableEq C] in
theorem release_condition (k : Kernel T L C) (t : T) (l : L) : (k.release t l).condition = k.condition := by
  unfold release
  dsimp only
  cases ((k.lock l).release t).2.1 <;> rfl

theorem signalEvents_cases (k : Kernel T L C) (t : T) (c : C) (conditionLock : Option L) :
    (k.signalEvents t c conditionLock = [] ∧ (k.signal c conditionLock).condition = k.condition ∧
      (k.signal c conditionLock).status = k.status) ∨
    (∃ next rest, k.signalEvents t c conditionLock = [.woken next c t] ∧ (k.condition c).waitQueue = next :: rest ∧
      ((k.signal c conditionLock).condition c).waitQueue = rest ∧
      (∀ d, d ≠ c → (k.signal c conditionLock).condition d = k.condition d) ∧
      (k.signal c conditionLock).status = Function.update k.status next .READY) := by
  cases waiting : (k.condition c).waitQueue with
  | nil => exact Or.inl (by simp [signalEvents,signal,Condition.signal_empty waiting,readyToRun])
  | cons next rest =>
    by_cases same : (k.condition c).waitLock = conditionLock
    · refine Or.inr ⟨next,rest,?_,rfl,?_,?_,?_⟩
      · simp [signalEvents,Condition.signal_wakes waiting same]
      · simp [signal,Condition.signal_wakes waiting same,readyToRun]
      · intro d other
        simp [signal,Condition.signal_wakes waiting same,readyToRun,other]
      · simp [signal,Condition.signal_wakes waiting same,readyToRun]
    · exact Or.inl (by simp [signalEvents,signal,Condition.signal_mismatch waiting same,readyToRun])

theorem waitEvents_cases (k : Kernel T L C) (t : T) (c : C) (conditionLock : Option L) :
    (k.waitEvents t c conditionLock = [] ∧
      ∃ output, k.wait t c conditionLock = {k with printed := k.printed ++ [output]}) ∨
    (∃ l, conditionLock = some l ∧ k.waitEvents t c conditionLock = [.enqueued t c] ∧
      k.wait t c conditionLock =
        (release {k with condition := Function.update k.condition c ⟨some l,(k.condition c).waitQueue ++ [t]⟩}
          t l).sleep t (.wait c l)) := by
  rcases wait_cases k t c conditionLock with ⟨output,cause,result⟩ | ⟨l,rfl,same,result⟩
  · refine Or.inl ⟨?_,output,result⟩
    rcases cause with rfl | ⟨l,other,rfl,bound,differs⟩
    · simp [waitEvents,Condition.wait_null]
    · simp [waitEvents,Condition.wait_mismatch bound differs]
  · exact Or.inr ⟨l,rfl,by simp [waitEvents,Condition.wait_enqueued same],result⟩

def Action.thread : Action T L C → T
  | .call t _ | .resume t => t

-- The thread is at a Signal on the condition, its own or one of a Broadcast.
def Signals (k : Kernel T L C) (action : Action T L C) (c : C) : Prop :=
  ∃ u m, action = .call u (.signal c m) ∨ action = .call u (.broadcast c m) ∨
    (action = .resume u ∧ k.inside u = .broadcast c m)

-- What a step can do to a condition: nothing, take the head off the queue, or
-- put the calling thread at its end.
inductive Touches (k : Kernel T L C) (action : Action T L C) (after : Kernel T L C) (c : C) : Prop where
  | rests : after.condition c = k.condition c → enqueuedOn c (k.events action) = [] →
      wokenOn c (k.events action) = [] → Touches k action after c
  | wakes : (k.condition c).waitQueue = next :: rest →
      after.condition c = ⟨if rest.isEmpty then none else (k.condition c).waitLock,rest⟩ →
      k.Signals action c → k.events action = [.woken next c action.thread] → Touches k action after c
  | enqueues : action = .call u (.wait c (some l)) →
      after.condition c = ⟨some l,(k.condition c).waitQueue ++ [u]⟩ →
      k.events action = [.enqueued u c] → Touches k action after c

theorem signal_touches (k : Kernel T L C) (c : C) (conditionLock : Option L)
    (tells : k.events action = k.signalEvents action.thread d conditionLock)
    (does : after.condition = (k.signal d conditionLock).condition)
    (signals : d = c → k.Signals action c) : Touches k action after c := by
  rcases signal_cases k d conditionLock with ⟨silent,output,result⟩ | ⟨next,rest,waiting,same,result⟩
  · have events : k.events action = [] := by
      rw [tells,signalEvents]
      rcases silent with empty | differs
      · simp [Condition.signal_empty empty]
      · cases waiting : (k.condition d).waitQueue with
        | nil => simp [Condition.signal_empty waiting]
        | cons next rest => simp [Condition.signal_mismatch waiting differs]
    exact .rests (by rw [does,result]) (by simp [events,enqueuedOn]) (by simp [events,wokenOn])
  · have events : k.events action = [.woken next d action.thread] := by
      rw [tells]
      simp [signalEvents,Condition.signal_wakes waiting same]
    by_cases equal : d = c
    · subst equal
      exact .wakes waiting (by simp [does,result]) (signals rfl) events
    · refine .rests ?_ ?_ ?_
      · simp [does,result,Ne.symm equal]
      · simp [events,enqueuedOn]
      · simp [events,wokenOn,equal]

theorem signal_unheard (empty : (k.condition c).waitQueue = []) : k.signal c conditionLock = k := by
  simp [signal,Condition.signal_empty empty,readyToRun]

theorem broadcast_condition (k : Kernel T L C) (t : T) (c : C) (conditionLock : Option L) :
    (k.broadcast t c conditionLock).condition = (k.signal c conditionLock).condition := by
  unfold broadcast
  split
  · rename_i empty
    rw [signal_unheard (by simpa using empty)]
    rfl
  · rfl

theorem step_touches (steps : Steps k action after) (c : C) : Touches k action after c := by
  cases steps with
  | @call t what ready outside =>
    cases what with
    | acquire l =>
      refine .rests (by simp [call,acquire_condition]) ?_ ?_ <;>
        rcases acquireEvents_cases k t l with same | same <;> simp [events,same,enqueuedOn,wokenOn]
    | release l => exact .rests (by simp [call,release_condition]) (by simp [events,enqueuedOn]) (by simp [events,wokenOn])
    | wait d l =>
      rcases waitEvents_cases k t d l with ⟨none_,output,result⟩ | ⟨m,rfl,one,result⟩
      · exact .rests (by simp [call,result]) (by simp [events,none_,enqueuedOn]) (by simp [events,none_,wokenOn])
      · by_cases equal : d = c
        · subst equal
          exact .enqueues rfl (by simp [call,result,sleep,release_condition]) one
        · refine .rests ?_ ?_ ?_
          · simp [call,result,sleep,release_condition,Ne.symm equal]
          · simp [events,one,enqueuedOn,equal]
          · simp [events,one,wokenOn]
    | signal d l =>
      exact signal_touches k c l rfl rfl (by rintro rfl; exact ⟨t,l,Or.inl rfl⟩)
    | broadcast d l =>
      exact signal_touches k c l rfl (broadcast_condition k t d l) (by rintro rfl; exact ⟨t,l,Or.inr (Or.inl rfl)⟩)
    | yield => exact .rests rfl (by simp [events,enqueuedOn]) (by simp [events,wokenOn])
    | finish => exact .rests rfl (by simp [events,enqueuedOn]) (by simp [events,wokenOn])
  | returns ready entering =>
    have events := returns_events entering
    exact .rests rfl (by simp [events,enqueuedOn]) (by simp [events,wokenOn])
  | @reacquires t d l ready place =>
    refine .rests (by simp [acquire_condition]) ?_ ?_ <;>
      rcases acquireEvents_cases k t l with same | same <;> simp [events,place,same,enqueuedOn,wokenOn]
  | @loops t d l ready place =>
    have tells : k.events (.resume t) = k.signalEvents t d l := by simp [events,place]
    refine signal_touches k c l tells (broadcast_condition k t d l) ?_
    rintro rfl
    exact ⟨t,l,Or.inr (Or.inr ⟨rfl,place⟩)⟩

-- The queue of a condition moves only at its two ends, and the history says how.
def Shifts (k after : Kernel T L C) (new : List (Event T L C)) (c : C) : Prop :=
  (k.condition c).waitQueue ++ enqueuedOn c new = wokenOn c new ++ (after.condition c).waitQueue

theorem step_shifts (steps : Steps k action after) (c : C) : Shifts k after (k.events action) c := by
  cases step_touches steps c with
  | rests same joined woke => simp [Shifts,same,joined,woke]
  | wakes waiting result _ one => simp [Shifts,waiting,result,one,enqueuedOn,wokenOn]
  | enqueues _ result one => simp [Shifts,result,one,enqueuedOn,wokenOn]

-- First in, first out: the threads woken so far are the first ones enqueued, and
-- the queue holds the others in order.
theorem runs_fifo (path : Runs history k) (c : C) :
    enqueuedOn c history = wokenOn c history ++ (k.condition c).waitQueue := by
  induction path with
  | initial => simp [enqueuedOn,wokenOn,initial,Condition.new]
  | @step history before action after prior steps ih =>
    have shifts := step_shifts steps c
    unfold Shifts at shifts
    rw [enqueuedOn_append,wokenOn_append,ih,List.append_assoc,shifts,List.append_assoc]

-- Where a thread is in Condition::Wait, as the state shows it.
inductive Phase (C : Type) where
  | out
  | queued (condition : C)
  | signalled (condition : C)
  deriving DecidableEq, Repr

def phase (k : Kernel T L C) (t : T) : Phase C :=
  match k.inside t with
  | .wait c _ => if k.status t = .READY then .signalled c else .queued c
  | _ => .out

-- The events that move a thread from one phase to the next.
def Event.about (t : T) : Event T L C → Bool
  | .enqueued u _ | .woken u _ _ | .left u _ => decide (u = t)
  | _ => false

def Quiet (t : T) (events : List (Event T L C)) : Prop := ∀ event ∈ events, event.about t = false

-- Put on the queue of the condition, and nothing since.
def Pending (t : T) (c : C) (history : List (Event T L C)) : Prop :=
  ∃ since older, history = since ++ Event.enqueued t c :: older ∧ Quiet t since

-- Put on the queue, then taken off it by one Signal, and nothing since.
def Explained (t : T) (c : C) (history : List (Event T L C)) : Prop :=
  ∃ since signaller between older,
    history = since ++ Event.woken t c signaller :: (between ++ Event.enqueued t c :: older) ∧
      Quiet t since ∧ Quiet t between

omit [DecidableEq L] [DecidableEq C] in
theorem Pending.quiet (pending : Pending t c history) (quiet : Quiet t new) :
    Pending t c (new ++ history : List (Event T L C)) := by
  obtain ⟨since,older,rfl,still⟩ := pending
  refine ⟨new ++ since,older,by simp,?_⟩
  intro event present
  rcases List.mem_append.mp present with one | two
  · exact quiet event one
  · exact still event two

omit [DecidableEq L] [DecidableEq C] in
theorem Explained.quiet (explained : Explained t c history) (quiet : Quiet t new) :
    Explained t c (new ++ history : List (Event T L C)) := by
  obtain ⟨since,signaller,between,older,rfl,still,before⟩ := explained
  refine ⟨new ++ since,signaller,between,older,by simp,?_,before⟩
  intro event present
  rcases List.mem_append.mp present with one | two
  · exact quiet event one
  · exact still event two

omit [DecidableEq L] [DecidableEq C] in
theorem Pending.woken (pending : Pending t c history) (signaller : T) :
    Explained t c (.woken t c signaller :: history : List (Event T L C)) := by
  obtain ⟨since,older,rfl,still⟩ := pending
  exact ⟨[],signaller,since,older,rfl,by simp [Quiet],still⟩

-- What a step does to one thread's phase, with the events that record it.
inductive Moves (t : T) : Phase C → List (Event T L C) → Phase C → Prop where
  | stays : Quiet t new → before = now → Moves t before new now
  | enqueued : Moves t .out [.enqueued t c] (.queued c)
  | woken : Moves t (.queued c) [.woken t c signaller] (.signalled c)
  | left : Quiet t new → Moves t (.signalled c) (new ++ [Event.left t c]) .out

omit [DecidableEq L] [DecidableEq C] in
theorem acquireEvents_quiet (k : Kernel T L C) (u : T) (l : L) (t : T) : Quiet t (k.acquireEvents u l) := by
  rcases acquireEvents_cases k u l with same | same <;> simp [Quiet,same,Event.about]

omit [DecidableEq T] [DecidableEq L] [DecidableEq C] in
theorem phase_congr (inside : after.inside t = k.inside t) (status : after.status t = k.status t) :
    after.phase t = k.phase t := by
  simp only [phase,inside,status]

omit [DecidableEq T] [DecidableEq L] [DecidableEq C] in
theorem phase_out (outside : ∀ c l, k.inside t ≠ .wait c l) : k.phase t = .out := by
  unfold phase
  split
  · exact absurd ‹_› (outside _ _)
  · rfl

omit [DecidableEq T] [DecidableEq L] [DecidableEq C] in
theorem phase_entering (entering : (k.inside t).entering = some l) : k.phase t = .out :=
  phase_out fun c m place => by simp [place,Inside.entering] at entering

omit [DecidableEq C] in
theorem acquire_phase_other (k : Kernel T L C) (l : L) (place : Inside L C) (other : t ≠ u) :
    (k.acquire u l place).phase t = k.phase t := by
  unfold acquire
  dsimp only
  split
  · exact phase_congr (by simp [sleep,other]) (by simp [sleep,other])
  · exact phase_congr (by simp [return_,other]) rfl

omit [DecidableEq C] in
theorem acquire_phase_self (k : Kernel T L C) (l : L) (enters : place.entering = some m) :
    (k.acquire u l place).phase u = .out := by
  unfold acquire
  dsimp only
  split
  · exact phase_entering (by simpa [sleep] using enters)
  · exact phase_out (by simp [return_])

omit [DecidableEq C] in
theorem acquire_moves (k : Kernel T L C) (outside : k.phase u = .out) (l : L) (enters : place.entering = some m)
    (t : T) : Moves t (k.phase t) (k.acquireEvents u l) ((k.acquire u l place).phase t) := by
  refine .stays (acquireEvents_quiet k u l t) ?_
  by_cases same : t = u
  · subst same
    rw [outside,acquire_phase_self k l enters]
  · exact (acquire_phase_other k l place same).symm

omit [DecidableEq C] in
theorem release_phase (locks : LockValid k) (u : T) (l : L) (t : T) : (k.release u l).phase t = k.phase t := by
  obtain ⟨_,inside,status⟩ := release_frame locks u l
  rcases status t with same | ⟨_,entering⟩
  · exact phase_congr (by rw [inside]) same
  · rw [phase_entering entering]
    exact phase_entering (by rw [inside]; exact entering)

theorem wait_moves (valid : Valid k) (outside : k.phase u = .out) (c : C) (conditionLock : Option L) (t : T) :
    Moves t (k.phase t) (k.waitEvents u c conditionLock) ((k.wait u c conditionLock).phase t) := by
  rcases waitEvents_cases k u c conditionLock with ⟨none_,output,result⟩ | ⟨l,_,one,result⟩
  · rw [none_,result]
    exact .stays (by simp [Quiet]) rfl
  · rw [one,result]
    have locks := valid.locks
    have before : LockValid
        {k with condition := Function.update k.condition c ⟨some l,(k.condition c).waitQueue ++ [u]⟩} :=
      ⟨locks.busy,locks.queueBusy,locks.nodup,locks.ownerOut,locks.queued,locks.entered,locks.gaveUp⟩
    by_cases same : t = u
    · subst same
      rw [outside]
      have now : ∀ k : Kernel T L C, (k.sleep t (.wait c l)).phase t = .queued c := by simp [phase,sleep]
      rw [now]
      exact .enqueued
    · refine .stays (by simp [Quiet,Event.about,Ne.symm same]) ?_
      have slept : ∀ k : Kernel T L C, (k.sleep u (.wait c l)).phase t = k.phase t := by
        intro k
        exact phase_congr (by simp [sleep,same]) (by simp [sleep,same])
      rw [slept,release_phase before]
      rfl

theorem signal_moves (valid : Valid k) (u : T) (d : C) (conditionLock : Option L) (t : T) :
    Moves t (k.phase t) (k.signalEvents u d conditionLock) ((k.signal d conditionLock).phase t) := by
  have inside := (signal_frame k d conditionLock).2
  rcases signalEvents_cases k u d conditionLock with ⟨none_,_,status⟩ | ⟨next,rest,one,waiting,_,_,status⟩
  · rw [none_]
    exact .stays (by simp [Quiet]) (phase_congr (by rw [inside]) (by rw [status])).symm
  · rw [one]
    by_cases self : next = t
    · subst self
      obtain ⟨blocked,l,place,_⟩ := valid.waits.queued d next (by simp [waiting])
      have before : k.phase next = .queued d := by simp [phase,place,blocked]
      have now : (k.signal d conditionLock).phase next = .signalled d := by simp [phase,inside,place,status]
      rw [before,now]
      exact .woken
    · refine .stays (by simp [Quiet,Event.about,self]) (phase_congr (by rw [inside]) ?_).symm
      simp [status,Ne.symm self]

-- A thread at its own code, or in Broadcast, has phase `out` and keeps it.
omit [DecidableEq L] [DecidableEq C] in
theorem moved_phase (place : Inside L C) (k : Kernel T L C) (u : T) (before : k.phase u = .out) (awake : ∀ c l, place ≠ .wait c l)
    (t : T) : phase {k with inside := Function.update k.inside u place} t = k.phase t := by
  by_cases same : t = u
  · subst same
    rw [before]
    exact phase_out (by simpa using awake)
  · exact phase_congr (by simp [same]) rfl

theorem broadcast_moves (valid : Valid k) (outside : ∀ c l, k.inside u ≠ .wait c l) (d : C)
    (conditionLock : Option L) (t : T) :
    Moves t (k.phase t) (k.signalEvents u d conditionLock) ((k.broadcast u d conditionLock).phase t) := by
  unfold broadcast
  split
  · rename_i empty
    have empty : (k.condition d).waitQueue = [] := by simpa using empty
    have none_ : k.signalEvents u d conditionLock = [] := by simp [signalEvents,Condition.signal_empty empty]
    rw [none_]
    exact .stays (by simp [Quiet]) (moved_phase .none k u (phase_out outside) (by simp) t).symm
  · have still : (k.signal d conditionLock).phase u = .out :=
      phase_out (by rw [(signal_frame k d conditionLock).2]; exact outside)
    dsimp only
    rw [moved_phase _ (k.signal d conditionLock) u still (by simp) t]
    exact signal_moves valid u d conditionLock t

theorem step_moves (valid : Valid k) (steps : Steps k action after) (t : T) :
    Moves t (k.phase t) (k.events action) (after.phase t) := by
  cases steps with
  | @call u what ready outside =>
    have away : ∀ c l, k.inside u ≠ .wait c l := by simp [outside]
    cases what with
    | acquire l => exact acquire_moves k (phase_out away) l rfl t
    | release l => exact .stays (by simp [Quiet,events,Event.about]) (release_phase valid.locks u l t).symm
    | wait c l => exact wait_moves valid (phase_out away) c l t
    | signal c l => exact signal_moves valid u c l t
    | broadcast c l => exact broadcast_moves valid away c l t
    | yield => exact .stays (by simp [Quiet,events]) rfl
    | finish =>
      refine .stays (by simp [Quiet,events]) ?_
      by_cases same : t = u
      · subst same
        rw [phase_out away,phase_out (by simp [call,sleep])]
      · exact (phase_congr (by simp [call,sleep,same]) (by simp [call,sleep,same])).symm
  | @returns u l ready entering =>
    rw [returns_events entering]
    exact .stays (by simp [Quiet,Event.about])
      (moved_phase .none k u (phase_entering entering) (by simp) t).symm
  | @reacquires u c l ready place =>
    simp only [events,place]
    by_cases same : t = u
    · subst same
      have before : k.phase t = .signalled c := by simp [phase,place,ready]
      rw [before,acquire_phase_self k l (m := l) rfl]
      exact .left (acquireEvents_quiet k t l t)
    · refine .stays ?_ (acquire_phase_other k l _ same).symm
      intro event present
      rcases List.mem_append.mp present with one | two
      · exact acquireEvents_quiet k u l t event one
      · simp [List.mem_singleton.mp two,Event.about,Ne.symm same]
  | @loops u c l ready place =>
    simp only [events,place]
    exact broadcast_moves valid (by simp [place]) c l t

-- What the history says about a thread in each phase.
def Told (t : T) (history : List (Event T L C)) : Phase C → Prop
  | .out => True
  | .queued c => Pending t c history
  | .signalled c => Explained t c history

-- Every end of a Sleep in Wait has its own Signal, after its own append.
def Justified (t : T) (history : List (Event T L C)) : Prop :=
  ∀ newer c older, history = newer ++ .left t c :: older → Explained t c older

omit [DecidableEq L] [DecidableEq C] in
theorem Justified.quiet (justified : Justified t history) (quiet : Quiet t new) :
    Justified t (new ++ history : List (Event T L C)) := by
  intro newer c older split_
  rcases List.append_eq_append_iff.mp split_ with ⟨middle,rfl,rest⟩ | ⟨middle,rfl,rest⟩
  · exact justified middle c older rest
  · cases middle with
    | nil => exact justified [] c older (by simpa using rest.symm)
    | cons event others =>
      obtain ⟨rfl,_⟩ := List.cons.inj rest
      have silent := quiet (.left t c) (by simp)
      simp [Event.about] at silent

omit [DecidableEq L] [DecidableEq C] in
theorem Justified.other (justified : Justified t history) (differs : ∀ c, event ≠ .left t c) :
    Justified t (event :: history : List (Event T L C)) := by
  intro newer c older split_
  cases newer with
  | nil => exact absurd (List.cons.inj split_).1 (differs c)
  | cons first others => exact justified others c older (List.cons.inj split_).2

omit [DecidableEq L] [DecidableEq C] in
theorem Justified.left (justified : Justified t history) (explained : Explained t c history) :
    Justified t (.left t c :: history : List (Event T L C)) := by
  intro newer d older split_
  cases newer with
  | nil =>
    obtain ⟨same,rfl⟩ := List.cons.inj split_
    cases same
    exact explained
  | cons first others => exact justified others d older (List.cons.inj split_).2

omit [DecidableEq L] [DecidableEq C] in
theorem moves_told (moves : Moves t before new now) (told : Told t history before)
    (justified : Justified t history) :
    Told t (new ++ history : List (Event T L C)) now ∧ Justified t (new ++ history) := by
  cases moves with
  | stays quiet same =>
    subst same
    refine ⟨?_,justified.quiet quiet⟩
    cases before with
    | out => trivial
    | queued c => exact Pending.quiet told quiet
    | signalled c => exact Explained.quiet told quiet
  | enqueued => exact ⟨⟨[],history,rfl,by simp [Quiet]⟩,justified.other (by simp)⟩
  | @woken c signaller => exact ⟨Pending.woken told signaller,justified.other (by simp)⟩
  | @left new c quiet =>
    refine ⟨trivial,?_⟩
    rw [List.append_assoc]
    exact (justified.left told).quiet quiet

theorem runs_told (path : Runs history k) (t : T) : Told t history (k.phase t) ∧ Justified t history := by
  induction path with
  | initial => exact ⟨by simp [phase,initial,Told],by intro newer c older split_; simp at split_⟩
  | step prior steps ih => exact moves_told (step_moves (runs_valid prior) steps t) ih.1 ih.2

-- The latest event about the thread tells the two apart.
omit [DecidableEq L] [DecidableEq C] in
theorem Pending.not_explained (pending : Pending t c (history : List (Event T L C))) : ¬Explained t d history := by
  rintro ⟨later,signaller,between,before,same,still,_⟩
  obtain ⟨since,older,rfl,quiet⟩ := pending
  have none_ : ∀ events : List (Event T L C), Quiet t events → events.find? (Event.about t) = none := by
    intro events silent
    exact List.find?_eq_none.mpr fun event present => by simp [silent event present]
  have latest := congrArg (List.find? (Event.about t)) same
  simp [List.find?_append,none_ since quiet,none_ later still,Event.about] at latest

theorem runs_asleep (path : Runs history k) (place : k.inside t = .wait c l) :
    k.status t = .BLOCKED ↔ ¬Explained t c history := by
  have told := (runs_told path t).1
  cases status : k.status t with
  | READY =>
    have now : k.phase t = .signalled c := by simp [phase,place,status]
    rw [now] at told
    exact iff_of_false (by simp) (not_not_intro told)
  | BLOCKED =>
    have now : k.phase t = .queued c := by simp [phase,place,status]
    rw [now] at told
    exact iff_of_true rfl told.not_explained

theorem signal_woken (valid : Valid k) (waiting : (k.condition c).waitQueue = next :: rest)
    (match_ : (k.condition c).waitLock = conditionLock) :
    (k.signal c conditionLock).status = Function.update k.status next .READY ∧
    ((k.signal c conditionLock).condition c).waitQueue = rest ∧ k.status next = .BLOCKED := by
  have blocked := (valid.waits.queued c next (by simp [waiting])).1
  simp [signal,Condition.signal_wakes waiting match_,readyToRun,blocked]

theorem wait_refused (bound : (k.condition c).waitLock = some other) (differs : other ≠ l) (t : T) :
    k.wait t c (some l) = {k with printed := k.printed ++ [.lockMismatch]} := by
  simp [wait,Condition.wait_mismatch bound differs]

theorem signal_refused (waiting : (k.condition c).waitQueue ≠ []) (differs : (k.condition c).waitLock ≠ conditionLock) :
    k.signal c conditionLock = {k with printed := k.printed ++ [.lockMismatch]} := by
  obtain ⟨next,rest,queue⟩ := List.exists_cons_of_ne_nil waiting
  simp [signal,Condition.signal_mismatch queue differs,readyToRun]

-- A Wait that slept ends where the thread is back at its own code.
theorem wait_returns (valid : Valid k) (steps : Steps k (.resume t) after)
    (place : k.inside t = .wait c l ∨ k.inside t = .reacquire c l) (back : after.inside t = .none) :
    (after.lock l).ownerThread = some t := by
  cases steps with
  | @returns t m ready entering =>
    obtain rfl : m = l := by rcases place with place | place <;> simp_all [Inside.entering]
    exact valid.handed ready entering
  | @reacquires t d m ready waits =>
    obtain ⟨rfl,rfl⟩ : d = c ∧ m = l := by rcases place with place | place <;> simp_all
    cases sleeps : ((k.lock m).acquire t).2 with
    | true => simp [acquire_inside,sleeps] at back
    | false => exact acquire_returned valid.locks sleeps _
  | loops ready loops => rcases place with place | place <;> simp_all

-- Condition variables over whole runs: no wakeup is lost and none made up.
theorem condition_wakeups (path : Runs history (k : Kernel T L C)) (c : C) :
    ((k.condition c).waitLock = none ↔ (k.condition c).waitQueue = []) ∧
    (∀ t l, k.inside t = .wait c l → (k.status t = .BLOCKED ↔ ¬Explained t c history)) ∧
    (∀ t l, k.inside t = .wait c l → ¬Explained t c history →
      (k.condition c).waitQueue.count t = 1 ∧ (k.condition c).waitLock = some l) ∧
    (∀ t newer older, history = newer ++ .left t c :: older → Explained t c older) ∧
    enqueuedOn c history = wokenOn c history ++ (k.condition c).waitQueue ∧
    (∀ u l after next rest, (k.condition c).waitQueue = next :: rest → (k.condition c).waitLock = some l →
      k.step (.call u (.signal c (some l))) = some after →
      k.status next = .BLOCKED ∧ after.status = Function.update k.status next .READY ∧
      (after.condition c).waitQueue = rest ∧ k.events (.call u (.signal c (some l))) = [.woken next c u]) ∧
    (∀ u l after, (k.condition c).waitQueue = [] → k.step (.call u (.signal c (some l))) = some after →
      after = k ∧ k.events (.call u (.signal c (some l))) = []) ∧
    (∀ u l after, (k.condition c).waitQueue ≠ [] → (k.condition c).waitLock ≠ some l →
      k.step (.call u (.signal c (some l))) = some after ∨ k.step (.call u (.wait c (some l))) = some after →
      after.condition = k.condition ∧ after.lock = k.lock ∧ after.status = k.status ∧ after.inside = k.inside) ∧
    (∀ t l after, k.inside t = .wait c l ∨ k.inside t = .reacquire c l → k.step (.resume t) = some after →
      after.inside t = .none → (after.lock l).ownerThread = some t) := by
  have valid := runs_valid path
  refine ⟨valid.waits.null c,?_,?_,?_,runs_fifo path c,?_,?_,?_,?_⟩
  · intro t l place
    exact runs_asleep path place
  · intro t l place unsignalled
    have blocked := (runs_asleep path place).mpr unsignalled
    have queued := (valid.waits.waits c l t place).resolve_right (by simp [blocked])
    obtain ⟨_,m,place',bound⟩ := valid.waits.queued c t queued
    obtain rfl : l = m := by rw [place] at place'; simp_all
    exact ⟨List.count_eq_one_of_mem (valid.waits.nodup c) queued,bound⟩
  · intro t newer older split_
    exact (runs_told path t).2 newer c older split_
  · intro u l after next rest waiting match_ stepped
    cases step_sound stepped with
    | call ready outside =>
      obtain ⟨status,queue,blocked⟩ := signal_woken valid waiting match_
      exact ⟨blocked,status,queue,by simp [events,signalEvents,Condition.signal_wakes waiting match_]⟩
  · intro u l after empty stepped
    cases step_sound stepped with
    | call ready outside =>
      exact ⟨signal_unheard empty,by simp [events,signalEvents,Condition.signal_empty empty]⟩
  · intro u l after waiting differs stepped
    rcases stepped with stepped | stepped
    · cases step_sound stepped with
      | call ready outside => simp [call,signal_refused waiting differs]
    · have bound : (k.condition c).waitLock ≠ none := mt (valid.waits.null c).mp waiting
      obtain ⟨other,bound⟩ := Option.ne_none_iff_exists'.mp bound
      have differs : other ≠ l := by rintro rfl; exact differs bound
      cases step_sound stepped with
      | call ready outside => simp [call,wait_refused bound differs]
  · intro t l after place stepped back
    exact wait_returns valid (step_sound stepped) place back

-- One thread waits, another signals it and goes on to give up the lock.
def waitAndSignal : List (Action Nat Nat Nat) :=
  [.call 0 (.acquire 0),.call 0 (.wait 0 (some 0)),.call 1 (.acquire 0),.call 1 (.signal 0 (some 0)),
    .resume 0,.call 1 (.release 0)]

theorem condition_wakeups_signalled :
    ∃ history k, initial.run [] waitAndSignal = some (history,k) ∧ k.inside 0 = .reacquire 0 0 ∧
      ∃ after, k.step (.resume 0) = some after ∧ after.inside 0 = .none ∧ (after.lock 0).ownerThread = some 0 := by
  refine ⟨_,_,rfl,rfl,_,rfl,rfl,?_⟩
  exact (condition_wakeups (run_sound waitAndSignal .initial rfl) 0).2.2.2.2.2.2.2.2
    0 0 _ (Or.inr rfl) rfl rfl

end Nachos.Kernel
