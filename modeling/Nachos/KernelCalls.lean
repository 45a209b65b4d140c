import Nachos.KernelWaits

namespace Nachos.Kernel
variable [DecidableEq T] [DecidableEq L] [DecidableEq C] {k before after : Kernel T L C} {t : T} {c : C}

-- The call and then `rounds` further steps of the same thread, with no step of
-- any other. Only Broadcast has further steps that need no other thread.
def alone (k : Kernel T L C) (t : T) (what : Call L C) : Nat → Option (Kernel T L C)
  | 0 => k.step (.call t what)
  | rounds + 1 => (k.alone t what rounds).bind fun middle => middle.step (.resume t)

-- The call is over, it has printed something, and nothing else has changed.
def Refuses (k : Kernel T L C) (t : T) (what : Call L C) : Prop :=
  ∃ rounds after output, k.alone t what rounds = some after ∧ after.inside t = .none ∧ output ≠ [] ∧
    after = {k with printed := k.printed ++ output}

-- What "conditionLock must be held by the currentThread" asks of the operation.
def Guards (k : Kernel T L C) (t : T) (what : Call L C) (l : L) : Prop :=
  (k.lock l).ownerThread ≠ some t → k.Refuses t what

theorem alone_first (ready : k.status t = .READY) (outside : k.inside t = .none) (what : Call L C) :
    k.alone t what 0 = some (k.call t what) := by
  simp [alone,step,ready,outside]

-- A call that is over at once has no further step.
theorem alone_over (what : Call L C) (returned : (k.call t what).inside t = .none)
    (ran : k.alone t what rounds = some after) : rounds = 0 ∧ after = k.call t what := by
  induction rounds generalizing after with
  | zero =>
    cases step_sound ran with
    | call ready outside => exact ⟨rfl,rfl⟩
  | succ rounds ih =>
    simp only [alone,Option.bind_eq_some_iff] at ran
    obtain ⟨middle,first,stepped⟩ := ran
    obtain ⟨_,rfl⟩ := ih first
    cases step_sound stepped with
    | returns ready entering => simp [returned,Inside.entering] at entering
    | reacquires ready place => simp [returned] at place
    | loops ready place => simp [returned] at place

-- Nor has a call that put the thread to sleep.
theorem alone_asleep (what : Call L C) (blocked : (k.call t what).status t = .BLOCKED)
    (ran : k.alone t what rounds = some after) : rounds = 0 ∧ after = k.call t what := by
  induction rounds generalizing after with
  | zero =>
    cases step_sound ran with
    | call ready outside => exact ⟨rfl,rfl⟩
  | succ rounds ih =>
    simp only [alone,Option.bind_eq_some_iff] at ran
    obtain ⟨middle,first,stepped⟩ := ran
    obtain ⟨_,rfl⟩ := ih first
    simp [step,blocked] at stepped

theorem refuses_at_once (ready : k.status t = .READY) (outside : k.inside t = .none) (what : Call L C)
    (result : k.call t what = {k with printed := k.printed ++ output}) (said : output ≠ []) :
    k.Refuses t what := by
  refine ⟨0,_,output,alone_first ready outside what,?_,said,result⟩
  rw [result]
  exact outside

theorem wait_guarded (ready : k.status t = .READY) (outside : k.inside t = .none) :
    k.Refuses t (.wait c (some l)) ↔ ∃ other, (k.condition c).waitLock = some other ∧ other ≠ l := by
  constructor
  · rintro ⟨rounds,after,output,ran,returned,said,result⟩
    rcases wait_cases k t c (some l) with ⟨_,cause,_⟩ | ⟨m,_,_,slept⟩
    · rcases cause with null | ⟨m,other,same,bound,differs⟩
      · cases null
      · cases same
        exact ⟨other,bound,differs⟩
    · -- The thread is on the queue and asleep, so the call is not over.
      have blocked : (k.call t (.wait c (some l))).status t = .BLOCKED := by simp [call,slept,sleep]
      obtain ⟨_,rfl⟩ := alone_asleep _ blocked ran
      simp [call,slept,sleep] at returned
  · rintro ⟨other,bound,differs⟩
    exact refuses_at_once ready outside _ (wait_refused bound differs t) (by simp)

theorem signal_guarded (ready : k.status t = .READY) (outside : k.inside t = .none) :
    k.Refuses t (.signal c (some l)) ↔
      (k.condition c).waitQueue ≠ [] ∧ (k.condition c).waitLock ≠ some l := by
  have returned : (k.call t (.signal c (some l))).inside t = .none := by
    rw [show k.call t (.signal c (some l)) = k.signal c (some l) from rfl,(signal_frame k c (some l)).2]
    exact outside
  constructor
  · rintro ⟨rounds,after,output,ran,_,said,result⟩
    obtain ⟨_,rfl⟩ := alone_over _ returned ran
    simp only [call] at result
    constructor
    · intro empty
      rw [signal_unheard empty] at result
      have printed := congrArg Kernel.printed result
      exact said (by simpa using printed)
    · intro same
      cases waiting : (k.condition c).waitQueue with
      | nil =>
        rw [signal_unheard waiting] at result
        have printed := congrArg Kernel.printed result
        exact said (by simpa using printed)
      | cons next rest =>
        have printed := congrArg Kernel.printed result
        simp only [signal,Condition.signal_wakes waiting same,readyToRun,List.append_nil,
          List.self_eq_append_right] at printed
        exact said printed
  · rintro ⟨waiting,differs⟩
    exact refuses_at_once ready outside _ (signal_refused waiting differs) (by simp)

-- A Broadcast that is over has found the queue empty.
theorem broadcast_over (returned : (k.broadcast t c conditionLock).inside t = .none) :
    (k.condition c).waitQueue = [] ∧ k.broadcast t c conditionLock = k.return_ t := by
  unfold broadcast at returned ⊢
  split at returned
  · rename_i empty
    exact ⟨by simpa using empty,by simp [empty]⟩
  · simp at returned

-- Each step of the call is a round of its loop.
theorem alone_broadcast (ran : k.alone t (.broadcast c conditionLock) rounds = some after) :
    ∃ middle : Kernel T L C, after = middle.broadcast t c conditionLock ∧
      (after.inside t = .none ∨ after.inside t = .broadcast c conditionLock) := by
  have ends (middle : Kernel T L C) : (middle.broadcast t c conditionLock).inside t = .none ∨
      (middle.broadcast t c conditionLock).inside t = .broadcast c conditionLock := by
    unfold broadcast
    split <;> simp [return_]
  induction rounds generalizing after with
  | zero =>
    cases step_sound ran with
    | call ready outside => exact ⟨k,rfl,ends k⟩
  | succ rounds ih =>
    simp only [alone,Option.bind_eq_some_iff] at ran
    obtain ⟨middle,first,stepped⟩ := ran
    obtain ⟨_,_,now⟩ := ih first
    cases step_sound stepped with
    | returns ready entering => rcases now with now | now <;> simp [now,Inside.entering] at entering
    | reacquires ready place => rcases now with now | now <;> simp [now] at place
    | @loops _ d m ready place =>
      rcases now with now | now
      · simp [now] at place
      · obtain ⟨rfl,rfl⟩ : c = d ∧ conditionLock = m := by simpa [now] using place
        exact ⟨middle,rfl,ends middle⟩

-- Broadcast tells nothing over an empty queue, and over any other it either
-- empties the queue or does not return.
theorem broadcast_guarded (c : C) (conditionLock : Option L) : ¬k.Refuses t (.broadcast c conditionLock) := by
  rintro ⟨rounds,after,output,ran,returned,said,result⟩
  obtain ⟨middle,last,_⟩ := alone_broadcast ran
  rw [last] at returned
  obtain ⟨empty,ended⟩ := broadcast_over returned
  have emptied : (after.condition c).waitQueue = [] := by rw [last,ended]; exact empty
  rw [result] at emptied
  have found : k.broadcast t c conditionLock = k.return_ t := by simp [broadcast,show (k.condition c).waitQueue = [] from emptied]
  obtain ⟨_,once⟩ := alone_over _ (by simp [call,found,return_]) ran
  rw [once] at result
  have printed := congrArg Kernel.printed result
  simp only [call,found,return_,List.self_eq_append_right] at printed
  exact said printed

-- When the condition operations turn away a thread that does not own the lock
-- they are called with. None of them looks at the owner.
theorem ownership_guards (ready : k.status t = .READY) (outside : k.inside t = .none)
    (stranger : (k.lock l).ownerThread ≠ some t) :
    (k.Guards t (.wait c (some l)) l ↔ ∃ other, (k.condition c).waitLock = some other ∧ other ≠ l) ∧
    (k.Guards t (.signal c (some l)) l ↔
      (k.condition c).waitQueue ≠ [] ∧ (k.condition c).waitLock ≠ some l) ∧
    ¬k.Guards t (.broadcast c (some l)) l := by
  refine ⟨?_,?_,?_⟩
  · rw [← wait_guarded ready outside]
    exact ⟨fun guards => guards stranger,fun refuses _ => refuses⟩
  · rw [← signal_guarded ready outside]
    exact ⟨fun guards => guards stranger,fun refuses _ => refuses⟩
  · intro guards
    exact broadcast_guarded c (some l) (guards stranger)

-- Thread 0 waits on condition 0 with lock 0 and so gives the lock up.
def waitsAlone : List (Action Nat Nat Nat) := [.call 0 (.acquire 0),.call 0 (.wait 0 (some 0))]

-- Thread 1 owns nothing. Each of the three calls goes through.
theorem ownership_unguarded :
    ∃ history k, initial.run [] waitsAlone = some (history,k) ∧ (k.lock 0).ownerThread ≠ some 1 ∧
      ¬k.Guards 1 (.wait 0 (some 0)) 0 ∧ ¬k.Guards 1 (.signal 0 (some 0)) 0 ∧
      ¬k.Guards 1 (.broadcast 0 (some 0)) 0 := by
  refine ⟨_,_,rfl,?_,?_,?_,?_⟩
  · rintro ⟨⟩
  · intro guards
    obtain ⟨other,bound,differs⟩ := (wait_guarded rfl rfl).mp (guards (by rintro ⟨⟩))
    cases bound
    exact differs rfl
  · intro guards
    exact ((signal_guarded rfl rfl).mp (guards (by rintro ⟨⟩))).2 rfl
  · intro guards
    exact broadcast_guarded 0 (some 0) (guards (by rintro ⟨⟩))

-- Signal with a lock the condition is not bound to is the one that is refused.
theorem ownership_guards_mismatch :
    ∃ history k, initial.run [] waitsAlone = some (history,k) ∧ (k.lock 1).ownerThread ≠ some 1 ∧
      k.Guards 1 (.signal 0 (some 1)) 1 := by
  refine ⟨_,_,rfl,by rintro ⟨⟩,?_⟩
  refine (ownership_guards (c := 0) rfl rfl (by rintro ⟨⟩)).2.1.mpr ⟨?_,?_⟩
  · rintro ⟨⟩
  · rintro ⟨⟩

-- A step of one thread does not move another, and does not block it.
def Spares (k after : Kernel T L C) (t : T) : Prop :=
  after.inside t = k.inside t ∧ (k.status t = .READY → after.status t = .READY)

omit [DecidableEq L] [DecidableEq C] in
theorem readyToRun_spares (k : Kernel T L C) (thread : Option T) : k.Spares (k.readyToRun thread) t := by
  cases thread with
  | none => exact ⟨rfl,id⟩
  | some u => exact ⟨rfl,fun ready => by by_cases same : t = u <;> simp [readyToRun,same,ready]⟩

omit [DecidableEq C] in
theorem release_spares (k : Kernel T L C) (u : T) (l : L) : k.Spares (k.release u l) t := by
  unfold release
  exact readyToRun_spares _ _

omit [DecidableEq C] in
theorem acquire_spares (k : Kernel T L C) (apart : t ≠ u) (l : L) (place : Inside L C) :
    k.Spares (k.acquire u l place) t := by
  unfold acquire
  dsimp only
  split <;> simp [Spares,sleep,return_,apart]

theorem wait_spares (k : Kernel T L C) (apart : t ≠ u) (c : C) (conditionLock : Option L) :
    k.Spares (k.wait u c conditionLock) t := by
  rcases wait_cases k u c conditionLock with ⟨output,_,result⟩ | ⟨l,_,_,result⟩
  · rw [result]
    exact ⟨rfl,id⟩
  · rw [result]
    have spares := release_spares (t := t)
      {k with condition := Function.update k.condition c ⟨some l,(k.condition c).waitQueue ++ [u]⟩} u l
    simpa [Spares,sleep,apart] using spares

theorem broadcast_spares (k : Kernel T L C) (apart : t ≠ u) (c : C) (conditionLock : Option L) :
    k.Spares (k.broadcast u c conditionLock) t := by
  unfold broadcast
  split
  · simp [Spares,return_,apart]
  · refine ⟨by simp [apart,(signal_frame k c conditionLock).2],fun ready => ?_⟩
    exact signal_ready ready c conditionLock

theorem step_spares (steps : Steps k action after) (apart : t ≠ action.thread) : k.Spares after t := by
  cases steps with
  | @call u what ready outside =>
    cases what with
    | acquire l => exact acquire_spares k apart l _
    | release l => exact release_spares k u l
    | wait c l => exact wait_spares k apart c l
    | signal c l =>
      exact ⟨by simp [call,(signal_frame k c l).2],fun ready => signal_ready ready c l⟩
    | broadcast c l => exact broadcast_spares k apart c l
    | yield => exact ⟨rfl,id⟩
    | finish => simp [Spares,call,sleep,show t ≠ u from apart]
  | @returns u l ready entering => simp [Spares,return_,show t ≠ u from apart]
  | reacquires ready place => exact acquire_spares k apart _ _
  | loops ready place => exact broadcast_spares k apart _ _

-- A call of Broadcast under way or just over: the states in front of and behind each
-- of its own steps, the first one first, what has happened since it began, and the
-- state now. Other threads take steps of the allowed kind at any point.
inductive During (allowed : Kernel T L C → Action T L C → Prop) (k : Kernel T L C) (t : T) (c : C)
    (conditionLock : Option L) : List (Kernel T L C × Kernel T L C) → List (Event T L C) → Kernel T L C → Prop where
  | called : k.status t = .READY → k.inside t = .none → allowed k (.call t (.broadcast c conditionLock)) →
      During allowed k t c conditionLock [(k,k.broadcast t c conditionLock)]
        (k.events (.call t (.broadcast c conditionLock))) (k.broadcast t c conditionLock)
  | loops {before : Kernel T L C} : During allowed k t c conditionLock rounds new before →
      before.inside t = .broadcast c conditionLock → before.status t = .READY →
      allowed before (.resume t) →
      During allowed k t c conditionLock (rounds ++ [(before,before.broadcast t c conditionLock)])
        (before.events (.resume t) ++ new) (before.broadcast t c conditionLock)
  | others {before after : Kernel T L C} : During allowed k t c conditionLock rounds new before →
      before.inside t = .broadcast c conditionLock → t ≠ action.thread → allowed before action →
      Steps before action after →
      During allowed k t c conditionLock rounds (before.events action ++ new) after

-- Nobody joins the queue of the condition.
def Unjoined (c : C) (k : Kernel T L C) (action : Action T L C) : Prop :=
  enqueuedOn c (k.events action) = []

-- Until it is over the thread can go on with it, and there is a bound on the
-- number of steps it still takes.
def Finishes (k : Kernel T L C) (t : T) (c : C) (conditionLock : Option L) : Prop :=
  ∃ bound, ∀ rounds new after, During (Unjoined c) k t c conditionLock rounds new after →
    after.inside t = .none ∨
      (after.inside t = .broadcast c conditionLock ∧ after.status t = .READY ∧ rounds.length < bound)

-- The next Signal on the condition is not refused.
def Agrees (condition : Condition T L) (conditionLock : Option L) : Prop :=
  condition.waitQueue = [] ∨ condition.waitLock = conditionLock

-- One round over a condition that agrees: it returns, or it takes one thread off
-- the queue and leaves a condition that agrees.
theorem round_agrees (agrees : Agrees (k.condition c) conditionLock) (ready : k.status t = .READY) :
    (k.broadcast t c conditionLock).inside t = .none ∨
    ((k.broadcast t c conditionLock).inside t = .broadcast c conditionLock ∧
      (k.broadcast t c conditionLock).status t = .READY ∧
      Agrees ((k.broadcast t c conditionLock).condition c) conditionLock ∧
      ((k.broadcast t c conditionLock).condition c).waitQueue.length + 1 = (k.condition c).waitQueue.length) := by
  cases waiting : (k.condition c).waitQueue with
  | nil => exact Or.inl (by simp [broadcast,waiting,return_])
  | cons next rest =>
    have same : (k.condition c).waitLock = conditionLock := by
      rcases agrees with empty | same
      · rw [waiting] at empty
        cases empty
      · exact same
    have signalled : (k.signal c conditionLock).condition c =
        ⟨if rest.isEmpty then none else (k.condition c).waitLock,rest⟩ := by
      simp [signal,Condition.signal_wakes waiting same,readyToRun]
    have round : k.broadcast t c conditionLock = {k.signal c conditionLock with
        inside := Function.update (k.signal c conditionLock).inside t (.broadcast c conditionLock)} := by
      simp [broadcast,waiting]
    refine Or.inr ⟨by simp [round],?_,?_,?_⟩
    · rw [round]
      exact signal_ready ready c conditionLock
    · rw [round]
      simp only [Agrees,signalled]
      cases rest with
      | nil => exact Or.inl rfl
      | cons => exact Or.inr same
    · simp [round,signalled]

theorem touches_agrees (touches : Touches k action after c) (unjoined : Unjoined c k action)
    (agrees : Agrees (k.condition c) conditionLock) :
    Agrees (after.condition c) conditionLock ∧
      (after.condition c).waitQueue.length ≤ (k.condition c).waitQueue.length := by
  cases touches with
  | rests same => exact ⟨by rw [same]; exact agrees,Nat.le_of_eq (by rw [same])⟩
  | @wakes next rest waiting result =>
    rw [result,waiting]
    refine ⟨?_,by simp⟩
    cases rest with
    | nil => exact Or.inl rfl
    | cons =>
      rcases agrees with empty | same
      · simp [waiting] at empty
      · exact Or.inr same
  | enqueues _ _ events => simp [Unjoined,events,enqueuedOn] at unjoined

theorem during_agrees (agrees : Agrees (k.condition c) conditionLock)
    (during : During (Unjoined c) k t c conditionLock rounds new after) :
    after.inside t = .none ∨
      (after.inside t = .broadcast c conditionLock ∧ after.status t = .READY ∧
        Agrees (after.condition c) conditionLock ∧
        rounds.length + (after.condition c).waitQueue.length ≤ (k.condition c).waitQueue.length) := by
  induction during with
  | called ready outside allowed =>
    refine (round_agrees agrees ready).imp id ?_
    rintro ⟨inside,awake,still,shorter⟩
    exact ⟨inside,awake,still,by rw [List.length_singleton]; omega⟩
  | loops during inside ready allowed ih =>
    obtain ⟨_,_,agreed,count⟩ := ih.resolve_left (by simp [inside])
    refine (round_agrees agreed ready).imp id ?_
    rintro ⟨inside,awake,still,shorter⟩
    exact ⟨inside,awake,still,by rw [List.length_append,List.length_singleton]; omega⟩
  | others during inside apart unjoined steps ih =>
    obtain ⟨_,ready,agreed,count⟩ := ih.resolve_left (by simp [inside])
    obtain ⟨unmoved,awake⟩ := step_spares steps apart
    obtain ⟨still,shorter⟩ := touches_agrees (step_touches steps c) unjoined agreed
    exact Or.inr ⟨by rw [unmoved]; exact inside,awake ready,still,by omega⟩

-- A round over any other condition only prints.
theorem round_refused (disagrees : ¬Agrees (k.condition c) conditionLock) :
    k.broadcast t c conditionLock = {k with
      printed := k.printed ++ [.lockMismatch]
      inside := Function.update k.inside t (.broadcast c conditionLock)} ∧
    k.signalEvents t c conditionLock = [] := by
  obtain ⟨waiting,differs⟩ := not_or.mp disagrees
  obtain ⟨next,rest,queue⟩ := List.exists_cons_of_ne_nil waiting
  constructor
  · simp [broadcast,waiting,signal_refused waiting differs]
  · simp [signalEvents,Condition.signal_mismatch queue differs]

theorem disagrees_forever (ready : k.status t = .READY) (outside : k.inside t = .none)
    (disagrees : ¬Agrees (k.condition c) conditionLock) (count : Nat) :
    ∃ rounds after, During (Unjoined c) k t c conditionLock rounds [] after ∧ rounds.length = count + 1 ∧
      after.inside t = .broadcast c conditionLock ∧ after.status t = .READY ∧ after.condition = k.condition := by
  induction count with
  | zero =>
    obtain ⟨round,silent⟩ := round_refused (t := t) disagrees
    have events : k.events (.call t (.broadcast c conditionLock)) = [] := silent
    have called : During (Unjoined c) k t c conditionLock _ (k.events (.call t (.broadcast c conditionLock)))
        (k.broadcast t c conditionLock) := .called ready outside (by simp [Unjoined,events,enqueuedOn])
    rw [events] at called
    exact ⟨_,_,called,rfl,by simp [round],by simpa [round] using ready,by simp [round]⟩
  | succ count ih =>
    obtain ⟨rounds,middle,during,long,inside,awake,same⟩ := ih
    obtain ⟨round,silent⟩ := round_refused (k := middle) (t := t) (by rw [same]; exact disagrees)
    have events : middle.events (.resume t) = [] := by simpa [Kernel.events,inside] using silent
    have looped := During.loops during inside awake (by simp [Unjoined,events,enqueuedOn])
    rw [events] at looped
    exact ⟨_,_,looped,by simp [long],by simp [round],by simpa [round] using awake,by simpa [round] using same⟩

theorem disagrees_unfinished (ready : k.status t = .READY) (outside : k.inside t = .none)
    (disagrees : ¬Agrees (k.condition c) conditionLock) : ¬k.Finishes t c conditionLock := by
  rintro ⟨bound,finishes⟩
  obtain ⟨rounds,after,during,long,inside,_⟩ := disagrees_forever ready outside disagrees bound
  rcases finishes _ _ _ during with returned | ⟨_,_,few⟩
  · simp [inside] at returned
  · omega

-- Broadcast finishes exactly when the condition has no waiters or is bound to
-- the lock of the call.
theorem broadcast_finishes (ready : k.status t = .READY) (outside : k.inside t = .none) :
    k.Finishes t c conditionLock ↔
      (k.condition c).waitQueue = [] ∨ (k.condition c).waitLock = conditionLock := by
  constructor
  · intro finishes
    by_contra disagrees
    exact disagrees_unfinished ready outside disagrees finishes
  · intro agrees
    refine ⟨(k.condition c).waitQueue.length + 1,fun rounds new after during => ?_⟩
    refine (during_agrees agrees during).imp id ?_
    rintro ⟨inside,awake,_,count⟩
    exact ⟨inside,awake,by omega⟩

-- Thread 0 waits with lock 0, and a Broadcast with lock 1 loops for good.
theorem broadcast_loops :
    ∃ history k, initial.run [] waitsAlone = some (history,k) ∧ ¬k.Finishes 1 0 (some 1) := by
  refine ⟨_,_,rfl,disagrees_unfinished rfl rfl ?_⟩
  rintro (empty | same)
  · exact absurd empty (by decide)
  · exact absurd same (by decide)

theorem broadcast_finishes_bound :
    ∃ history k, initial.run [] waitsAlone = some (history,k) ∧ k.Finishes 1 0 (some 0) := by
  refine ⟨_,_,rfl,?_⟩
  exact (broadcast_finishes rfl rfl).mpr (Or.inr rfl)

-- Whoever calls an operation of the condition passes this lock and owns it.
def Holds (c : C) (l : L) (k : Kernel T L C) : Action T L C → Prop
  | .call u (.wait d m) | .call u (.signal d m) | .call u (.broadcast d m) =>
    d = c → m = some l ∧ (k.lock l).ownerThread = some u
  | _ => True

-- The runs in which the condition is used that way.
inductive HeldRuns (c : C) (l : L) : List (Event T L C) → Kernel T L C → Prop where
  | initial : HeldRuns c l [] .initial
  | step {k after : Kernel T L C} : HeldRuns c l history k → Holds c l k action → Steps k action after →
      HeldRuns c l (k.events action ++ history) after

theorem HeldRuns.runs (path : HeldRuns c l history k) : Runs history k := by
  induction path with
  | initial => exact .initial
  | step _ _ steps ih => exact ih.step steps

-- The condition is bound to no other lock, and a thread in the loop of Broadcast
-- still owns the lock.
structure Kept (c : C) (l : L) (k : Kernel T L C) : Prop where
  bound : (k.condition c).waitLock = none ∨ (k.condition c).waitLock = some l
  led : ∀ u m, k.inside u = .broadcast c m → m = some l ∧ (k.lock l).ownerThread = some u

theorem touches_bound (touches : Touches k action after c) (holds : Holds c l k action)
    (bound : (k.condition c).waitLock = none ∨ (k.condition c).waitLock = some l) :
    (after.condition c).waitLock = none ∨ (after.condition c).waitLock = some l := by
  cases touches with
  | rests same => rw [same]; exact bound
  | @wakes next rest waiting result =>
    rw [result]
    cases rest with
    | nil => exact Or.inl rfl
    | cons => exact bound
  | enqueues action result =>
    subst action
    rw [result]
    exact Or.inr (holds rfl).1

-- Only the call of Broadcast takes a thread into its loop.
theorem enters_broadcast (steps : Steps k action after) (inside : after.inside u = .broadcast c m)
    (own : action.thread = u) : action = .call u (.broadcast c m) ∨ k.inside u = .broadcast c m := by
  cases steps with
  | @call v what ready outside =>
    obtain rfl : v = u := own
    cases what with
    | acquire l =>
      simp only [call,acquire_inside,Function.update_self] at inside
      split at inside <;> cases inside
    | release l => simp [call,(release_spares k v l).1,outside] at inside
    | wait d n =>
      rcases wait_cases k v d n with ⟨output,_,result⟩ | ⟨l,_,_,result⟩
      · simp [call,result,outside] at inside
      · simp [call,result,sleep] at inside
    | signal d n => simp [call,(signal_frame k d n).2,outside] at inside
    | broadcast d n =>
      simp only [call,broadcast] at inside
      split at inside
      · simp [return_] at inside
      · obtain ⟨rfl,rfl⟩ : d = c ∧ n = m := by simpa using inside
        exact Or.inl rfl
    | yield => simp [call,outside] at inside
    | finish => simp [call,sleep] at inside
  | @returns v l ready entering =>
    obtain rfl : v = u := own
    simp [return_] at inside
  | @reacquires v d l ready place =>
    obtain rfl : v = u := own
    simp only [acquire_inside,Function.update_self] at inside
    split at inside <;> cases inside
  | @loops v d n ready place =>
    obtain rfl : v = u := own
    simp only [broadcast] at inside
    split at inside
    · simp [return_] at inside
    · obtain ⟨rfl,rfl⟩ : d = c ∧ n = m := by simpa using inside
      exact Or.inr place

theorem step_kept (valid : Valid k) (kept : Kept c l k) (holds : Holds c l k action)
    (steps : Steps k action after) : Kept c l after := by
  refine ⟨touches_bound (step_touches steps c) holds kept.bound,?_⟩
  intro u m inside
  have before : action = .call u (.broadcast c m) ∨ k.inside u = .broadcast c m := by
    by_cases own : action.thread = u
    · exact enters_broadcast steps inside own
    · rw [(step_spares steps (Ne.symm own)).1] at inside
      exact Or.inr inside
  have owned : m = some l ∧ (k.lock l).ownerThread = some u := by
    rcases before with rfl | looping
    · exact holds rfl
    · exact kept.led u m looping
  refine ⟨owned.1,?_⟩
  have entitled : after.Entitled u l := by
    apply step_entitled valid steps (Or.inl owned.2)
    rintro rfl
    rcases before with calls | looping
    · cases calls
    · cases steps with
      | call ready outside => simp [looping] at outside
  rcases entitled with owner | ⟨d,waiting⟩
  · exact owner
  · simp [inside] at waiting

theorem HeldRuns.kept (path : HeldRuns c l history k) : Kept c l k := by
  induction path with
  | initial => exact ⟨Or.inl rfl,fun u m inside => by cases inside⟩
  | step prior holds steps ih => exact step_kept (runs_valid prior.runs) ih holds steps

-- While the lock is held in a Broadcast no other thread can touch the condition.
theorem apart_rests (kept : Kept c l k) (inside : k.inside t = .broadcast c m) (holds : Holds c l k action)
    (steps : Steps k action after) (apart : t ≠ action.thread) :
    after.condition c = k.condition c ∧ enqueuedOn c (k.events action) = [] ∧
      wokenOn c (k.events action) = [] := by
  have owner := (kept.led t m inside).2
  have alone (u : T) (owned : (k.lock l).ownerThread = some u) (own : u = action.thread) : False := by
    rw [owner] at owned
    exact apart ((Option.some.inj owned).trans own)
  cases step_touches steps c with
  | rests same unjoined unwoken => exact ⟨same,unjoined,unwoken⟩
  | wakes _ _ signals =>
    obtain ⟨u,n,rfl | rfl | ⟨rfl,looping⟩⟩ := signals
    · exact (alone u (holds rfl).2 rfl).elim
    · exact (alone u (holds rfl).2 rfl).elim
    · exact (alone u (kept.led u n looping).2 rfl).elim
  | @enqueues u n calls =>
    subst calls
    exact (alone u (holds rfl).2 rfl).elim

theorem During.heldRuns (path : HeldRuns c l history k)
    (during : During (Holds c l) k t c (some l) rounds new after) : HeldRuns c l (new ++ history) after := by
  induction during with
  | called ready outside holds => exact path.step holds (.call ready outside)
  | loops _ inside ready holds ih =>
    rw [List.append_assoc]
    exact ih.step holds (.loops ready inside)
  | others _ _ _ holds steps ih =>
    rw [List.append_assoc]
    exact ih.step holds steps

-- A Signal that makes the thread READY, which was asleep, and no other.
def Readies (u : T) (round : Kernel T L C × Kernel T L C) : Prop :=
  round.1.status u = .BLOCKED ∧ round.2.status = Function.update round.1.status u .READY

-- One round over a condition bound to the lock of the call.
theorem round_wakes (valid : Valid k) (ready : k.status t = .READY)
    (bound : (k.condition c).waitLock = none ∨ (k.condition c).waitLock = some l) :
    ((k.condition c).waitQueue = [] ∧ k.signalEvents t c (some l) = [] ∧
      k.broadcast t c (some l) = k.return_ t) ∨
    (∃ next, (k.condition c).waitQueue = next :: ((k.broadcast t c (some l)).condition c).waitQueue ∧
      k.signalEvents t c (some l) = [.woken next c t] ∧
      (k.broadcast t c (some l)).inside t = .broadcast c (some l) ∧
      (k.broadcast t c (some l)).status t = .READY ∧ Readies next (k,k.broadcast t c (some l))) := by
  cases waiting : (k.condition c).waitQueue with
  | nil =>
    refine Or.inl ⟨rfl,?_,?_⟩
    · simp [signalEvents,Condition.signal_empty waiting]
    · simp [broadcast,waiting]
  | cons next rest =>
    have same : (k.condition c).waitLock = some l := by
      refine bound.resolve_left fun free => ?_
      rw [(valid.waits.null c).mp free] at waiting
      cases waiting
    have round : k.broadcast t c (some l) = {k.signal c (some l) with
        inside := Function.update (k.signal c (some l)).inside t (.broadcast c (some l))} := by
      simp [broadcast,waiting]
    obtain ⟨status,_,blocked⟩ := signal_woken valid waiting same
    refine Or.inr ⟨next,?_,?_,?_,?_,blocked,?_⟩
    · simp [round,signal,Condition.signal_wakes waiting same,readyToRun]
    · simp [signalEvents,Condition.signal_wakes waiting same]
    · simp [round]
    · rw [round]
      exact signal_ready ready c (some l)
    · rw [round]
      exact status

-- The call so far: it has taken the first threads off the queue it found and made
-- them READY, and nobody else has changed the queue. The last step of a call that is
-- over only finds the queue empty.
structure Woke (k : Kernel T L C) (t : T) (c : C) (l : L) (rounds : List (Kernel T L C × Kernel T L C))
    (new : List (Event T L C)) (after : Kernel T L C) : Prop where
  unjoined : enqueuedOn c new = []
  order : (k.condition c).waitQueue = wokenOn c new ++ (after.condition c).waitQueue
  own : ∀ u signaller, .woken u c signaller ∈ new → signaller = t
  goes : (after.inside t = .none ∧ (after.condition c).waitQueue = [] ∧
      ∃ signals last, rounds = signals ++ [last] ∧ List.Forall₂ Readies (wokenOn c new) signals ∧
        last.2.status = last.1.status) ∨
    (after.inside t = .broadcast c (some l) ∧ after.status t = .READY ∧ List.Forall₂ Readies (wokenOn c new) rounds)

theorem round_woke (valid : Valid before) (ready : before.status t = .READY)
    (bound : (before.condition c).waitLock = none ∨ (before.condition c).waitLock = some l)
    (unjoined : enqueuedOn c new = []) (order : queue = wokenOn c new ++ (before.condition c).waitQueue)
    (own : ∀ u signaller, .woken u c signaller ∈ new → signaller = t) (start : (k.condition c).waitQueue = queue)
    (readies : List.Forall₂ Readies (wokenOn c new) rounds) :
    Woke k t c l (rounds ++ [(before,before.broadcast t c (some l))]) (before.signalEvents t c (some l) ++ new)
      (before.broadcast t c (some l)) := by
  rcases round_wakes valid ready bound with ⟨empty,silent,result⟩ | ⟨next,waiting,tells,inside,awake,readied⟩
  · refine ⟨by simpa [silent] using unjoined,?_,by simpa [silent] using own,Or.inl ⟨?_,?_,rounds,_,rfl,?_,?_⟩⟩
    · rw [start,order,silent,result]
      rfl
    · simp [result,return_]
    · simpa [result,return_] using empty
    · rw [silent]
      exact readies
    · rw [result]
      rfl
  · have more : wokenOn c (before.signalEvents t c (some l) ++ new) = wokenOn c new ++ [next] := by
      rw [wokenOn_append,tells]
      simp [wokenOn]
    refine ⟨?_,?_,?_,Or.inr ⟨inside,awake,?_⟩⟩
    · rw [enqueuedOn_append,unjoined,tells]
      simp [enqueuedOn]
    · rw [start,order,more,waiting]
      simp
    · intro u signaller present
      rw [tells,List.singleton_append,List.mem_cons] at present
      rcases present with new_ | old
      · cases new_
        rfl
      · exact own u signaller old
    · rw [more]
      exact List.rel_append readies (.cons readied .nil)

omit [DecidableEq T] [DecidableEq L] in
theorem wokenOn_nil (quiet : wokenOn c (new : List (Event T L C)) = []) : .woken u c signaller ∉ new := by
  intro present
  have woken : u ∈ wokenOn c new := by
    simp only [wokenOn,List.mem_filterMap,List.mem_reverse]
    exact ⟨_,present,by simp⟩
  rw [quiet] at woken
  cases woken

theorem during_woke (path : HeldRuns c l history k)
    (during : During (Holds c l) k t c (some l) rounds new after) : Woke k t c l rounds new after := by
  induction during with
  | called ready outside holds =>
    have first : Woke k t c l ([] ++ [(k,k.broadcast t c (some l))]) (k.signalEvents t c (some l) ++ [])
        (k.broadcast t c (some l)) :=
      round_woke (runs_valid path.runs) ready path.kept.bound rfl rfl (by simp) rfl .nil
    simpa [events] using first
  | @loops rounds new before during inside ready holds ih =>
    have now := during.heldRuns path
    have readies := (ih.goes.resolve_left (by simp [inside])).2.2
    have next := round_woke (runs_valid now.runs) ready now.kept.bound ih.unjoined ih.order ih.own rfl readies
    simpa [events,inside] using next
  | @others rounds new action before after during inside apart holds steps ih =>
    have now := during.heldRuns path
    obtain ⟨_,awake,readies⟩ := ih.goes.resolve_left (by simp [inside])
    obtain ⟨same,unjoined,unwoken⟩ := apart_rests now.kept inside holds steps apart
    obtain ⟨unmoved,ready⟩ := step_spares steps apart
    refine ⟨?_,?_,?_,Or.inr ⟨by rw [unmoved]; exact inside,ready awake,?_⟩⟩
    · rw [enqueuedOn_append,ih.unjoined,unjoined]
      rfl
    · rw [wokenOn_append,unwoken,same,List.append_nil]
      exact ih.order
    · intro u signaller present
      rcases List.mem_append.mp present with new_ | old
      · exact absurd new_ (wokenOn_nil unwoken)
      · exact ih.own u signaller old
    · rw [wokenOn_append,unwoken,List.append_nil]
      exact readies

theorem HeldRuns.calls (_ : HeldRuns c l history k) (ready : k.status t = .READY) (outside : k.inside t = .none)
    (owned : (k.lock l).ownerThread = some t) : During (Holds c l) k t c (some l) [(k,k.broadcast t c (some l))]
      (k.events (.call t (.broadcast c (some l)))) (k.broadcast t c (some l)) :=
  .called ready outside fun _ => ⟨rfl,owned⟩

-- Broadcast among other threads that all use the condition with its lock held. The
-- steps of the call make the waiters READY, one after the other in their order.
theorem broadcast_wakes_waiters (path : HeldRuns c l history k)
    (during : During (Holds c l) k t c (some l) rounds new after) :
    (k.condition c).waitQueue.Nodup ∧
    (∀ u ∈ (k.condition c).waitQueue, k.status u = .BLOCKED) ∧
    enqueuedOn c history = wokenOn c history ++ (k.condition c).waitQueue ∧
    enqueuedOn c new = [] ∧
    (∀ u signaller, .woken u c signaller ∈ new → signaller = t) ∧
    ((after.inside t = .none ∧ wokenOn c new = (k.condition c).waitQueue ∧ after.condition c = ⟨none,[]⟩ ∧
        ∃ signals last, rounds = signals ++ [last] ∧ List.Forall₂ Readies (k.condition c).waitQueue signals ∧
          last.2.status = last.1.status) ∨
      (after.inside t = .broadcast c (some l) ∧ after.status t = .READY ∧
        List.Forall₂ Readies (wokenOn c new) rounds ∧ rounds.length ≤ (k.condition c).waitQueue.length)) := by
  have valid := runs_valid path.runs
  have woke := during_woke path during
  refine ⟨valid.waits.nodup c,?_,runs_fifo path.runs c,woke.unjoined,woke.own,?_⟩
  · intro u queued
    exact (valid.waits.queued c u queued).1
  · rcases woke.goes with ⟨returned,empty,signals,last,steps,readies,rests⟩ | ⟨inside,awake,readies⟩
    · have free := ((runs_valid (during.heldRuns path).runs).waits.null c).mpr empty
      have all : wokenOn c new = (k.condition c).waitQueue := by rw [woke.order,empty,List.append_nil]
      refine Or.inl ⟨returned,all,?_,signals,last,steps,all ▸ readies,rests⟩
      cases now : after.condition c with
      | mk waitLock waitQueue => simp_all
    · refine Or.inr ⟨inside,awake,readies,?_⟩
      rw [woke.order,← readies.length_eq,List.length_append]
      exact Nat.le_add_right _ _

-- Threads 0 and 1 wait and thread 2 broadcasts.
theorem broadcast_wakes_waiters_two :
    ∃ history k rounds new after, HeldRuns 0 0 history (k : Kernel Nat Nat Nat) ∧ (k.condition 0).waitQueue = [0,1] ∧
      During (Holds 0 0) k 2 0 (some 0) rounds new after ∧ rounds.length = 3 ∧ wokenOn 0 new = [0,1] ∧
      ∃ signals last, rounds = signals ++ [last] ∧ List.Forall₂ Readies [0,1] signals := by
  have first := HeldRuns.step .initial (show Holds 0 0 (initial : Kernel Nat Nat Nat) (.call 0 (.acquire 0)) from trivial)
    (.call rfl rfl)
  have second := first.step (show Holds 0 0 _ (.call 0 (.wait 0 (some 0))) from fun _ => ⟨rfl,rfl⟩) (.call rfl rfl)
  have third := second.step (show Holds 0 0 _ (.call 1 (.acquire 0)) from trivial) (.call rfl rfl)
  have fourth := third.step (show Holds 0 0 _ (.call 1 (.wait 0 (some 0))) from fun _ => ⟨rfl,rfl⟩) (.call rfl rfl)
  have fifth := fourth.step (show Holds 0 0 _ (.call 2 (.acquire 0)) from trivial) (.call rfl rfl)
  have last := ((fifth.calls (t := 2) rfl rfl rfl).loops rfl rfl trivial).loops rfl rfl trivial
  refine ⟨_,_,_,_,_,fifth,rfl,last,rfl,?_⟩
  rcases (broadcast_wakes_waiters fifth last).2.2.2.2.2 with ⟨_,woken,_,signals,final,steps,readies,_⟩ | ⟨inside,_⟩
  · exact ⟨woken,signals,final,steps,readies⟩
  · cases inside

end Nachos.Kernel
