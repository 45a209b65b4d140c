import Nachos.KernelInvariant

namespace Nachos.Kernel

-- What a step of the kernel does that a later step cannot read off the state.
-- `acquired` is the return of an Acquire, direct or at the end of a Wait;
-- `released` a direct call of Release; `enqueued`, `woken` and `left` are the
-- append in Wait, the removal by one Signal, and the end of the Sleep in Wait.
inductive Event (T L C : Type) where
  | acquired (thread : T) (lock : L)
  | released (thread : T) (lock : L)
  | enqueued (thread : T) (condition : C)
  | woken (thread : T) (condition : C) (signaller : T)
  | left (thread : T) (condition : C)
  deriving DecidableEq, Repr

section
variable [DecidableEq T] [DecidableEq L]

def acquireEvents (k : Kernel T L C) (t : T) (l : L) : List (Event T L C) :=
  if ((k.lock l).acquire t).2 then [] else [.acquired t l]

def signalEvents (k : Kernel T L C) (t : T) (c : C) (conditionLock : Option L) : List (Event T L C) :=
  ((k.condition c).signal conditionLock).2.1.toList.map fun thread => .woken thread c t

def waitEvents (k : Kernel T L C) (t : T) (c : C) (conditionLock : Option L) : List (Event T L C) :=
  match ((k.condition c).wait t conditionLock).2 with
  | .ok _ => [.enqueued t c]
  | .error _ => []

-- Newest first, as are the histories below.
def events (k : Kernel T L C) : Action T L C → List (Event T L C)
  | .call t (.acquire l) => k.acquireEvents t l
  | .call t (.release l) => [.released t l]
  | .call t (.wait c l) => k.waitEvents t c l
  | .call t (.signal c l) | .call t (.broadcast c l) => k.signalEvents t c l
  | .call _ .yield | .call _ .finish => []
  | .resume t => match k.inside t with
    | .acquire l | .reacquire _ l => [.acquired t l]
    | .wait c l => k.acquireEvents t l ++ [.left t c]
    | .broadcast c l => k.signalEvents t c l
    | .none | .finished => []
end

variable [DecidableEq T] [DecidableEq L] [DecidableEq C]

-- Any number of threads make any calls in any order of steps.
inductive Runs : List (Event T L C) → Kernel T L C → Prop where
  | initial : Runs [] .initial
  | step : Runs history k → Steps k action after → Runs (k.events action ++ history) after

-- The same for a given list of actions, oldest first.
def run (k : Kernel T L C) (history : List (Event T L C)) :
    List (Action T L C) → Option (List (Event T L C) × Kernel T L C)
  | [] => some (history,k)
  | action :: later => do
    let after ← k.step action
    after.run (k.events action ++ history) later

theorem run_sound (actions : List (Action T L C)) (path : Runs history (k : Kernel T L C)) (ran : k.run history actions = some (newer,after)) :
    Runs newer after := by
  induction actions generalizing history k with
  | nil =>
    simp only [run,Option.some.injEq,Prod.mk.injEq] at ran
    obtain ⟨rfl,rfl⟩ := ran
    exact path
  | cons action later ih =>
    simp only [run,Option.bind_eq_bind,Option.bind_eq_some_iff] at ran
    obtain ⟨middle,stepped,rest⟩ := ran
    exact ih (path.step (step_sound stepped)) rest

theorem runs_valid (path : Runs history (k : Kernel T L C)) : Valid k := by
  induction path with
  | initial => exact initial_valid
  | step _ stepped ih => exact step_valid ih stepped

-- The latest Acquire of the lock by the thread has returned, and the thread has
-- not called Release on it since.
def Acquired (t : T) (l : L) : List (Event T L C) → Prop
  | [] => False
  | .acquired u m :: older => (u = t ∧ m = l) ∨ Acquired t l older
  | .released u m :: older => ¬(u = t ∧ m = l) ∧ Acquired t l older
  | _ :: older => Acquired t l older

def InsideWait (k : Kernel T L C) (t : T) (l : L) : Prop :=
  ∃ c, k.inside t = .wait c l ∨ k.inside t = .reacquire c l

section
variable {k : Kernel T L C}
omit [DecidableEq C] in
theorem acquire_keeps_owner (locks : LockValid k) (owned : (k.lock l).ownerThread = some t) (u : T) (m : L)
    (place : Inside L C) : ((k.acquire u m place).lock l).ownerThread = some t := by
  rcases acquire_cases k locks u m place with ⟨_,result⟩ | ⟨free,_,result⟩ | ⟨owner,held,_,result⟩
  · simpa [result,return_] using owned
  · have differs : l ≠ m := by rintro rfl; simp [free] at owned
    simpa [result,differs] using owned
  · by_cases same : l = m
    · subst same
      simpa [result,sleep,held] using owned
    · simpa [result,sleep,same] using owned

omit [DecidableEq C] in
theorem acquire_returned (locks : LockValid k) (returns : ((k.lock l).acquire t).2 = false)
    (place : Inside L C) : ((k.acquire t l place).lock l).ownerThread = some t := by
  rcases acquire_cases k locks t l place with ⟨held,result⟩ | ⟨_,_,result⟩ | ⟨owner,held,other,result⟩
  · simpa [result,return_] using held
  · simp [result]
  · have busy : (k.lock l).isBusy = true := (locks.busy l).mpr (by simp [held])
    rw [Lock.acquire_busy (by simpa [held] using other) busy] at returns
    cases returns

omit [DecidableEq C] in
theorem release_keeps_owner (locks : LockValid k) (owned : (k.lock l).ownerThread = some t)
    (other : ¬(u = t ∧ m = l)) : ((k.release u m).lock l).ownerThread = some t := by
  by_cases same : l = m
  · subst same
    have refused : (k.lock l).ownerThread ≠ some u := by
      rw [owned]
      rintro equal
      exact other ⟨(Option.some.inj equal).symm,rfl⟩
    simpa [release,Lock.release_refused refused,readyToRun] using owned
  · rcases release_cases k locks u m with ⟨_,result⟩ | ⟨_,_,_,_,result⟩ | ⟨_,_,result⟩ <;>
      simpa [result,same] using owned

omit [DecidableEq C] in
theorem acquire_inside (k : Kernel T L C) (t : T) (l : L) (place : Inside L C) :
    (k.acquire t l place).inside =
      Function.update k.inside t (if ((k.lock l).acquire t).2 then place else .none) := by
  unfold acquire
  dsimp only
  split <;> simp_all [sleep,return_]

omit [DecidableEq T] [DecidableEq L] [DecidableEq C] in
theorem none_outside (outside : k.inside u = .none) (m : L) : ¬k.InsideWait u m := by
  simp [InsideWait,outside]

-- Owner, or inside a Wait that gives the lock back before it returns.
def Entitled (k : Kernel T L C) (t : T) (l : L) : Prop :=
  (k.lock l).ownerThread = some t ∨ k.InsideWait t l

omit [DecidableEq L] [DecidableEq C] in
theorem moved_entitled (entitled : k.Entitled t l) (outside : ∀ m, ¬k.InsideWait u m)
    (place : Inside L C) : Entitled {k with inside := Function.update k.inside u place} t l := by
  rcases entitled with owned | ⟨c,waiting⟩
  · exact Or.inl owned
  · have differs : t ≠ u := by rintro rfl; exact outside l ⟨c,waiting⟩
    exact Or.inr ⟨c,by simpa [differs] using waiting⟩

omit [DecidableEq C] in
theorem acquire_entitled (locks : LockValid k) (entitled : k.Entitled t l)
    (from_ : (∀ m, ¬k.InsideWait u m) ∨ ∃ c, k.inside u = .wait c m ∧ place = .reacquire c m) :
    (k.acquire u m place).Entitled t l := by
  rcases entitled with owned | ⟨c,waiting⟩
  · exact Or.inl (acquire_keeps_owner locks owned u m place)
  · by_cases same : t = u
    · subst same
      rcases from_ with outside | ⟨c',waited,rfl⟩
      · exact absurd ⟨c,waiting⟩ (outside l)
      · obtain rfl : m = l := by rw [waited] at waiting; simp_all
        cases sleeps : ((k.lock m).acquire t).2 with
        | true => exact Or.inr ⟨c',by simp [acquire_inside,sleeps]⟩
        | false => exact Or.inl (acquire_returned locks sleeps _)
    · exact Or.inr ⟨c,by simpa [acquire_inside,same] using waiting⟩

omit [DecidableEq C] in
theorem release_entitled (locks : LockValid k) (entitled : k.Entitled t l)
    (other : ¬(u = t ∧ m = l)) : (k.release u m).Entitled t l := by
  rcases entitled with owned | waiting
  · exact Or.inl (release_keeps_owner locks owned other)
  · exact Or.inr (by simpa [InsideWait,(release_frame locks u m).2.1] using waiting)

end

section
variable {k : Kernel T L C}

theorem wait_entitled (locks : LockValid k) (entitled : k.Entitled t l) (outside : k.inside u = .none) :
    (k.wait u c conditionLock).Entitled t l := by
  rcases wait_cases k u c conditionLock with ⟨output,_,result⟩ | ⟨m,_,_,result⟩
  · rw [result]; exact entitled
  · rw [result]
    have before : LockValid
        {k with condition := Function.update k.condition c ⟨some m,(k.condition c).waitQueue ++ [u]⟩} :=
      ⟨locks.busy,locks.queueBusy,locks.nodup,locks.ownerOut,locks.queued,locks.entered,locks.gaveUp⟩
    by_cases own : u = t ∧ m = l
    · obtain ⟨rfl,rfl⟩ := own
      exact Or.inr ⟨c,by simp [sleep]⟩
    · have kept := release_entitled before (show Entitled _ t l from entitled) own
      have frame := (release_frame before u m).2.1
      exact moved_entitled kept (fun n => none_outside (by rw [frame]; exact outside) n) _

theorem signal_frame (k : Kernel T L C) (c : C) (conditionLock : Option L) :
    (k.signal c conditionLock).lock = k.lock ∧ (k.signal c conditionLock).inside = k.inside := by
  rcases signal_cases k c conditionLock with ⟨_,output,result⟩ | ⟨next,rest,_,_,result⟩ <;> simp [result]

theorem signal_entitled (entitled : k.Entitled t l) : (k.signal c conditionLock).Entitled t l := by
  obtain ⟨locks,inside⟩ := signal_frame k c conditionLock
  simpa [Entitled,InsideWait,locks,inside] using entitled

theorem broadcast_entitled (entitled : k.Entitled t l) (outside : ∀ m, ¬k.InsideWait u m) :
    (k.broadcast u c conditionLock).Entitled t l := by
  unfold broadcast
  split
  · exact moved_entitled entitled outside _
  · apply moved_entitled (signal_entitled entitled)
    simpa [InsideWait,(signal_frame k c conditionLock).2] using outside

-- Every step keeps the claim of a thread on a lock, except its own Release.
theorem step_entitled (valid : Valid k) (steps : Steps k action after)
    (entitled : k.Entitled t l) (kept : action ≠ .call t (.release l)) : after.Entitled t l := by
  cases steps with
  | @call u what ready outside =>
    have away := none_outside outside
    cases what with
    | acquire m => exact acquire_entitled valid.locks entitled (Or.inl away)
    | release m => exact release_entitled valid.locks entitled (by rintro ⟨rfl,rfl⟩; exact kept rfl)
    | wait c m => exact wait_entitled valid.locks entitled outside
    | signal c m => exact signal_entitled entitled
    | broadcast c m => exact broadcast_entitled entitled away
    | yield => exact entitled
    | finish => exact moved_entitled (u := u) entitled away .finished
  | @returns u m ready entering =>
    have owned := valid.handed ready entering
    rcases entitled with owned' | ⟨c,waiting⟩
    · exact Or.inl owned'
    · by_cases same : t = u
      · subst same
        obtain rfl : m = l := by rcases waiting with place | place <;> simp_all [Inside.entering]
        exact Or.inl owned
      · exact Or.inr ⟨c,by simpa [return_,same] using waiting⟩
  | reacquires ready place => exact acquire_entitled valid.locks entitled (Or.inr ⟨_,place,rfl⟩)
  | loops ready place => exact broadcast_entitled entitled (by simp [InsideWait,place])

omit [DecidableEq T] [DecidableEq L] [DecidableEq C] in
theorem acquired_append (acquired : Acquired t l (new ++ older : List (Event T L C))) :
    .acquired t l ∈ new ∨ (.released t l ∉ new ∧ Acquired t l older) := by
  induction new with
  | nil => exact Or.inr ⟨by simp,acquired⟩
  | cons event rest ih =>
    cases event with
    | acquired u m =>
      rcases acquired with ⟨rfl,rfl⟩ | earlier
      · exact Or.inl (by simp)
      · exact (ih earlier).imp (by simp_all) (by simp_all)
    | released u m =>
      obtain ⟨other,earlier⟩ := acquired
      refine (ih earlier).imp (by simp_all) ?_
      rintro ⟨kept,old⟩
      refine ⟨?_,old⟩
      simp only [List.mem_cons,Event.released.injEq,not_or]
      exact ⟨by rintro ⟨rfl,rfl⟩; exact other ⟨rfl,rfl⟩,kept⟩
    | enqueued u c => exact (ih acquired).imp (by simp_all) (by simp_all)
    | woken u c v => exact (ih acquired).imp (by simp_all) (by simp_all)
    | left u c => exact (ih acquired).imp (by simp_all) (by simp_all)

omit [DecidableEq L] [DecidableEq C] in
theorem acquireEvents_mem (present : .acquired t l ∈ k.acquireEvents u m) :
    u = t ∧ m = l ∧ ((k.lock l).acquire t).2 = false := by
  unfold acquireEvents at present
  split at present
  · cases present
  · simp only [List.mem_singleton,Event.acquired.injEq] at present
    obtain ⟨rfl,rfl⟩ := present
    simp_all

omit [DecidableEq C] in
theorem returns_events (entering : (k.inside t).entering = some l) : k.events (.resume t) = [.acquired t l] := by
  cases place : k.inside t <;> simp_all [Inside.entering,events]

-- An Acquire returns to its caller only as owner.
theorem new_acquired (valid : Valid k) (steps : Steps k action after)
    (present : .acquired t l ∈ k.events action) : (after.lock l).ownerThread = some t := by
  cases steps with
  | @call u what ready outside =>
    cases what with
    | acquire m =>
      obtain ⟨rfl,rfl,returns⟩ := acquireEvents_mem present
      exact acquire_returned valid.locks returns _
    | wait c m => simp only [events,waitEvents] at present; split at present <;> simp at present
    | release m => simp [events] at present
    | signal c m => simp [events,signalEvents] at present
    | broadcast c m => simp [events,signalEvents] at present
    | yield => simp [events] at present
    | finish => simp [events] at present
  | @returns u m ready entering =>
    rw [returns_events entering] at present
    obtain ⟨rfl,rfl⟩ : t = u ∧ l = m := by simpa using present
    exact valid.handed ready entering
  | @reacquires u c m ready place =>
    simp only [events,place,List.mem_append,List.mem_singleton,reduceCtorEq,or_false] at present
    obtain ⟨rfl,rfl,returns⟩ := acquireEvents_mem present
    exact acquire_returned valid.locks returns _
  | loops ready place => simp [events,place,signalEvents] at present

theorem runs_entitled (path : Runs history k) : ∀ t l, Acquired t l history → k.Entitled t l := by
  induction path with
  | initial => intro t l acquired; exact acquired.elim
  | @step history before action after prior stepped ih =>
    intro t l acquired
    have valid := runs_valid prior
    rcases acquired_append acquired with present | ⟨kept,old⟩
    · exact Or.inl (new_acquired valid stepped present)
    · apply step_entitled valid stepped (ih t l old)
      rintro rfl
      exact kept (by simp [events])

end

-- The thread is between an Acquire of the lock and the next Release of it.
def InCriticalSection (history : List (Event T L C)) (k : Kernel T L C) (t : T) (l : L) : Prop :=
  Acquired t l history ∧ ¬k.InsideWait t l

theorem critical_section_owner (path : Runs history (k : Kernel T L C))
    (inside : InCriticalSection history k t l) : (k.lock l).ownerThread = some t :=
  (runs_entitled path t l inside.1).resolve_right inside.2

-- The representation invariant of every Lock in every reachable state, and
-- mutual exclusion. Release by a thread that is not the owner is in scope.
theorem lock_mutual_exclusion (path : Runs history (k : Kernel T L C)) (l : L) :
    ((k.lock l).isBusy = true ↔ (k.lock l).ownerThread ≠ none) ∧
    ((k.lock l).waitQueue ≠ [] → (k.lock l).isBusy = true) ∧
    (k.lock l).waitQueue.Nodup ∧
    (∀ t, (k.lock l).ownerThread = some t → t ∉ (k.lock l).waitQueue) ∧
    (∀ t, (k.inside t).entering = some l →
      t ∈ (k.lock l).waitQueue ∨ ((k.lock l).ownerThread = some t ∧ k.status t = .READY)) ∧
    (∀ t, Acquired t l history → ¬k.InsideWait t l → (k.lock l).ownerThread = some t) ∧
    (∀ t u, InCriticalSection history k t l → InCriticalSection history k u l → t = u) ∧
    (∀ t after, (k.lock l).ownerThread ≠ some t → k.step (.call t (.release l)) = some after →
      after.lock = k.lock ∧ after.status = k.status ∧ after.inside = k.inside) := by
  have valid := (runs_valid path).locks
  refine ⟨valid.busy l,valid.queueBusy l,valid.nodup l,valid.ownerOut l,valid.entered l,?_,?_,?_⟩
  · intro t acquired outside
    exact critical_section_owner path ⟨acquired,outside⟩
  · intro t u first second
    have one := critical_section_owner path first
    have two := critical_section_owner path second
    rw [one] at two
    exact Option.some.inj two
  · intro t after other stepped
    cases step_sound stepped with
    | call ready outside =>
      rcases release_cases k valid t l with ⟨_,result⟩ | ⟨_,_,held,_⟩ | ⟨held,_⟩
      · simp [call,result]
      · exact absurd held other
      · exact absurd held other

-- A thread that is not the owner calls Release, then the owner hands the lock on.
def handOver : List (Action Nat Nat Nat) :=
  [.call 0 (.acquire 0),.call 1 (.acquire 0),.call 2 (.release 0),.call 0 (.release 0),.resume 1]

theorem lock_mutual_exclusion_handed_over :
    ∃ history k, initial.run [] handOver = some (history,k) ∧ Acquired 1 0 history ∧ ¬k.InsideWait 1 0 ∧
      (k.lock 0).ownerThread = some 1 := by
  refine ⟨_,_,rfl,Or.inl ⟨rfl,rfl⟩,?_,?_⟩
  · rintro ⟨c,place | place⟩ <;> cases place
  · refine (lock_mutual_exclusion (run_sound handOver .initial rfl) 0).2.2.2.2.2.1 1 ?_ ?_
    · exact Or.inl ⟨rfl,rfl⟩
    · rintro ⟨c,place | place⟩ <;> cases place

end Nachos.Kernel
