import Mathlib.Data.List.Nodup
import Nachos.Kernel

namespace Nachos.Kernel
variable [DecidableEq T] [DecidableEq L]

-- The locks against the threads. `entered` has the hand-over of Release: the
-- thread taken off the queue is owner and READY before it runs again.
structure LockValid (k : Kernel T L C) : Prop where
  busy : ∀ l, (k.lock l).isBusy = true ↔ (k.lock l).ownerThread ≠ none
  queueBusy : ∀ l, (k.lock l).waitQueue ≠ [] → (k.lock l).isBusy = true
  nodup : ∀ l, (k.lock l).waitQueue.Nodup
  ownerOut : ∀ l t, (k.lock l).ownerThread = some t → t ∉ (k.lock l).waitQueue
  queued : ∀ l t, t ∈ (k.lock l).waitQueue → k.status t = .BLOCKED ∧ (k.inside t).entering = some l
  entered : ∀ l t, (k.inside t).entering = some l →
    t ∈ (k.lock l).waitQueue ∨ ((k.lock l).ownerThread = some t ∧ k.status t = .READY)
  gaveUp : ∀ c l t, k.inside t = .wait c l → (k.lock l).ownerThread ≠ some t

-- The conditions against the threads. A thread in Wait is on the queue until a
-- Signal takes it off and makes it READY.
structure WaitValid (k : Kernel T L C) : Prop where
  nodup : ∀ c, (k.condition c).waitQueue.Nodup
  null : ∀ c, (k.condition c).waitLock = none ↔ (k.condition c).waitQueue = []
  queued : ∀ c t, t ∈ (k.condition c).waitQueue →
    k.status t = .BLOCKED ∧ ∃ l, k.inside t = .wait c l ∧ (k.condition c).waitLock = some l
  waits : ∀ c l t, k.inside t = .wait c l → t ∈ (k.condition c).waitQueue ∨ k.status t = .READY
  awake : ∀ t, k.inside t = .none → k.status t = .READY

structure Valid (k : Kernel T L C) : Prop where
  locks : LockValid k
  waits : WaitValid k

omit [DecidableEq T] [DecidableEq L] in
theorem initial_valid : Valid (initial : Kernel T L C) := by
  refine ⟨⟨?_,?_,?_,?_,?_,?_,?_⟩,⟨?_,?_,?_,?_,?_⟩⟩
  all_goals simp [initial,Lock.new,Condition.new,Inside.entering]

-- Acquire has three ends: re-entry, a free lock, and the queue.
theorem acquire_cases (k : Kernel T L C) (valid : LockValid k) (t : T) (l : L) (place : Inside L C) :
    ((k.lock l).ownerThread = some t ∧ k.acquire t l place = k.return_ t) ∨
    ((k.lock l).ownerThread = none ∧ (k.lock l).waitQueue = [] ∧
      k.acquire t l place =
        {k with lock := Function.update k.lock l ⟨some t,true,[]⟩, inside := Function.update k.inside t .none}) ∨
    (∃ owner, (k.lock l).ownerThread = some owner ∧ owner ≠ t ∧
      k.acquire t l place =
        sleep {k with lock := Function.update k.lock l ⟨some owner,true,(k.lock l).waitQueue ++ [t]⟩} t place) := by
  have isBusy := valid.busy l
  cases owned : (k.lock l).ownerThread with
  | none =>
    have free : (k.lock l).isBusy = false := by simpa [owned] using isBusy
    have empty : (k.lock l).waitQueue = [] := by
      by_contra waiting
      simp [valid.queueBusy l waiting] at free
    refine Or.inr (Or.inl ⟨rfl,empty,?_⟩)
    simp [acquire,Lock.acquire_free (t := t) (by simp [owned]) free,empty,return_]
  | some owner =>
    have busy : (k.lock l).isBusy = true := by simpa [owned] using isBusy
    by_cases same : owner = t
    · subst same
      exact Or.inl ⟨rfl,by simp [acquire,Lock.acquire_held owned]⟩
    · refine Or.inr (Or.inr ⟨owner,rfl,same,?_⟩)
      simp [acquire,Lock.acquire_busy (t := t) (by simpa [owned] using same) busy,owned,busy]

-- Release has three ends: refused, handed over, and freed.
theorem release_cases (k : Kernel T L C) (valid : LockValid k) (t : T) (l : L) :
    ((k.lock l).ownerThread ≠ some t ∧ k.release t l = {k with printed := k.printed ++ [.notLockOwner t]}) ∨
    (∃ next rest, (k.lock l).ownerThread = some t ∧ (k.lock l).waitQueue = next :: rest ∧
      k.release t l =
        {k with
          lock := Function.update k.lock l ⟨some next,true,rest⟩
          status := Function.update k.status next .READY}) ∨
    ((k.lock l).ownerThread = some t ∧ (k.lock l).waitQueue = [] ∧
      k.release t l = {k with lock := Function.update k.lock l .new}) := by
  by_cases held : (k.lock l).ownerThread = some t
  · have busy : (k.lock l).isBusy = true := (valid.busy l).mpr (by simp [held])
    cases waiting : (k.lock l).waitQueue with
    | nil =>
      refine Or.inr (Or.inr ⟨held,rfl,?_⟩)
      simp [release,Lock.release_freed held waiting,readyToRun,Lock.new,waiting]
    | cons next rest =>
      refine Or.inr (Or.inl ⟨next,rest,held,rfl,?_⟩)
      simp [release,Lock.release_handed held waiting,readyToRun,busy]
  · refine Or.inl ⟨held,?_⟩
    simp [release,Lock.release_refused held,readyToRun]

theorem acquire_lockValid {k : Kernel T L C} (valid : LockValid k) (ready : k.status t = .READY)
    (enters : place.entering = some l) (outside : (k.inside t).entering = none) :
    LockValid (k.acquire t l place) := by
  rcases acquire_cases k valid t l place with ⟨held,result⟩ | ⟨free,empty,result⟩ | ⟨owner,held,other,result⟩
  all_goals
    rw [result]
    obtain ⟨busy,queueBusy,nodup,ownerOut,queued,entered,gaveUp⟩ := valid
    constructor <;> simp only [return_,sleep] <;> grind -ring -linarith [Inside.entering]

theorem release_lockValid {k : Kernel T L C} (valid : LockValid k) (outside : (k.inside t).entering = none) :
    LockValid (k.release t l) := by
  rcases release_cases k valid t l with ⟨other,result⟩ | ⟨next,rest,held,waiting,result⟩ | ⟨held,empty,result⟩
  all_goals
    rw [result]
    obtain ⟨busy,queueBusy,nodup,ownerOut,queued,entered,gaveUp⟩ := valid
    constructor <;> grind -ring -linarith [Inside.entering,Lock.new]

theorem acquire_waitValid {k : Kernel T L C} (locks : LockValid k) (valid : WaitValid k)
    (ready : k.status t = .READY) (enters : place.entering = some l) :
    WaitValid (k.acquire t l place) := by
  rcases acquire_cases k locks t l place with ⟨held,result⟩ | ⟨free,empty,result⟩ | ⟨owner,held,other,result⟩
  all_goals
    rw [result]
    obtain ⟨nodup,null,queued,waits,awake⟩ := valid
    constructor <;> simp only [return_,sleep] <;> grind -ring -linarith [Inside.entering]

theorem release_gives_up {k : Kernel T L C} (valid : LockValid k) :
    ((k.release t l).lock l).ownerThread ≠ some t := by
  rcases release_cases k valid t l with ⟨other,result⟩ | ⟨next,rest,held,waiting,result⟩ | ⟨held,empty,result⟩
  · simpa [result] using other
  · have out := valid.ownerOut l t held
    simp only [result,Function.update_self]
    rintro same
    cases same
    exact out (by simp [waiting])
  · simp [result,Lock.new]

omit [DecidableEq L] in
theorem sleep_lockValid {k : Kernel T L C} (valid : LockValid k) (outside : (k.inside t).entering = none)
    (enters : place.entering = none) (gone : ∀ c l, place = .wait c l → (k.lock l).ownerThread ≠ some t) :
    LockValid (k.sleep t place) := by
  obtain ⟨busy,queueBusy,nodup,ownerOut,queued,entered,gaveUp⟩ := valid
  constructor <;> simp only [sleep] <;> grind -ring -linarith [Inside.entering]

-- Release leaves the conditions alone, and the only thread whose status it
-- changes was asleep in Acquire, so on no condition queue.
theorem release_frame {k : Kernel T L C} (valid : LockValid k) (t : T) (l : L) :
    (k.release t l).condition = k.condition ∧ (k.release t l).inside = k.inside ∧
      ∀ u, (k.release t l).status u = k.status u ∨
        ((k.release t l).status u = .READY ∧ (k.inside u).entering = some l) := by
  rcases release_cases k valid t l with ⟨_,result⟩ | ⟨next,rest,held,waiting,result⟩ | ⟨_,_,result⟩
  · rw [result]; exact ⟨rfl,rfl,fun u => Or.inl rfl⟩
  · rw [result]
    refine ⟨rfl,rfl,?_⟩
    intro u
    by_cases same : u = next
    · subst same
      exact Or.inr ⟨by simp,(valid.queued l u (by simp [waiting])).2⟩
    · exact Or.inl (by simp [same])
  · rw [result]; exact ⟨rfl,rfl,fun u => Or.inl rfl⟩

theorem release_waitValid {k : Kernel T L C} (locks : LockValid k) (valid : WaitValid k) :
    WaitValid (k.release t l) := by
  obtain ⟨conditions,inside,status⟩ := release_frame locks t l
  obtain ⟨nodup,null,queued,waits,awake⟩ := valid
  constructor <;> simp only [conditions,inside] <;> grind -ring -linarith [Inside.entering]

-- The thread goes on with its own code, or round Broadcast's loop.
omit [DecidableEq L] in
theorem moved_valid {k : Kernel T L C} (valid : Valid k) (ready : k.status t = .READY)
    (enters : place.entering = none) (awake : ∀ c l, place ≠ .wait c l) :
    Valid {k with inside := Function.update k.inside t place} := by
  obtain ⟨⟨busy,queueBusy,nodup,ownerOut,queued,entered,gaveUp⟩,nodup',null,queued',waits,awake'⟩ := valid
  refine ⟨⟨busy,queueBusy,nodup,ownerOut,?_,?_,?_⟩,⟨nodup',null,?_,?_,?_⟩⟩
  all_goals grind -ring -linarith [Inside.entering]

omit [DecidableEq L] in
theorem return_valid {k : Kernel T L C} (valid : Valid k) (ready : k.status t = .READY) :
    Valid (k.return_ t) :=
  moved_valid valid ready rfl (by simp)

omit [DecidableEq L] in
theorem finish_valid {k : Kernel T L C} (valid : Valid k) (outside : k.inside t = .none) :
    Valid (k.sleep t .finished) := by
  have entering : (k.inside t).entering = none := by rw [outside]; rfl
  refine ⟨sleep_lockValid valid.locks entering rfl (by simp),?_⟩
  obtain ⟨nodup,null,queued,waits,awake⟩ := valid.waits
  constructor <;> simp only [sleep] <;> grind -ring -linarith

theorem acquire_valid {k : Kernel T L C} (valid : Valid k) (ready : k.status t = .READY)
    (enters : place.entering = some l) (outside : (k.inside t).entering = none) :
    Valid (k.acquire t l place) :=
  ⟨acquire_lockValid valid.locks ready enters outside,acquire_waitValid valid.locks valid.waits ready enters⟩

theorem release_valid {k : Kernel T L C} (valid : Valid k) (outside : (k.inside t).entering = none) :
    Valid (k.release t l) :=
  ⟨release_lockValid valid.locks outside,release_waitValid valid.locks valid.waits⟩

variable [DecidableEq C]

-- Wait either returns at once or puts the thread on the queue, releases and sleeps.
theorem wait_cases (k : Kernel T L C) (t : T) (c : C) (conditionLock : Option L) :
    (∃ output, (conditionLock = none ∨ ∃ l other, conditionLock = some l ∧
        (k.condition c).waitLock = some other ∧ other ≠ l) ∧
      k.wait t c conditionLock = {k with printed := k.printed ++ [output]}) ∨
    (∃ l, conditionLock = some l ∧ ((k.condition c).waitLock = none ∨ (k.condition c).waitLock = some l) ∧
      k.wait t c conditionLock =
        (release {k with condition := Function.update k.condition c ⟨some l,(k.condition c).waitQueue ++ [t]⟩}
          t l).sleep t (.wait c l)) := by
  cases conditionLock with
  | none => exact Or.inl ⟨.nullLock,Or.inl rfl,by simp [wait,Condition.wait_null]⟩
  | some l =>
    by_cases same : (k.condition c).waitLock = none ∨ (k.condition c).waitLock = some l
    · exact Or.inr ⟨l,rfl,same,by simp [wait,Condition.wait_enqueued same]⟩
    · cases bound : (k.condition c).waitLock with
      | none => exact absurd (Or.inl bound) same
      | some other =>
        have differs : other ≠ l := by rintro rfl; exact same (Or.inr bound)
        exact Or.inl ⟨.lockMismatch,Or.inr ⟨l,other,rfl,rfl,differs⟩,
          by simp [wait,Condition.wait_mismatch bound differs]⟩

-- Signal either does nothing but print or wakes the head of the queue.
theorem signal_cases (k : Kernel T L C) (c : C) (conditionLock : Option L) :
    (((k.condition c).waitQueue = [] ∨ (k.condition c).waitLock ≠ conditionLock) ∧
      ∃ output, k.signal c conditionLock = {k with printed := k.printed ++ output}) ∨
    (∃ next rest, (k.condition c).waitQueue = next :: rest ∧ (k.condition c).waitLock = conditionLock ∧
      k.signal c conditionLock =
        {k with
          condition := Function.update k.condition c ⟨if rest.isEmpty then none else (k.condition c).waitLock,rest⟩
          status := Function.update k.status next .READY}) := by
  cases waiting : (k.condition c).waitQueue with
  | nil => exact Or.inl ⟨Or.inl rfl,[],by simp [signal,Condition.signal_empty waiting,readyToRun]⟩
  | cons next rest =>
    by_cases same : (k.condition c).waitLock = conditionLock
    · exact Or.inr ⟨next,rest,rfl,same,by simp [signal,Condition.signal_wakes waiting same,readyToRun]⟩
    · exact Or.inl ⟨Or.inr same,_,by simp [signal,Condition.signal_mismatch waiting same,readyToRun]; rfl⟩

theorem wait_valid {k : Kernel T L C} (valid : Valid k) (outside : k.inside t = .none) :
    Valid (k.wait t c conditionLock) := by
  have entering : (k.inside t).entering = none := by rw [outside]; rfl
  obtain ⟨locks,nodup,null,queued,waits,awake⟩ := valid
  rcases wait_cases k t c conditionLock with ⟨output,_,result⟩ | ⟨l,_,same,result⟩
  · rw [result]
    obtain ⟨busy,queueBusy,nodup',ownerOut,queued',entered,gaveUp⟩ := locks
    exact ⟨⟨busy,queueBusy,nodup',ownerOut,queued',entered,gaveUp⟩,⟨nodup,null,queued,waits,awake⟩⟩
  · rw [result]
    -- Between the append and the Sleep only the lock discipline is in force.
    have before : LockValid
        {k with condition := Function.update k.condition c ⟨some l,(k.condition c).waitQueue ++ [t]⟩} :=
      ⟨locks.busy,locks.queueBusy,locks.nodup,locks.ownerOut,locks.queued,locks.entered,locks.gaveUp⟩
    refine ⟨?_,?_⟩
    · apply sleep_lockValid (release_lockValid before entering)
      · rw [(release_frame before t l).2.1]; exact entering
      · rfl
      · rintro c' l' ⟨⟩
        exact release_gives_up before
    · have ready := awake t outside
      have fresh : t ∉ (k.condition c).waitQueue := by
        intro present
        have blocked := (queued c t present).1
        rw [ready] at blocked
        cases blocked
      obtain ⟨conditions,inside,status⟩ := release_frame before t l
      simp only at conditions inside status
      have grown : (k.condition c).waitQueue ++ [t] ≠ [] := by simp
      constructor <;> simp only [sleep,conditions,inside] <;> grind -ring -linarith [Inside.entering]

theorem signal_valid {k : Kernel T L C} (valid : Valid k) : Valid (k.signal c conditionLock) := by
  obtain ⟨locks,nodup,null,queued,waits,awake⟩ := valid
  obtain ⟨busy,queueBusy,nodup',ownerOut,queued',entered,gaveUp⟩ := locks
  rcases signal_cases k c conditionLock with ⟨_,output,result⟩ | ⟨next,rest,waiting,same,result⟩
  · rw [result]
    exact ⟨⟨busy,queueBusy,nodup',ownerOut,queued',entered,gaveUp⟩,⟨nodup,null,queued,waits,awake⟩⟩
  · rw [result]
    obtain ⟨_,l,waited,_⟩ := queued c next (by simp [waiting])
    refine ⟨⟨busy,queueBusy,nodup',ownerOut,?_,?_,gaveUp⟩,?_⟩
    · grind -ring -linarith [Inside.entering]
    · grind -ring -linarith [Inside.entering]
    · constructor <;> grind -ring -linarith

-- Signal never takes a READY thread out of READY.
theorem signal_ready {k : Kernel T L C} (ready : k.status t = .READY) (c : C) (conditionLock : Option L) :
    (k.signal c conditionLock).status t = .READY := by
  rcases signal_cases k c conditionLock with ⟨_,output,result⟩ | ⟨next,rest,_,_,result⟩
  · simpa [result] using ready
  · by_cases same : t = next <;> simp [result,same,ready]

theorem broadcast_valid {k : Kernel T L C} (valid : Valid k) (ready : k.status t = .READY) :
    Valid (k.broadcast t c conditionLock) := by
  unfold broadcast
  split
  · exact return_valid valid ready
  · exact moved_valid (signal_valid valid) (signal_ready ready c conditionLock) rfl (by simp)

theorem step_valid {k : Kernel T L C} (valid : Valid k) (steps : Steps k action after) : Valid after := by
  cases steps with
  | @call t what ready outside =>
    have entering : (k.inside t).entering = none := by rw [outside]; rfl
    cases what with
    | acquire l => exact acquire_valid valid ready rfl entering
    | release l => exact release_valid valid entering
    | wait c l => exact wait_valid valid outside
    | signal c l => exact signal_valid valid
    | broadcast c l => exact broadcast_valid valid ready
    | yield => exact valid
    | finish => exact finish_valid valid outside
  | returns ready place => exact return_valid valid ready
  | reacquires ready place => exact acquire_valid valid ready rfl (by rw [place]; rfl)
  | loops ready place => exact broadcast_valid valid ready

-- A thread that runs on after its Sleep in Acquire was made owner while it slept.
omit [DecidableEq T] [DecidableEq L] [DecidableEq C] in
theorem Valid.handed {k : Kernel T L C} (valid : Valid k) (ready : k.status t = .READY)
    (entering : (k.inside t).entering = some l) : (k.lock l).ownerThread = some t := by
  rcases valid.locks.entered l t entering with asleep | ⟨owned,_⟩
  · have blocked := (valid.locks.queued l t asleep).1
    rw [ready] at blocked
    cases blocked
  · exact owned

end Nachos.Kernel
