import Nachos.Machine

-- What keeps a BLOCKED thread, and where the owners of the locks lead when all of them are BLOCKED.
namespace Nachos.Machine
open Monitor

variable [DecidableEq T] [DecidableEq L] [DecidableEq C] {P : Program T L C S I E F} {k : Kernel T L C} {s : S}

omit [DecidableEq T] [DecidableEq L] [DecidableEq C] in
theorem queued_owned (valid : Kernel.Valid k) (queued : t ∈ (k.lock l).waitQueue) :
    ∃ u, (k.lock l).ownerThread = some u := by
  have busy := valid.locks.queueBusy l (List.ne_nil_of_mem queued)
  exact Option.ne_none_iff_exists'.mp ((valid.locks.busy l).mp busy)

-- In front of a lock that somebody owns, on the queue of a condition, or finished.
omit [DecidableEq T] [DecidableEq L] [DecidableEq C] in
theorem blocked_place (valid : Kernel.Valid k) (coupled : Coupled P k s) (blocked : k.status t = .BLOCKED) :
    (∃ l, (k.inside t).entering = some l ∧ ∃ u, (k.lock l).ownerThread = some u) ∨ asleep k t = true ∨
      P.site s t = .ended := by
  have placed := coupled.place t
  have entering : ∀ l, (k.inside t).entering = some l → ∃ u, (k.lock l).ownerThread = some u :=
    fun l place => queued_owned valid (blocked_queued valid place blocked)
  cases inside : k.inside t with
  | none => simp [valid.waits.awake t inside] at blocked
  | acquire l => exact Or.inl ⟨l,rfl,entering l (by rw [inside]; rfl)⟩
  | reacquire c l => exact Or.inl ⟨l,rfl,entering l (by rw [inside]; rfl)⟩
  | wait c l => exact Or.inr (Or.inl (place_asleep inside blocked))
  | broadcast => simp [inside,Placed] at placed
  | finished => exact Or.inr (Or.inr (by simpa [inside,Placed] using placed))

-- From owner to owner the rank of the lock goes up, so one owner is not in front of a lock itself.
omit [DecidableEq T] [DecidableEq L] [DecidableEq C] in
theorem owners_lead (ordered : P.Ordered rank) (valid : Kernel.Valid k) (coupled : Coupled P k s)
    (bounded : ∀ l, rank l ≤ highest) (blocked : ∀ l t, (k.lock l).ownerThread = some t → k.status t = .BLOCKED)
    (owned : (k.lock l).ownerThread = some t) :
    ∃ m u, rank l ≤ rank m ∧ (k.lock m).ownerThread = some u ∧ (asleep k u = true ∨ P.site s u = .ended) := by
  obtain ⟨left,measure⟩ : ∃ left, highest - rank l = left := ⟨_,rfl⟩
  induction left using Nat.strongRecOn generalizing l t with
  | ind left ih =>
    have stopped := blocked l t owned
    rcases blocked_place valid coupled stopped with ⟨m,entering,u,owner⟩ | rests
    · have higher := owner_rank ordered valid coupled owned entering stopped
      have bound := bounded m
      obtain ⟨m',u',rank',owner',rests⟩ := ih (highest - rank m) (by omega) owner rfl
      exact ⟨m',u',by omega,owner',rests⟩
    · exact ⟨l,t,Nat.le_refl _,owned,rests⟩

-- A sleeper does not own the lock it will come back with.
omit [DecidableEq T] [DecidableEq L] [DecidableEq C] in
theorem asleep_gaveUp (valid : Kernel.Valid k) (coupled : Coupled P k s) (sleeps : asleep k t = true)
    (owned : (k.lock l).ownerThread = some t) : ∃ c, P.site s t = .sleeping c ∧ P.lockOf c ≠ l := by
  obtain ⟨c,m,inside,_⟩ := asleep_place sleeps
  have placed := coupled.place t
  simp only [inside,Placed] at placed
  refine ⟨c,placed.1,?_⟩
  rintro rfl
  exact valid.locks.gaveUp c m t inside (placed.2.1 ▸ owned)

-- The thread runs its own code, and no other thread owns a lock or stands in front of one.
structure Alone (k : Kernel T L C) (t : T) : Prop where
  outside : k.inside t = .none
  queues : ∀ l, (k.lock l).waitQueue = []
  owners : ∀ l u, (k.lock l).ownerThread = some u → u = t

-- What it calls then returns at once, and nobody else notices a call that is no heard Signal.
theorem Alone.call (alone : Alone k t) (valid : Kernel.Valid k) (coupled : Coupled P k s)
    (follows : Program.Follows P.lockOf (P.held s t) held' site' op) (waits : ∀ c l, op ≠ .wait c l)
    (stops : op ≠ .stop) (unheard : ∀ c l, op = .signal c l → (k.condition c).waitQueue = []) :
    Alone (k.call t (callOf op)) t ∧ (k.call t (callOf op)).status = k.status ∧
      (k.call t (callOf op)).condition = k.condition := by
  obtain ⟨outside,queues,owners⟩ := alone
  cases follows with
  | @acquire l fresh =>
    have free : (k.lock l).ownerThread = none := by
      by_contra owned
      obtain ⟨u,owned⟩ := Option.ne_none_iff_exists'.mp owned
      obtain rfl := owners l u owned
      exact fresh (coupled.owns l u owned)
    rcases Kernel.acquire_cases k valid.locks t l (.acquire l) with ⟨held,_⟩ | ⟨_,_,result⟩ | ⟨owner,held,_⟩
    · simp [free] at held
    · rw [show k.call t (callOf (.acquire l)) = _ from result]
      refine ⟨⟨by simp,?_,?_⟩,rfl,rfl⟩
      · intro m
        by_cases same : m = l
        · subst same; simp
        · simpa [same] using queues m
      · intro m u owned
        by_cases same : m = l
        · subst same; simpa using owned.symm
        · exact owners m u (by simpa [same] using owned)
    · simp [free] at held
  | @release l held =>
    have owned : (k.lock l).ownerThread = some t := by
      rcases coupled.holds l t held with owned | ⟨c,place⟩ | queued
      · exact owned
      · simp [outside] at place
      · simp [queues l] at queued
    rcases Kernel.release_cases k valid.locks t l with ⟨other,_⟩ | ⟨next,rest,_,waiting,_⟩ | ⟨_,_,result⟩
    · exact absurd owned other
    · simp [queues l] at waiting
    · rw [show k.call t (callOf (.release l)) = _ from result]
      refine ⟨⟨outside,?_,?_⟩,rfl,rfl⟩
      · intro m
        by_cases same : m = l
        · subst same; simp [Lock.new]
        · simpa [same] using queues m
      · intro m u owned
        by_cases same : m = l
        · subst same; simp [Lock.new] at owned
        · exact owners m u (by simpa [same] using owned)
  | wait => exact absurd rfl (waits _ _)
  | @signal c l =>
    rw [show k.call t (callOf (.signal c l)) = k from Kernel.signal_unheard (unheard c l rfl)]
    exact ⟨⟨outside,queues,owners⟩,rfl,rfl⟩
  | skip => exact ⟨⟨outside,queues,owners⟩,rfl,rfl⟩
  | stop => exact absurd rfl stops

-- The thread has no step.
def Still (P : Program T L C S I E F) (m : Machine T L C S E) (t : T) : Prop :=
  (∀ input, m.step P (.exec t input) = none) ∧ m.step P (.resume t) = none

section
variable {m : Machine T L C S E}

-- Between its calls a thread is in none of them.
omit [DecidableEq T] [DecidableEq L] [DecidableEq C] in
theorem free_outside (coupled : Coupled P m.kernel m.state) (free : P.site m.state t = .free) : m.kernel.inside t = .none := by
  have placed := coupled.place t
  cases inside : m.kernel.inside t with
  | none => rfl
  | acquire | wait | reacquire | broadcast | finished => simp [inside,Placed,free] at placed

-- In its own code a thread that is READY has a step if the code has one.
theorem Still.outside (still : Still P m t) (valid : Kernel.Valid m.kernel) (inside : m.kernel.inside t = .none) (input : I) :
    ∃ fault, P.exec t m.state input = .error fault := by
  have ready := valid.waits.awake t inside
  have none_ := still.1 input
  simp only [step] at none_
  split at none_
  · rename_i fault failed
    exact ⟨fault,failed⟩
  · simp [Kernel.step,ready,inside] at none_

-- A thread whose code can go on has no step only before a lock that is owned, or asleep on
-- a condition.
theorem Still.blocked (still : Still P m t) (valid : Kernel.Valid m.kernel) (coupled : Coupled P m.kernel m.state)
    (going : P.site m.state t ≠ .ended) (input : I) (able : ∀ fault, P.exec t m.state input ≠ .error fault) :
    m.kernel.status t = .BLOCKED ∧ ((∃ l, (m.kernel.inside t).entering = some l ∧ ∃ u, (m.kernel.lock l).ownerThread = some u) ∨
      asleep m.kernel t = true) := by
  have away : m.kernel.inside t ≠ .none := by
    intro inside
    obtain ⟨fault,failed⟩ := still.outside valid inside input
    exact able fault failed
  have stopped : m.kernel.status t = .BLOCKED := by
    cases status : m.kernel.status t with
    | BLOCKED => rfl
    | READY =>
      have none_ := still.2
      have placed := coupled.place t
      cases inside : m.kernel.inside t with
      | none => exact absurd inside away
      | finished => exact absurd (by simpa [inside,Placed] using placed) going
      | broadcast => simp [inside,Placed] at placed
      | acquire | wait | reacquire => simp [step,Kernel.step,Kernel.resume,status,inside] at none_
  refine ⟨stopped,?_⟩
  rcases blocked_place valid coupled stopped with entering | sleeps | ended
  · exact .inl entering
  · exact .inr sleeps
  · exact absurd ended going

-- Nobody without a step owns a lock, if nobody holds two.
theorem Still.unowned (still : Still P m t) (valid : Kernel.Valid m.kernel) (coupled : Coupled P m.kernel m.state)
    (going : P.site m.state t ≠ .ended) (input : I) (able : ∀ fault, P.exec t m.state input ≠ .error fault)
    (one : ∀ l ∈ P.held m.state t, ∀ l' ∈ P.held m.state t, l = l') (l : L) : (m.kernel.lock l).ownerThread ≠ some t := by
  intro owned
  have holds := coupled.owns l t owned
  obtain ⟨stopped,⟨l',entering,_⟩ | sleeps⟩ := still.blocked valid coupled going input able
  · obtain rfl := one l holds l' (coupled.entering entering).2
    exact valid.locks.ownerOut l t owned (blocked_queued valid entering stopped)
  · obtain ⟨c,l',inside,_⟩ := asleep_place sleeps
    have placed := coupled.place t
    simp only [inside,Placed] at placed
    obtain rfl := one l holds l' placed.2.2
    exact valid.locks.gaveUp c l t inside owned

end

end Nachos.Machine
