import Nachos.Library.Monitor
import Nachos.KernelWaits

-- A program of threads on the kernel: a step is a thread's own code up to its
-- next call, with the call itself, or the kernel's part of a call that slept.
-- Preemption can happen only where interrupts go back on (Interrupt::SetLevel and
-- OneTick), that is at the end of a call, so nothing comes between.
namespace Nachos
open Monitor

-- The operations as calls; the program always passes a lock.
def callOf : Op L C → Call L C
  | .acquire l => .acquire l
  | .release l => .release l
  | .wait c l => .wait c (some l)
  | .signal c l => .signal c (some l)
  | .skip => .yield
  | .stop => .finish

structure Machine (T L C S E : Type) where
  kernel : Kernel T L C
  state : S
  history : List (Entry T L C E)

inductive Choice (T I : Type) where
  | exec (currentThread : T) (input : I)
  | resume (currentThread : T)
  deriving DecidableEq, Repr

namespace Machine
variable [DecidableEq T] [DecidableEq L] [DecidableEq C] {P : Program T L C S I E F}

def initial (P : Program T L C S I E F) : Machine T L C S E := ⟨.initial,P.initial,[]⟩

def woken (k : Kernel T L C) : Op L C → Option T
  | .signal c l => ((k.condition c).signal (some l)).2.1
  | _ => none

def step (P : Program T L C S I E F) (m : Machine T L C S E) : Choice T I → Option (Machine T L C S E)
  | .exec t input => match P.exec t m.state input with
    | .error _ => none
    | .ok (state,op,events) => do
      let kernel ← m.kernel.step (.call t (callOf op))
      some ⟨kernel,state,⟨t,op,woken m.kernel op,events⟩ :: m.history⟩
  | .resume t => do
    let kernel ← m.kernel.step (.resume t)
    some {m with kernel}

-- A schedule is the list of the threads as they get the CPU; each goes on where it is.
def dispatch (P : Program T L C S I E F) (input : I) (m : Machine T L C S E) : List T → Option (Machine T L C S E)
  | [] => some m
  | t :: later => do
    let after ← m.step P (if m.kernel.inside t = .none then .exec t input else .resume t)
    after.dispatch P input later

-- A schedule that also says with which input each thread goes on.
def follow (P : Program T L C S I E F) (m : Machine T L C S E) : List (Choice T I) → Option (Machine T L C S E)
  | [] => some m
  | choice :: later => do
    let after ← m.step P choice
    after.follow P later

-- The first of the threads that can go on gets the CPU, each time.
def prioritised (P : Program T L C S I E F) (input : I) (threads : List T) (m : Machine T L C S E) :
    Nat → Machine T L C S E
  | 0 => m
  | steps + 1 => match threads.findSome? fun t => m.dispatch P input [t] with
    | none => m
    | some after => after.prioritised P input threads steps

-- The thread is about to run code of its own that fails.
def Faults (P : Program T L C S I E F) (m : Machine T L C S E) (t : T) (input : I) (fault : F) : Prop :=
  m.kernel.status t = .READY ∧ m.kernel.inside t = .none ∧ P.exec t m.state input = .error fault

inductive Reached (P : Program T L C S I E F) : Machine T L C S E → Prop where
  | initial : Reached P (initial P)
  | step : Reached P m → m.step P choice = some after → Reached P after

-- Reached by steps of which the code's own are all of the allowed kind.
inductive ReachedBy (P : Program T L C S I E F) (allowed : S → T → I → Prop) : Machine T L C S E → Prop where
  | initial : ReachedBy P allowed (initial P)
  | exec : ReachedBy P allowed m → allowed m.state t input → m.step P (.exec t input) = some after →
      ReachedBy P allowed after
  | resume : ReachedBy P allowed m → m.step P (.resume t) = some after → ReachedBy P allowed after

theorem dispatch_reached (reached : Reached P m) (ran : m.dispatch P input schedule = some after) :
    Reached P after := by
  induction schedule generalizing m with
  | nil =>
    cases Option.some.inj ran
    exact reached
  | cons t later ih =>
    simp only [dispatch,Option.bind_eq_bind,Option.bind_eq_some_iff] at ran
    obtain ⟨middle,stepped,rest⟩ := ran
    exact ih (reached.step stepped) rest

theorem follow_reached (schedule : List (Choice T I)) (reached : Reached P m) (ran : m.follow P schedule = some after) :
    Reached P after := by
  induction schedule generalizing m with
  | nil =>
    cases Option.some.inj ran
    exact reached
  | cons choice later ih =>
    simp only [follow,Option.bind_eq_bind,Option.bind_eq_some_iff] at ran
    obtain ⟨middle,stepped,rest⟩ := ran
    exact ih (reached.step stepped) rest

theorem prioritised_reached (reached : Reached P m) (threads : List T) (input : I) (steps : Nat) :
    Reached P (m.prioritised P input threads steps) := by
  induction steps generalizing m with
  | zero => exact reached
  | succ steps ih =>
    simp only [prioritised]
    split
    · exact reached
    · rename_i after found
      obtain ⟨t,_,ran⟩ := List.exists_of_findSome?_eq_some found
      exact ih (dispatch_reached reached ran)

-- What a step of the machine can do.
inductive Steps (P : Program T L C S I E F) (m : Machine T L C S E) : Machine T L C S E → Prop where
  | exec : P.exec t m.state input = .ok (s,op,events) → m.kernel.status t = .READY → m.kernel.inside t = .none →
      Steps P m ⟨m.kernel.call t (callOf op),s,⟨t,op,woken m.kernel op,events⟩ :: m.history⟩
  | resume : Kernel.Steps m.kernel (.resume t) k → Steps P m {m with kernel := k}

theorem step_sound {m : Machine T L C S E} (stepped : m.step P choice = some after) : Steps P m after := by
  cases choice with
  | exec t input =>
    simp only [step] at stepped
    split at stepped
    · cases stepped
    · rename_i state op events executed
      simp only [Option.bind_eq_bind,Option.bind_eq_some_iff,Option.some.injEq] at stepped
      obtain ⟨kernel,called,rfl⟩ := stepped
      cases Kernel.step_sound called with
      | call ready outside => exact .exec executed ready outside
  | resume t =>
    simp only [step,Option.bind_eq_bind,Option.bind_eq_some_iff,Option.some.injEq] at stepped
    obtain ⟨kernel,resumed,rfl⟩ := stepped
    exact .resume (Kernel.step_sound resumed)

-- The place in the kernel fits the last operation of the program.
def Placed (P : Program T L C S I E F) (s : S) (t : T) : Inside L C → Prop
  | .none => P.site s t ≠ .ended
  | .acquire l => P.site s t = .entering l ∧ l ∈ P.held s t
  | .wait c l | .reacquire c l => P.site s t = .sleeping c ∧ P.lockOf c = l ∧ l ∈ P.held s t
  | .broadcast _ _ => False
  | .finished => P.site s t = .ended

-- The thread sleeps, or is about to, until it gets the lock.
def Lacks (k : Kernel T L C) (t : T) (l : L) : Prop :=
  (∃ c, k.inside t = .wait c l) ∨ t ∈ (k.lock l).waitQueue

-- The locks the kernel gave out are the ones the program counts on.
structure Coupled (P : Program T L C S I E F) (k : Kernel T L C) (s : S) : Prop where
  owns : ∀ l t, (k.lock l).ownerThread = some t → l ∈ P.held s t
  holds : ∀ l t, l ∈ P.held s t → (k.lock l).ownerThread = some t ∨ Lacks k t l
  place : ∀ t, Placed P s t (k.inside t)

omit [DecidableEq T] [DecidableEq L] [DecidableEq C] in
theorem initial_coupled (disciplined : P.Disciplined) : Coupled P .initial P.initial := by
  refine ⟨?_,?_,?_⟩
  · simp [Kernel.initial,Lock.new]
  · intro l t held
    simp [(disciplined.start t).1] at held
  · intro t
    simp [Kernel.initial,Placed,(disciplined.start t).2]

section
variable {k : Kernel T L C} {s s' : S}

-- Other threads keep their places when the step leaves them alone.
omit [DecidableEq T] [DecidableEq L] [DecidableEq C] in
theorem placed_frame (disciplined : P.Disciplined) (executed : P.exec t s input = .ok (s',op,events))
    (coupled : Coupled P k s) (u : T) (other : u ≠ t) : Placed P s' u (k.inside u) := by
  have place := coupled.place u
  obtain ⟨held,site⟩ := disciplined.frame executed other
  cases inside : k.inside u with
  | broadcast => simp [inside,Placed] at place
  | none | acquire | wait | reacquire | finished => simpa [inside,Placed,site,held] using place

omit [DecidableEq T] [DecidableEq L] [DecidableEq C] in
theorem Coupled.entering (coupled : Coupled P k s) (place : (k.inside t).entering = some l) :
    (P.site s t).needs P.lockOf = some l ∧ l ∈ P.held s t := by
  have placed := coupled.place t
  cases inside : k.inside t with
  | acquire m =>
    obtain rfl : m = l := by simpa [inside,Inside.entering] using place
    simp only [inside,Placed] at placed
    exact ⟨by simp [placed.1,Site.needs],placed.2⟩
  | reacquire c m =>
    obtain rfl : m = l := by simpa [inside,Inside.entering] using place
    simp only [inside,Placed] at placed
    exact ⟨by simp [placed.1,placed.2.1,Site.needs],placed.2.2⟩
  | none | wait | broadcast | finished => simp [inside,Inside.entering] at place

-- One place changes; nothing else the coupling reads does.
omit [DecidableEq L] [DecidableEq C] in
theorem moved_coupled (place : Inside L C) (coupled : Coupled P k s) (after : Kernel T L C) (locks : after.lock = k.lock)
    (inside : after.inside = Function.update k.inside t place) (lacks : ∀ l, Lacks k t l → Lacks after t l)
    (held : ∀ u, P.held s' u = P.held s u) (places : ∀ u, u ≠ t → Placed P s' u (k.inside u))
    (here : Placed P s' t place) : Coupled P after s' := by
  obtain ⟨owns,holds,_⟩ := coupled
  refine ⟨?_,?_,?_⟩
  · intro l u owned
    rw [held]
    exact owns l u (by rw [← locks]; exact owned)
  · intro l u heldNow
    rw [held] at heldNow
    rw [locks]
    refine (holds l u heldNow).imp id ?_
    intro lack
    by_cases same : u = t
    · subst same; exact lacks l lack
    · simpa [Lacks,locks,inside,same] using lack
  · intro u
    rw [inside]
    by_cases same : u = t
    · subst same; simpa using here
    · simpa [same] using places u same

omit [DecidableEq C] in
theorem acquire_coupled (locks : Kernel.LockValid k) (coupled : Coupled P k s)
    (gains : ∀ u m, m ∈ P.held s' u ↔ (u = t ∧ m = l) ∨ m ∈ P.held s u) (lacks : ∀ m, ¬Lacks k t m ∨ m = l)
    (unowned : (k.lock l).ownerThread ≠ some t)
    (places : ∀ u, u ≠ t → Placed P s' u (k.inside u)) (here : Placed P s' t place) (back : P.site s' t ≠ .ended) :
    Coupled P (k.acquire t l place) s' := by
  obtain ⟨owns,holds,_⟩ := coupled
  simp only [Lacks] at holds lacks
  rcases Kernel.acquire_cases k locks t l place with ⟨held,result⟩ | ⟨_,empty,result⟩ | ⟨owner,held,differs,result⟩
  · exact absurd held unowned
  · rw [result]
    refine ⟨?_,?_,?_⟩
    · intro m u owned
      grind
    · intro m u held
      simp only [Lacks]
      grind
    · intro u
      by_cases same : u = t
      · subst same
        simpa [Placed] using back
      · simpa [same] using places u same
  · rw [result]
    refine ⟨?_,?_,?_⟩
    · intro m u owned
      simp only [Kernel.sleep] at owned
      grind
    · intro m u held
      simp only [Lacks,Kernel.sleep]
      grind
    · intro u
      by_cases same : u = t
      · subst same
        simpa [Kernel.sleep] using here
      · simpa [Kernel.sleep,same] using places u same

-- Release takes the lock from its owner and from nobody else.
omit [DecidableEq C] in
theorem release_owns (locks : Kernel.LockValid k) (coupled : Coupled P k s) (owned : (k.lock l).ownerThread = some t)
    (now : ((k.release t l).lock m).ownerThread = some u) : ¬(u = t ∧ m = l) ∧ m ∈ P.held s u := by
  have queued : ∀ m u, u ∈ (k.lock m).waitQueue → m ∈ P.held s u :=
    fun m u present => (coupled.entering (locks.queued m u present).2).2
  have ownerOut := locks.ownerOut
  have owns := coupled.owns
  rcases Kernel.release_cases k locks t l with ⟨other,_⟩ | ⟨next,rest,_,waiting,result⟩ | ⟨_,_,result⟩
  · exact absurd owned other
  · rw [result] at now
    grind
  · rw [result] at now
    grind [Lock.new]

omit [DecidableEq C] in
theorem release_holds (locks : Kernel.LockValid k) (coupled : Coupled P k s) (owned : (k.lock l).ownerThread = some t)
    (held : m ∈ P.held s u) (other : ¬(u = t ∧ m = l)) :
    ((k.release t l).lock m).ownerThread = some u ∨ Lacks (k.release t l) u m := by
  have holds := coupled.holds
  simp only [Lacks] at *
  rcases Kernel.release_cases k locks t l with ⟨differs,_⟩ | ⟨next,rest,_,waiting,result⟩ | ⟨_,_,result⟩
  · exact absurd owned differs
  · rw [result]
    grind
  · rw [result]
    grind [Lock.new]

omit [DecidableEq C] in
theorem release_coupled (locks : Kernel.LockValid k) (coupled : Coupled P k s)
    (loses : ∀ u m, m ∈ P.held s' u ↔ ¬(u = t ∧ m = l) ∧ m ∈ P.held s u)
    (owned : (k.lock l).ownerThread = some t) (places : ∀ u, Placed P s' u (k.inside u)) :
    Coupled P (k.release t l) s' := by
  refine ⟨?_,?_,by rw [(Kernel.release_frame locks t l).2.1]; exact places⟩
  · intro m u now
    exact (loses u m).mpr (release_owns locks coupled owned now)
  · intro m u held
    obtain ⟨other,held⟩ := (loses u m).mp held
    exact release_holds locks coupled owned held other

theorem wait_coupled (locks : Kernel.LockValid k) (coupled : Coupled P k s) (outside : k.inside t = .none)
    (match_ : (k.condition c).waitLock = none ∨ (k.condition c).waitLock = some l)
    (same : ∀ u, P.held s' u = P.held s u) (owned : (k.lock l).ownerThread = some t)
    (places : ∀ u, u ≠ t → Placed P s' u (k.inside u)) (here : Placed P s' t (.wait c l)) :
    Coupled P (k.wait t c (some l)) s' := by
  let enqueued : Kernel T L C :=
    {k with condition := Function.update k.condition c ⟨some l,(k.condition c).waitQueue ++ [t]⟩}
  have result : k.wait t c (some l) = (enqueued.release t l).sleep t (.wait c l) := by
    simp [Kernel.wait,Condition.wait_enqueued match_,enqueued]
  have locks : Kernel.LockValid enqueued :=
    ⟨locks.busy,locks.queueBusy,locks.nodup,locks.ownerOut,locks.queued,locks.entered,locks.gaveUp⟩
  have coupled : Coupled P enqueued s := ⟨coupled.owns,coupled.holds,coupled.place⟩
  have inside := (Kernel.release_frame locks t l).2.1
  rw [result]
  refine ⟨?_,?_,?_⟩
  · intro m u now
    rw [same]
    exact (release_owns locks coupled owned now).2
  · intro m u held
    rw [same] at held
    by_cases own : u = t ∧ m = l
    · obtain ⟨rfl,rfl⟩ := own
      exact Or.inr (Or.inl ⟨c,by simp [Kernel.sleep]⟩)
    · refine (release_holds locks coupled owned held own).imp id ?_
      rintro (⟨d,place⟩ | queued)
      · have differs : u ≠ t := by
          rintro rfl
          rw [inside] at place
          simp [enqueued,outside] at place
        exact Or.inl ⟨d,by simpa [Kernel.sleep,differs] using place⟩
      · exact Or.inr queued
  · intro u
    by_cases self : u = t
    · subst self
      simpa [Kernel.sleep] using here
    · simpa [Kernel.sleep,self,inside] using places u self

omit [DecidableEq T] [DecidableEq L] [DecidableEq C] in
theorem outside_lacks (valid : Kernel.Valid k) (ready : k.status t = .READY) (outside : k.inside t = .none) (l : L) :
    ¬Lacks k t l := by
  rintro (⟨c,place⟩ | queued)
  · simp [outside] at place
  · have blocked := (valid.locks.queued l t queued).1
    simp [ready] at blocked

-- The lock a condition is bound to is the one the program says.
omit [DecidableEq T] [DecidableEq L] [DecidableEq C] in
theorem bound_lock (valid : Kernel.Valid k) (coupled : Coupled P k s) :
    (k.condition c).waitLock = none ∨ (k.condition c).waitLock = some (P.lockOf c) := by
  cases queue : (k.condition c).waitQueue with
  | nil => exact Or.inl ((valid.waits.null c).mpr queue)
  | cons u rest =>
    obtain ⟨_,l,place,bound⟩ := valid.waits.queued c u (by simp [queue])
    have placed := coupled.place u
    simp only [place,Placed] at placed
    exact Or.inr (by rw [bound,placed.2.1])

theorem exec_coupled (disciplined : P.Disciplined) (valid : Kernel.Valid k) (coupled : Coupled P k s)
    (executed : P.exec t s input = .ok (s',op,events)) (ready : k.status t = .READY) (outside : k.inside t = .none) :
    Coupled P (k.call t (callOf op)) s' := by
  have going : P.site s t ≠ .ended := by simpa [outside,Placed] using coupled.place t
  have lacks := outside_lacks valid ready outside
  have owned : ∀ {l}, l ∈ P.held s t → (k.lock l).ownerThread = some t :=
    fun held => (coupled.holds _ t held).resolve_right (lacks _)
  have frame : ∀ u, u ≠ t → P.held s' u = P.held s u := fun u other => (disciplined.frame executed other).1
  have places := placed_frame disciplined executed coupled
  have still : ∀ {u}, P.held s' t = P.held s t → P.held s' u = P.held s u := by
    intro u same
    by_cases self : u = t
    · rw [self,same]
    · exact frame u self
  cases disciplined.follows executed going with
  | @acquire l fresh gains site =>
    refine acquire_coupled valid.locks coupled ?_ (fun m => Or.inl (lacks m)) (fun own => fresh (coupled.owns l t own))
      places ⟨site,(gains l).mpr (Or.inl rfl)⟩ (by simp [site])
    intro u m
    by_cases self : u = t
    · subst self; simpa using gains m
    · simp [frame u self,self]
  | @release l held loses site =>
    refine release_coupled valid.locks coupled ?_ (owned held) ?_
    · intro u m
      by_cases self : u = t
      · subst self; simpa using loses m
      · simp [frame u self,self]
    · intro u
      by_cases self : u = t
      · subst self; simp [outside,Placed,site]
      · exact places u self
  | @wait c l lock held same site =>
    refine wait_coupled valid.locks coupled outside (lock ▸ bound_lock valid coupled) (fun u => still same) (owned held)
      places ⟨site,lock,same ▸ held⟩
  | @signal c l lock held same site =>
    refine moved_coupled (t := t) .none coupled _ (Kernel.signal_frame k c _).1 ?_ (fun m lack => absurd lack (lacks m))
      (fun u => still same) places (by simp [Placed,site])
    rw [← outside,Function.update_eq_self]
    exact (Kernel.signal_frame k c _).2
  | skip same site =>
    refine moved_coupled (t := t) .none coupled _ rfl ?_ (fun m lack => absurd lack (lacks m))
      (fun u => still same) places (by simp [Placed,site])
    rw [← outside,Function.update_eq_self]
    rfl
  | stop none_ none' site =>
    exact moved_coupled (t := t) .finished coupled _ rfl rfl (fun m lack => absurd lack (lacks m))
      (fun u => still (none'.trans none_.symm)) places site

theorem resume_coupled (valid : Kernel.Valid k) (coupled : Coupled P k s) (steps : Kernel.Steps k (.resume t) after) :
    Coupled P after s := by
  have places : ∀ u, u ≠ t → Placed P s u (k.inside u) := fun u _ => coupled.place u
  cases steps with
  | @returns t l ready entering =>
    have owned := valid.handed ready entering
    refine moved_coupled (t := t) .none coupled _ rfl rfl ?_ (fun _ => rfl) places ?_
    · rintro m (⟨c,place⟩ | queued)
      · simp [place,Inside.entering] at entering
      · have blocked := (valid.locks.queued m t queued).1
        simp [ready] at blocked
    · have needs := (coupled.entering entering).1
      rintro ended
      simp [ended,Site.needs] at needs
  | @reacquires t c l ready place =>
    have placed := coupled.place t
    simp only [place,Placed] at placed
    refine acquire_coupled valid.locks coupled ?_ ?_ (valid.locks.gaveUp c l t place) places placed (by simp [placed.1])
    · intro u m
      constructor
      · exact Or.inr
      · rintro (⟨rfl,rfl⟩ | held)
        · exact placed.2.2
        · exact held
    · intro m
      by_cases same : m = l
      · exact Or.inr same
      · refine Or.inl ?_
        rintro (⟨d,place'⟩ | queued)
        · rw [place] at place'; simp_all
        · have blocked := (valid.locks.queued m t queued).1
          simp [ready] at blocked
  | @loops t c l ready place =>
    have placed := coupled.place t
    simp [place,Placed] at placed
end

theorem reached_valid (disciplined : P.Disciplined) (reached : Reached P m) :
    Kernel.Valid m.kernel ∧ Coupled P m.kernel m.state := by
  induction reached with
  | initial => exact ⟨Kernel.initial_valid,initial_coupled disciplined⟩
  | step prior stepped ih =>
    obtain ⟨valid,coupled⟩ := ih
    cases step_sound stepped with
    | exec executed ready outside =>
      exact ⟨Kernel.step_valid valid (.call ready outside),exec_coupled disciplined valid coupled executed ready outside⟩
    | resume resumed => exact ⟨Kernel.step_valid valid resumed,resume_coupled valid coupled resumed⟩

-- On the queue of a condition.
def asleep (k : Kernel T L C) (t : T) : Bool :=
  match k.phase t with
  | .queued _ => true
  | .out | .signalled _ => false

section
variable {k : Kernel T L C} {s s' : S}

omit [DecidableEq T] [DecidableEq L] [DecidableEq C] in
theorem asleep_place (asleep_ : asleep k t = true) : ∃ c l, k.inside t = .wait c l ∧ k.status t = .BLOCKED := by
  unfold asleep Kernel.phase at asleep_
  cases place : k.inside t with
  | wait c l => cases status : k.status t <;> simp_all
  | none | acquire | reacquire | broadcast | finished => simp [place] at asleep_

omit [DecidableEq T] [DecidableEq L] [DecidableEq C] in
theorem place_asleep (place : k.inside t = .wait c l) (blocked : k.status t = .BLOCKED) : asleep k t = true := by
  simp [asleep,Kernel.phase,place,blocked]

omit [DecidableEq T] [DecidableEq L] [DecidableEq C] in
theorem queued_asleep (valid : Kernel.Valid k) (queued : t ∈ (k.condition c).waitQueue) : asleep k t = true := by
  obtain ⟨blocked,l,place,_⟩ := valid.waits.queued c t queued
  exact place_asleep place blocked

-- Asleep is on the queue of the condition the program last waited for.
omit [DecidableEq T] [DecidableEq L] [DecidableEq C] in
theorem asleep_queued (valid : Kernel.Valid k) (coupled : Coupled P k s) (asleep_ : asleep k t = true)
    (site : P.site s t = .sleeping c) : t ∈ (k.condition c).waitQueue := by
  obtain ⟨d,l,place,blocked⟩ := asleep_place asleep_
  have placed := coupled.place t
  simp only [place,Placed,site,Site.sleeping.injEq] at placed
  obtain ⟨rfl,_⟩ := placed
  exact (valid.waits.waits c l t place).resolve_right (by simp [blocked])

omit [DecidableEq L] [DecidableEq C] in
theorem moves_asleep {new : List (Kernel.Event T L C)} {after : Kernel T L C}
    (moves : Kernel.Moves t (k.phase t) new (after.phase t))
    (quiet : ∀ c, .enqueued t c ∉ new ∧ ∀ u, .woken t c u ∉ new) : asleep after t = asleep k t := by
  unfold asleep
  generalize k.phase t = before at *
  generalize after.phase t = now at *
  cases moves with
  | stays _ same => rw [same]
  | @enqueued c => exact absurd (List.mem_singleton_self _) (quiet c).1
  | @woken c u => exact absurd (List.mem_singleton_self _) ((quiet c).2 u)
  | left => rfl

theorem step_asleep (valid : Kernel.Valid k) (steps : Kernel.Steps k action after)
    (quiet : ∀ t c, .enqueued t c ∉ k.events action ∧ ∀ u, .woken t c u ∉ k.events action) :
    asleep after = asleep k :=
  funext fun t => moves_asleep (Kernel.step_moves valid steps t) (quiet t)

omit [DecidableEq L] [DecidableEq C] in
theorem acquireEvents_quiet (k : Kernel T L C) (t : T) (l : L) (u : T) (c : C) :
    .enqueued u c ∉ k.acquireEvents t l ∧ ∀ v, .woken u c v ∉ k.acquireEvents t l := by
  rcases Kernel.acquireEvents_cases k t l with same | same <;> simp [same]

theorem signal_asleep (valid : Kernel.Valid k) (coupled : Coupled P k s) (lock : P.lockOf c = l)
    (ready : k.status t = .READY) (outside : k.inside t = .none) :
    P.Sleeps s t (asleep k) (.signal c l) (woken k (.signal c l)) (asleep (k.signal c (some l))) := by
  have steps : Kernel.Steps k (.call t (.signal c (some l))) (k.signal c (some l)) := .call ready outside
  cases queue : (k.condition c).waitQueue with
  | nil =>
    have unheard : woken k (.signal c l) = none := by simp [woken,Condition.signal_empty queue]
    have same : k.signal c (some l) = k := Kernel.signal_unheard queue
    rw [unheard,same]
    refine .unheard ?_
    intro u sleeps site
    have queued := asleep_queued valid coupled sleeps site
    simp [queue] at queued
  | cons next rest =>
    have bound : (k.condition c).waitLock = some l := by
      rcases bound_lock valid coupled (c := c) with empty | bound
      · simp [(valid.waits.null c).mp empty] at queue
      · rw [bound,lock]
    have wakes := Condition.signal_wakes queue bound
    have heard : woken k (.signal c l) = some next := by simp [woken,wakes]
    have queued : next ∈ (k.condition c).waitQueue := by simp [queue]
    obtain ⟨_,m,place,_⟩ := valid.waits.queued c next queued
    have placed := coupled.place next
    simp only [place,Placed] at placed
    have now : asleep (k.signal c (some l)) = Function.update (asleep k) next false := by
      funext u
      by_cases same : u = next
      · subst same
        have status := (Kernel.signal_woken valid queue bound).1
        simp [asleep,Kernel.phase,(Kernel.signal_frame k c _).2,place,status]
      · rw [Function.update_of_ne same]
        refine moves_asleep (Kernel.step_moves valid steps u) ?_
        simp [Kernel.events,Kernel.signalEvents,wakes,same]
    rw [heard,now]
    exact .wakes (queued_asleep valid queued) placed.1

theorem wait_asleep (valid : Kernel.Valid k) (coupled : Coupled P k s) (lock : P.lockOf c = l)
    (ready : k.status t = .READY) (outside : k.inside t = .none) :
    asleep (k.wait t c (some l)) = Function.update (asleep k) t true := by
  have steps : Kernel.Steps k (.call t (.wait c (some l))) (k.wait t c (some l)) := .call ready outside
  have enqueued := Condition.wait_enqueued (t := t) (lock ▸ bound_lock valid coupled (c := c))
  funext u
  by_cases same : u = t
  · subst same
    simp [asleep,Kernel.phase,Kernel.wait,enqueued,Kernel.sleep]
  · rw [Function.update_of_ne same]
    refine moves_asleep (Kernel.step_moves valid steps u) ?_
    simp [Kernel.events,Kernel.waitEvents,enqueued,same]

theorem exec_sleeps (disciplined : P.Disciplined) (valid : Kernel.Valid k) (coupled : Coupled P k s)
    (executed : P.exec t s input = .ok (s',op,events)) (ready : k.status t = .READY) (outside : k.inside t = .none) :
    P.Sleeps s t (asleep k) op (woken k op) (asleep (k.call t (callOf op))) := by
  have going : P.site s t ≠ .ended := by simpa [outside,Placed] using coupled.place t
  have steps : Kernel.Steps k (.call t (callOf op)) (k.call t (callOf op)) := .call ready outside
  have quiet := step_asleep valid steps
  cases disciplined.follows executed going with
  | @acquire l => rw [quiet (acquireEvents_quiet k t l)]; exact .acquire
  | release => rw [quiet (by simp [Kernel.events,callOf])]; exact .release
  | wait lock =>
    simp only [callOf,Kernel.call,wait_asleep valid coupled lock ready outside]
    exact .wait
  | signal lock => exact signal_asleep valid coupled lock ready outside
  | skip => rw [quiet (by simp [Kernel.events,callOf])]; exact .skip
  | stop => rw [quiet (by simp [Kernel.events,callOf])]; exact .stop

-- A thread that is past the call that gets the lock owns it.
omit [DecidableEq T] [DecidableEq L] [DecidableEq C] in
theorem active_owns (valid : Kernel.Valid k) (coupled : Coupled P k s) (active : P.Active s t l) :
    (k.lock l).ownerThread = some t := by
  obtain ⟨holds,needs⟩ := active
  rcases coupled.holds l t holds with own | ⟨c,place⟩ | queued
  · exact own
  · have placed := coupled.place t
    simp only [place,Placed] at placed
    exact absurd (by simp [placed.1,placed.2.1,Site.needs]) needs
  · exact absurd (coupled.entering (valid.locks.queued l t queued).2).1 needs

omit [DecidableEq T] [DecidableEq L] [DecidableEq C] in
theorem exec_ready (valid : Kernel.Valid k) (coupled : Coupled P k s) (ready : k.status t = .READY)
    (outside : k.inside t = .none) : P.Ready s (asleep k) t := by
  refine ⟨by simp [asleep,Kernel.phase,outside],by simpa [outside,Placed] using coupled.place t,?_⟩
  intro l held u other active
  have owned := (coupled.holds l t held).resolve_right (outside_lacks valid ready outside l)
  rw [active_owns valid coupled active] at owned
  exact other (Option.some.inj owned)

theorem resume_asleep (valid : Kernel.Valid k) (coupled : Coupled P k s) (steps : Kernel.Steps k (.resume t) after) :
    asleep after = asleep k := by
  refine step_asleep valid steps ?_
  intro u c
  cases steps with
  | returns ready entering => simp [Kernel.returns_events entering]
  | @reacquires t d l ready place => simpa [Kernel.events,place] using acquireEvents_quiet k t l u c
  | @loops t d l ready place =>
    have placed := coupled.place t
    simp [place,Placed] at placed
end

-- The machine refines the program: the kernel supplies what its rules assume.
theorem reached_runs (disciplined : P.Disciplined) (reached : Reached P m) :
    P.Runs m.history (asleep m.kernel) m.state := by
  induction reached with
  | initial =>
    have none_ : asleep (Kernel.initial : Kernel T L C) = fun _ => false := by
      funext t; simp [asleep,Kernel.phase,Kernel.initial]
    simp only [initial,none_]
    exact .initial
  | step prior stepped ih =>
    obtain ⟨valid,coupled⟩ := reached_valid disciplined prior
    cases step_sound stepped with
    | exec executed ready outside =>
      exact .step ih (exec_ready valid coupled ready outside) executed
        (exec_sleeps disciplined valid coupled executed ready outside)
    | resume resumed =>
      simp only [resume_asleep valid coupled resumed]
      exact ih

-- Blocked in an Acquire, direct or at the end of a Wait, of a lock that the other owns.
def WaitsFor (k : Kernel T L C) (t u : T) : Prop :=
  ∃ l, (k.inside t).entering = some l ∧ k.status t = .BLOCKED ∧ (k.lock l).ownerThread = some u

section
variable {k : Kernel T L C} {s : S}

omit [DecidableEq T] [DecidableEq L] [DecidableEq C] in
theorem blocked_queued (valid : Kernel.Valid k) (entering : (k.inside t).entering = some l)
    (blocked : k.status t = .BLOCKED) : t ∈ (k.lock l).waitQueue :=
  (valid.locks.entered l t entering).resolve_right (by simp [blocked])

-- The owner of one lock, blocked for another, is blocked for a lock of higher rank.
omit [DecidableEq T] [DecidableEq L] [DecidableEq C] in
theorem owner_rank (ordered : P.Ordered rank) (valid : Kernel.Valid k) (coupled : Coupled P k s)
    (owned : (k.lock l).ownerThread = some u) (entering : (k.inside u).entering = some m)
    (blocked : k.status u = .BLOCKED) : rank l < rank m := by
  refine ordered s u m l (coupled.entering entering).1 (coupled.owns l u owned) ?_
  rintro rfl
  exact valid.locks.ownerOut l u owned (blocked_queued valid entering blocked)

omit [DecidableEq T] [DecidableEq L] [DecidableEq C] in
theorem waits_rank (ordered : P.Ordered rank) (valid : Kernel.Valid k) (coupled : Coupled P k s)
    (path : Relation.TransGen (WaitsFor k) t u) (first : (k.inside t).entering = some l)
    (last : (k.inside u).entering = some m) (blocked : k.status u = .BLOCKED) : rank l < rank m := by
  induction path generalizing m with
  | single edge =>
    obtain ⟨l',entering,_,owned⟩ := edge
    obtain rfl : l' = l := Option.some.inj (entering.symm.trans first)
    exact owner_rank ordered valid coupled owned last blocked
  | tail _ edge ih =>
    obtain ⟨l',entering,blocked',owned⟩ := edge
    exact Nat.lt_trans (ih entering blocked') (owner_rank ordered valid coupled owned last blocked)

omit [DecidableEq T] [DecidableEq L] [DecidableEq C] in
theorem waits_acyclic (ordered : P.Ordered rank) (valid : Kernel.Valid k) (coupled : Coupled P k s) (t : T) :
    ¬Relation.TransGen (WaitsFor k) t t := by
  intro cycle
  obtain ⟨u,⟨l,entering,blocked,_⟩,_⟩ := Relation.TransGen.head'_iff.mp cycle
  exact absurd (waits_rank ordered valid coupled cycle entering entering blocked) (Nat.lt_irrefl _)
end

end Machine
end Nachos
