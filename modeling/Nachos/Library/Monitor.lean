import Mathlib.Logic.Function.Basic
import Mathlib.Logic.Relation

-- Programs of threads that share a state through locks and condition variables.
-- One step of a thread is its code up to and including its next operation; what
-- it may do with the locks it holds is read off the program alone.
namespace Monitor

inductive Op (L C : Type) where
  | acquire (lock : L)
  | release (lock : L)
  | wait (condition : C) (lock : L)
  | signal (condition : C) (lock : L)
  | skip
  | stop
  deriving DecidableEq, Repr

-- Where the last operation left the thread.
inductive Site (L C : Type) where
  | free
  | entering (lock : L)
  | sleeping (condition : C)
  | ended
  deriving DecidableEq, Repr

-- Operations and places of code written for one lock and one condition, at others.
def Op.placed (l : L) (c : C) : Op Unit Unit → Op L C
  | .acquire _ => .acquire l
  | .release _ => .release l
  | .wait _ _ => .wait c l
  | .signal _ _ => .signal c l
  | .skip => .skip
  | .stop => .stop

def Site.placed (l : L) (c : C) : Site Unit Unit → Site L C
  | .free => .free
  | .entering _ => .entering l
  | .sleeping _ => .sleeping c
  | .ended => .ended

structure Program (T L C S I E F : Type) where
  exec : T → S → I → Except F (S × Op L C × List E)
  initial : S
  lockOf : C → L
  held : S → T → List L
  site : S → T → Site L C

-- What a history keeps of one step: who, which operation, whom it woke, and
-- what the code reported. Histories are newest first.
structure Entry (T L C E : Type) where
  thread : T
  op : Op L C
  woken : Option T
  events : List E

-- The lock a thread has to get before it returns to its own code.
def Site.needs (lockOf : C → L) : Site L C → Option L
  | .entering l => some l
  | .sleeping c => some (lockOf c)
  | .free | .ended => none

-- A computation that succeeds did so at each of its steps.
theorem bind_ok {value : Except F α} {next : α → Except F β} {result : β} (ran : value >>= next = .ok result) :
    ∃ produced, value = .ok produced ∧ next produced = .ok result := by
  cases value with
  | error => cases ran
  | ok produced => exact ⟨produced,rfl,ran⟩

namespace Program

-- At this point of its code the thread owns the lock, whatever the others do.
def Active (P : Program T L C S I E F) (s : S) (t : T) (l : L) : Prop :=
  l ∈ P.held s t ∧ (P.site s t).needs P.lockOf ≠ some l

-- The operation agrees with the locks the program says the thread holds.
inductive Follows (lockOf : C → L) (held held' : List L) (site' : Site L C) : Op L C → Prop where
  | acquire : l ∉ held → (∀ m, m ∈ held' ↔ m = l ∨ m ∈ held) → site' = .entering l →
      Follows lockOf held held' site' (.acquire l)
  | release : l ∈ held → (∀ m, m ∈ held' ↔ m ≠ l ∧ m ∈ held) → site' = .free →
      Follows lockOf held held' site' (.release l)
  | wait : lockOf c = l → l ∈ held → held' = held → site' = .sleeping c →
      Follows lockOf held held' site' (.wait c l)
  | signal : lockOf c = l → l ∈ held → held' = held → site' = .free →
      Follows lockOf held held' site' (.signal c l)
  | skip : held' = held → site' = .free → Follows lockOf held held' site' .skip
  | stop : held = [] → held' = [] → site' = .ended → Follows lockOf held held' site' .stop

-- Code written for one lock and one condition agrees with them wherever it is used.
theorem Follows.placed {held held' : List Unit} {site' : Site Unit Unit} {op : Op Unit Unit} {lockOf : C → L}
    (follows : Follows (fun _ => ()) held held' site' op) (bound : lockOf c = l) :
    Follows lockOf (held.map fun _ => l) (held'.map fun _ => l) (site'.placed l c) (op.placed l c) := by
  have some_ : ∀ {units : List Unit} {m : L}, m ∈ (units.map fun _ => l) ↔ m = l ∧ () ∈ units := by
    intro units m
    simp only [List.mem_map]
    constructor
    · rintro ⟨_,member,rfl⟩
      exact ⟨rfl,member⟩
    · rintro ⟨rfl,member⟩
      exact ⟨_,member,rfl⟩
  cases follows with
  | acquire lacks holds site =>
    refine .acquire ?_ ?_ (by rw [site]; rfl)
    · exact fun member => lacks (some_.mp member).2
    · intro m
      simp only [some_,holds ()]
      constructor
      · exact fun now => .inl now.1
      · rintro (rfl | ⟨rfl,_⟩) <;> exact ⟨rfl,.inl trivial⟩
  | release has holds site =>
    refine .release (some_.mpr ⟨rfl,has⟩) ?_ (by rw [site]; rfl)
    intro m
    simp only [some_,holds ()]
    constructor
    · rintro ⟨_,away,_⟩
      exact absurd rfl away
    · rintro ⟨away,same,_⟩
      exact absurd same away
  | wait _ has same site => exact .wait bound (some_.mpr ⟨rfl,has⟩) (by rw [same]) (by rw [site]; rfl)
  | signal _ has same site => exact .signal bound (some_.mpr ⟨rfl,has⟩) (by rw [same]) (by rw [site]; rfl)
  | skip same site => exact .skip (by rw [same]) (by rw [site]; rfl)
  | stop none_ same site => exact .stop (by simp [none_]) (by simp [same]) (by rw [site]; rfl)

structure Disciplined (P : Program T L C S I E F) : Prop where
  start : ∀ t, P.held P.initial t = [] ∧ P.site P.initial t = .free
  frame : ∀ {t s input s' op events u}, P.exec t s input = .ok (s',op,events) → u ≠ t →
    P.held s' u = P.held s u ∧ P.site s' u = P.site s u
  follows : ∀ {t s input s' op events}, P.exec t s input = .ok (s',op,events) → P.site s t ≠ .ended →
    Follows P.lockOf (P.held s t) (P.held s' t) (P.site s' t) op

-- A thread runs its own code only if no other thread owns a lock it holds there.
structure Ready (P : Program T L C S I E F) (s : S) (asleep : T → Bool) (t : T) : Prop where
  awake : asleep t = false
  going : P.site s t ≠ .ended
  alone : ∀ l ∈ P.held s t, ∀ u, u ≠ t → ¬P.Active s u l

-- Who sleeps on a condition after the operation, and whom it woke.
inductive Sleeps [DecidableEq T] (P : Program T L C S I E F) (s : S) (t : T) (asleep : T → Bool) :
    Op L C → Option T → (T → Bool) → Prop where
  | acquire : Sleeps P s t asleep (.acquire l) none asleep
  | release : Sleeps P s t asleep (.release l) none asleep
  | wait : Sleeps P s t asleep (.wait c l) none (Function.update asleep t true)
  | wakes : asleep u = true → P.site s u = .sleeping c →
      Sleeps P s t asleep (.signal c l) (some u) (Function.update asleep u false)
  | unheard : (∀ u, asleep u = true → P.site s u ≠ .sleeping c) → Sleeps P s t asleep (.signal c l) none asleep
  | skip : Sleeps P s t asleep .skip none asleep
  | stop : Sleeps P s t asleep .stop none asleep

inductive Runs [DecidableEq T] (P : Program T L C S I E F) : List (Entry T L C E) → (T → Bool) → S → Prop where
  | initial : Runs P [] (fun _ => false) P.initial
  | step : Runs P history asleep s → P.Ready s asleep t → P.exec t s input = .ok (s',op,events) →
      P.Sleeps s t asleep op woken asleep' → Runs P (⟨t,op,woken,events⟩ :: history) asleep' s'

variable {P : Program T L C S I E F}

theorem runs_asleep [DecidableEq T] (disciplined : P.Disciplined) (path : P.Runs history asleep s) :
    ∀ t, asleep t = true → ∃ c, P.site s t = .sleeping c := by
  induction path with
  | initial => simp
  | @step history asleep s t₀ input s' op events woken asleep' prior ready stepped sleeps ih =>
    intro t sleeping
    by_cases self : t = t₀
    · subst self
      cases disciplined.follows stepped ready.going with
      | wait _ _ _ site => exact ⟨_,site⟩
      | acquire | release | skip | stop => cases sleeps; simp [ready.awake] at sleeping
      | signal =>
        cases sleeps with
        | @wakes u c l sleeps site =>
          have differs : t ≠ u := by rintro rfl; simp [ready.awake] at sleeps
          simp [differs,ready.awake] at sleeping
        | unheard => simp [ready.awake] at sleeping
    · have before : asleep t = true := by
        cases sleeps with
        | wait => simpa [self] using sleeping
        | @wakes u c l sleeps site =>
          by_cases same : t = u
          · subst same; exact sleeps
          · simpa [same] using sleeping
        | acquire | release | unheard | skip | stop => exact sleeping
      obtain ⟨c,site⟩ := ih t before
      exact ⟨c,(disciplined.frame stepped self).2.trans site⟩

-- Every entry of a history was a step from what came before it.
theorem runs_split [DecidableEq T] (path : P.Runs (newer ++ ⟨t,op,woken,events⟩ :: older) asleep s) :
    ∃ before s₀ input s₁ after, P.Runs older before s₀ ∧ P.Ready s₀ before t ∧
      P.exec t s₀ input = .ok (s₁,op,events) ∧ P.Sleeps s₀ t before op woken after := by
  induction newer generalizing asleep s with
  | nil =>
    cases path with
    | step prior ready executed sleeps => exact ⟨_,_,_,_,_,prior,ready,executed,sleeps⟩
  | cons first newer ih =>
    cases path with
    | step prior => exact ih prior

-- A thread that has to get a lock holds only locks of a lower rank.
def Ordered (P : Program T L C S I E F) (rank : L → Nat) : Prop :=
  ∀ s t l m, (P.site s t).needs P.lockOf = some l → m ∈ P.held s t → m ≠ l → rank m < rank l

end Program
end Monitor
