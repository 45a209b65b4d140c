import Nachos.Machine
import Nachos.Library.Turnstile

-- The list of synchlist.cc: a List behind a lock, with a condition for the threads
-- that find it empty. NULL is no item, so every `Item` is one the callers may append.
namespace Nachos.SynchList
open Monitor Tally Turnstile

-- Where a thread is: outside, or inside Append or Remove after the named step.
inductive Pc (Item : Type) where
  | outside
  | appending (item : Item)
  | appended
  | signalled
  | removing
  | waiting
  | removed (item : Item)
  | ended
  deriving DecidableEq, Repr

inductive Request (Item : Type) where
  | append (item : Item)
  | remove
  | finish
  deriving DecidableEq, Repr

-- The steps list->Append and list->Remove, and the return of a Remove.
inductive Event (Item : Type) where
  | appended (item : Item)
  | removed (item : Item)
  | returned (item : Item)
  deriving DecidableEq, Repr

-- ASSERT(item != NULL)
inductive Fault where
  | nullItem
  deriving DecidableEq, Repr

structure State (T Item : Type) where
  list : List Item
  pc : T → Pc Item

-- One thread's code up to its next operation. Nothing between the test of the
-- loop and list->Remove lets an interrupt in.
def advance (list : List Item) (request : Request Item) :
    Pc Item → Except Fault (List Item × Pc Item × Op Unit Unit × List (Event Item))
  | .outside => match request with
    | .append item => .ok (list,.appending item,.acquire (),[])
    | .remove => .ok (list,.removing,.acquire (),[])
    | .finish => .ok (list,.ended,.stop,[])
  | .appending item => .ok (list ++ [item],.appended,.skip,[.appended item])
  | .appended => .ok (list,.signalled,.signal () (),[])
  | .signalled => .ok (list,.outside,.release (),[])
  | .removing | .waiting =>
    if list.isEmpty then .ok (list,.waiting,.wait () (),[])
    else match list with
      | [] => .error .nullItem
      | item :: rest => .ok (rest,.removed item,.skip,[.removed item])
  | .removed item => .ok (list,.outside,.release (),[.returned item])
  | .ended => .ok (list,.ended,.stop,[])

def Pc.held : Pc Item → List Unit
  | .outside | .ended => []
  | .appending _ | .appended | .signalled | .removing | .waiting | .removed _ => [()]

def Pc.site : Pc Item → Site Unit Unit
  | .appending _ | .removing => .entering ()
  | .waiting => .sleeping ()
  | .ended => .ended
  | .outside | .appended | .signalled | .removed _ => .free

variable [DecidableEq T]

def program (T Item : Type) [DecidableEq T] : Program T Unit Unit (State T Item) (Request Item) (Event Item) Fault where
  exec t s request := do
    let (list,pc,op,events) ← advance s.list request (s.pc t)
    .ok (⟨list,Function.update s.pc t pc⟩,op,events)
  initial := ⟨[],fun _ => .outside⟩
  lockOf _ := ()
  held s t := (s.pc t).held
  site s t := (s.pc t).site

-- What a step can do.
inductive Changes (s : State T Item) (t : T) : State T Item → Op Unit Unit → List (Event Item) → Prop where
  | calls : s.pc t = .outside → (∃ item, pc = .appending item) ∨ pc = .removing →
      Changes s t {s with pc := Function.update s.pc t pc} (.acquire ()) []
  | ends : s.pc t = .outside ∨ s.pc t = .ended → Changes s t {s with pc := Function.update s.pc t .ended} .stop []
  | appends : s.pc t = .appending item →
      Changes s t ⟨s.list ++ [item],Function.update s.pc t .appended⟩ .skip [.appended item]
  | signals : s.pc t = .appended → Changes s t {s with pc := Function.update s.pc t .signalled} (.signal () ()) []
  | leaves : s.pc t = .signalled → Changes s t {s with pc := Function.update s.pc t .outside} (.release ()) []
  | waits : s.pc t = .removing ∨ s.pc t = .waiting → s.list = [] →
      Changes s t {s with pc := Function.update s.pc t .waiting} (.wait () ()) []
  | removes : s.pc t = .removing ∨ s.pc t = .waiting → s.list = item :: rest →
      Changes s t ⟨rest,Function.update s.pc t (.removed item)⟩ .skip [.removed item]
  | returns : s.pc t = .removed item →
      Changes s t {s with pc := Function.update s.pc t .outside} (.release ()) [.returned item]

theorem advance_total (list : List Item) (request : Request Item) (pc : Pc Item) :
    ∃ result, advance list request pc = .ok result := by
  cases pc with
  | outside => cases request <;> exact ⟨_,rfl⟩
  | removing | waiting => cases list <;> exact ⟨_,rfl⟩
  | appending | appended | signalled | removed | ended => exact ⟨_,rfl⟩

theorem exec_changes {s s' : State T Item} (executed : (program T Item).exec t s request = .ok (s',op,events)) :
    Changes s t s' op events := by
  obtain ⟨⟨list,pc,op',events'⟩,advanced⟩ := advance_total s.list request (s.pc t)
  simp only [program,advanced] at executed
  cases executed
  cases place : s.pc t with
  | outside =>
    rw [place] at advanced
    cases request with
    | append item =>
      cases advanced
      exact .calls place (.inl ⟨item,rfl⟩)
    | remove =>
      cases advanced
      exact .calls place (.inr rfl)
    | finish =>
      cases advanced
      exact .ends (.inl place)
  | appending item =>
    rw [place] at advanced
    cases advanced
    exact .appends place
  | appended =>
    rw [place] at advanced
    cases advanced
    exact .signals place
  | signalled =>
    rw [place] at advanced
    cases advanced
    exact .leaves place
  | removed item =>
    rw [place] at advanced
    cases advanced
    exact .returns place
  | ended =>
    rw [place] at advanced
    cases advanced
    exact .ends (.inr place)
  | removing | waiting =>
    rw [place] at advanced
    cases found : s.list with
    | nil =>
      simp only [advance,found,List.isEmpty_nil,if_true] at advanced
      cases advanced
      rw [← found]
      exact .waits (by simp [place]) found
    | cons item rest =>
      simp only [advance,found,List.isEmpty_cons] at advanced
      cases advanced
      exact .removes (by simp [place]) found

theorem disciplined (T Item : Type) [DecidableEq T] : (program T Item).Disciplined := by
  refine ⟨?_,?_,?_⟩
  · exact fun t => ⟨rfl,rfl⟩
  · intro t s request s' op events u executed other
    cases exec_changes executed <;> simp [program,other]
  · intro t s request s' op events executed going
    cases exec_changes executed with
    | calls place kind =>
      refine .acquire ?_ ?_ ?_
      · simp [program,place,Pc.held]
      · rcases kind with ⟨item,rfl⟩ | rfl <;> simp [program,Pc.held]
      · rcases kind with ⟨item,rfl⟩ | rfl <;> simp [program,Pc.site]
    | ends place =>
      have out : s.pc t = .outside := place.resolve_right fun done => going (by simp [program,done,Pc.site])
      exact .stop (by simp [program,out,Pc.held]) (by simp [program,Pc.held]) (by simp [program,Pc.site])
    | appends place => exact .skip (by simp [program,place,Pc.held]) (by simp [program,Pc.site])
    | signals place =>
      exact .signal rfl (by simp [program,place,Pc.held]) (by simp [program,place,Pc.held]) (by simp [program,Pc.site])
    | leaves place | returns place =>
      exact .release (by simp [program,place,Pc.held]) (by simp [program,Pc.held]) (by simp [program,Pc.site])
    | waits place empty =>
      refine .wait rfl ?_ ?_ (by simp [program,Pc.site])
      · rcases place with place | place <;> simp [program,place,Pc.held]
      · rcases place with place | place <;> simp [program,place,Pc.held]
    | removes place found =>
      refine .skip ?_ (by simp [program,Pc.site])
      rcases place with place | place <;> simp [program,place,Pc.held]

-- The same of the code alone, for those that run it on a list of their own.
theorem advance_follows {list list' : List Item} (advanced : advance list request pc = .ok (list',pc',op,events))
    (going : pc.site ≠ .ended) : Program.Follows (fun _ => ()) pc.held pc'.held pc'.site op := by
  have executed : (program Unit Item).exec () ⟨list,fun _ => pc⟩ request =
      .ok (⟨list',Function.update (fun _ => pc) () pc'⟩,op,events) := by
    simp only [program,advanced]
    rfl
  simpa [program] using (disciplined Unit Item).follows executed going

-- The items that passed one kind of step, oldest first.
def passed (kind : Event Item → Option Item) (history : List (Entry T Unit Unit (Event Item))) : List Item :=
  history.reverse.flatMap fun entry => entry.events.filterMap kind

def itemsAppended (history : List (Entry T Unit Unit (Event Item))) : List Item :=
  passed (fun | .appended item => some item | _ => none) history

def itemsRemoved (history : List (Entry T Unit Unit (Event Item))) : List Item :=
  passed (fun | .removed item => some item | _ => none) history

def itemsReturned (history : List (Entry T Unit Unit (Event Item))) : List Item :=
  passed (fun | .returned item => some item | _ => none) history

omit [DecidableEq T] in
theorem passed_cons (kind : Event Item → Option Item) (entry : Entry T Unit Unit (Event Item))
    (history : List (Entry T Unit Unit (Event Item))) :
    passed kind (entry :: history) = passed kind history ++ entry.events.filterMap kind := by
  simp [passed]

def Pc.waits : Pc Item → Bool
  | .waiting => true
  | _ => false

-- The item is on the list and the Signal is still to come.
def Pc.owes : Pc Item → Bool
  | .appended => true
  | _ => false

-- Asleep in Remove, signalled there and not back at the test, or not waiting.
def waiting (s : State T Item) (asleep : T → Bool) (t : T) : Option Bool :=
  if (s.pc t).waits then some (asleep t) else none

variable [Fintype T]

def owed (s : State T Item) : Nat := tally fun t => (s.pc t).owes

-- What a run keeps: the list is what was appended and not removed, a removed item
-- is returned before the next is removed, and no sleeper is left beside an item.
structure Kept (history : List (Entry T Unit Unit (Event Item))) (asleep : T → Bool) (s : State T Item) : Prop where
  list : itemsAppended history = itemsRemoved history ++ s.list
  carried : ∀ t item, s.pc t = .removed item → itemsRemoved history = itemsReturned history ++ [item]
  settled : (∀ t item, s.pc t ≠ .removed item) → itemsRemoved history = itemsReturned history
  enough : Enough (s.list.length - owed s) (waiting s asleep)

section
variable {s : State T Item} {asleep : T → Bool} {history : List (Entry T Unit Unit (Event Item))}

theorem initial_kept : Kept ([] : List (Entry T Unit Unit (Event Item))) (fun _ => false) (program T Item).initial := by
  refine ⟨rfl,?_,?_,?_⟩
  · simp [program]
  · exact fun _ => rfl
  · exact .none_left _ (by simp [program])

theorem owed_moves (s : State T Item) (list : List Item) (t : T) (pc : Pc Item) :
    owed ⟨list,Function.update s.pc t pc⟩ + (if (s.pc t).owes then 1 else 0) = owed s + (if pc.owes then 1 else 0) :=
  tally_update s.pc Pc.owes t pc

omit [Fintype T] in
theorem waiting_moves (s : State T Item) (list : List Item) (asleep : T → Bool) (t : T) (pc : Pc Item) :
    waiting ⟨list,Function.update s.pc t pc⟩ asleep =
      Function.update (waiting s asleep) t (if pc.waits then some (asleep t) else none) := by
  funext u
  by_cases same : u = t
  · subst same; simp [waiting]
  · simp [waiting,same]

-- A thread that does not carry an item before or after the step.
theorem Kept.carries (kept : Kept history asleep s) (t : T) (pc : Pc Item) (entry : Entry T Unit Unit (Event Item))
    (was : ∀ item, s.pc t ≠ .removed item) (now : ∀ item, pc ≠ .removed item)
    (removed : itemsRemoved (entry :: history) = itemsRemoved history)
    (returned : itemsReturned (entry :: history) = itemsReturned history) :
    (∀ u item, Function.update s.pc t pc u = .removed item →
      itemsRemoved (entry :: history) = itemsReturned (entry :: history) ++ [item]) ∧
    ((∀ u item, Function.update s.pc t pc u ≠ .removed item) →
      itemsRemoved (entry :: history) = itemsReturned (entry :: history)) := by
  rw [removed,returned]
  constructor
  · intro u item place
    have other : u ≠ t := by rintro rfl; simp [now] at place
    exact kept.carried u item (by simpa [other] using place)
  · intro nobody
    refine kept.settled ?_
    intro u item
    by_cases same : u = t
    · subst same; exact was item
    · simpa [same] using nobody u item

-- A step that only moves the thread, away from no sleep and no debt.
theorem Kept.moves (kept : Kept history asleep s) (t : T) (pc : Pc Item) (op : Op Unit Unit)
    (from_ : (s.pc t).waits = false ∧ (s.pc t).owes = false ∧ ∀ item, s.pc t ≠ .removed item)
    (to_ : pc.waits = false ∧ pc.owes = false ∧ ∀ item, pc ≠ .removed item) :
    Kept (⟨t,op,none,[]⟩ :: history) asleep {s with pc := Function.update s.pc t pc} := by
  have carries := kept.carries t pc ⟨t,op,none,[]⟩ from_.2.2 to_.2.2 (by simp [itemsRemoved,passed_cons])
    (by simp [itemsReturned,passed_cons])
  obtain ⟨books,_,_,enough⟩ := kept
  have debt := owed_moves s s.list t pc
  simp only [from_.2.1,to_.2.1] at debt
  refine ⟨?_,carries.1,carries.2,?_⟩
  · simpa [itemsAppended,itemsRemoved,passed_cons] using books
  · rw [waiting_moves,to_.1]
    dsimp only
    have none_ : waiting s asleep t = none := by simp [waiting,from_.1]
    have same : owed (⟨s.list,Function.update s.pc t pc⟩ : State T Item) = owed s := by simpa using debt
    rw [same]
    exact enough.moves none_

-- The lock keeps the others from carrying an item or owing a Signal.
omit [Fintype T] in
theorem alone_carries (ready : (program T Item).Ready s asleep t) (holds : (s.pc t).held = [()]) (other : u ≠ t)
    (item : Item) : s.pc u ≠ .removed item := by
  intro place
  refine ready.alone () (by simp [program,holds]) u other ⟨?_,?_⟩
  · simp [program,place,Pc.held]
  · simp [program,place,Pc.site,Site.needs]

theorem appends_kept (kept : Kept history asleep s) (place : s.pc t = .appending item) :
    Kept (⟨t,.skip,none,[.appended item]⟩ :: history) asleep ⟨s.list ++ [item],Function.update s.pc t .appended⟩ := by
  have carries := kept.carries t .appended ⟨t,.skip,none,[.appended item]⟩ (by simp [place])
    (by simp) (by simp [itemsRemoved,passed_cons]) (by simp [itemsReturned,passed_cons])
  obtain ⟨books,_,_,enough⟩ := kept
  have debt := owed_moves s (s.list ++ [item]) t .appended
  simp only [place,Pc.owes] at debt
  refine ⟨?_,carries.1,carries.2,?_⟩
  · simp only [itemsAppended,itemsRemoved,passed_cons] at books ⊢
    simp [books]
  · rw [waiting_moves]
    have none_ : waiting s asleep t = none := by simp [waiting,place,Pc.waits]
    have same : (((s.list ++ [item]).length : Int) -
        owed (⟨s.list ++ [item],Function.update s.pc t .appended⟩ : State T Item)) = s.list.length - owed s := by
      simp only [List.length_append,List.length_singleton]
      push_cast
      simp at debt
      omega
    rw [same]
    exact enough.moves none_

theorem Pc.site_waits {pc : Pc Item} : pc.site = .sleeping () ↔ pc.waits = true := by
  cases pc <;> simp [Pc.site,Pc.waits]

theorem signals_kept (kept : Kept history asleep s) (place : s.pc t = .appended)
    (sleeps : (program T Item).Sleeps s t asleep (.signal () ()) woken asleep') :
    Kept (⟨t,.signal () (),woken,[]⟩ :: history) asleep' {s with pc := Function.update s.pc t .signalled} := by
  have carries := kept.carries t .signalled ⟨t,.signal () (),woken,[]⟩ (by simp [place])
    (by simp) (by simp [itemsRemoved,passed_cons]) (by simp [itemsReturned,passed_cons])
  obtain ⟨books,_,_,enough⟩ := kept
  have debt := owed_moves s s.list t .signalled
  simp only [place,Pc.owes] at debt
  have count : ((s.list.length : Int) - owed (⟨s.list,Function.update s.pc t .signalled⟩ : State T Item)) =
      s.list.length - owed s + 1 := by
    simp at debt
    omega
  refine ⟨?_,carries.1,carries.2,?_⟩
  · simpa [itemsAppended,itemsRemoved,passed_cons] using books
  · rw [waiting_moves]
    dsimp only
    rw [count]
    have none_ : waiting s asleep t = none := by simp [waiting,place,Pc.waits]
    cases sleeps with
    | @wakes u c l asleep_ site =>
      have waits : (s.pc u).waits = true := Pc.site_waits.mp site
      have other : t ≠ u := by rintro rfl; simp [place,Pc.waits] at waits
      have woken : waiting s (Function.update asleep u false) = Function.update (waiting s asleep) u (some false) := by
        funext v
        by_cases same : v = u
        · subst same; simp [waiting,waits]
        · simp [waiting,same]
      rw [woken,Function.update_comm other.symm]
      have still : Function.update (waiting s asleep) t none = waiting s asleep :=
        Function.update_eq_self_iff.mpr none_.symm
      rw [if_neg (by simp [Pc.waits]),still]
      exact enough.wakes (by simp [waiting,waits,asleep_])
    | unheard nobody =>
      refine .unheard ?_
      intro u sleeping
      by_cases same : u = t
      · subst same; simp [Pc.waits] at sleeping
      · simp only [Function.update_of_ne same,waiting] at sleeping
        split at sleeping
        · rename_i waits
          exact nobody u (by simpa using sleeping) (Pc.site_waits.mpr waits)
        · cases sleeping

theorem waits_kept (kept : Kept history asleep s) (place : s.pc t = .removing ∨ s.pc t = .waiting) (empty : s.list = []) :
    Kept (⟨t,.wait () (),none,[]⟩ :: history) (Function.update asleep t true)
      {s with pc := Function.update s.pc t .waiting} := by
  have was : ∀ item, s.pc t ≠ .removed item := by
    rcases place with place | place <;> simp [place]
  have carries := kept.carries t .waiting ⟨t,.wait () (),none,[]⟩ was (by simp)
    (by simp [itemsRemoved,passed_cons]) (by simp [itemsReturned,passed_cons])
  refine ⟨?_,carries.1,carries.2,.none_left _ ?_⟩
  · simpa [itemsAppended,itemsRemoved,passed_cons] using kept.list
  · simp [empty]

theorem removes_kept (kept : Kept history asleep s) (ready : (program T Item).Ready s asleep t)
    (place : s.pc t = .removing ∨ s.pc t = .waiting) (found : s.list = item :: rest) :
    Kept (⟨t,.skip,none,[.removed item]⟩ :: history) asleep ⟨rest,Function.update s.pc t (.removed item)⟩ := by
  obtain ⟨books,carried,settled,enough⟩ := kept
  have holds : (s.pc t).held = [()] := by rcases place with place | place <;> simp [place,Pc.held]
  have owes : (s.pc t).owes = false := by rcases place with place | place <;> simp [place,Pc.owes]
  have debt := owed_moves s rest t (.removed item)
  rw [owes] at debt
  simp only [Pc.owes] at debt
  have none_ : ∀ u item, s.pc u ≠ .removed item := by
    intro u item
    by_cases same : u = t
    · subst same; rcases place with place | place <;> simp [place]
    · exact alone_carries ready holds same item
  refine ⟨?_,?_,?_,?_⟩
  · simp only [itemsAppended,itemsRemoved,passed_cons] at books ⊢
    simp [books,found]
  · intro u item' moved
    have same : u = t := by
      by_contra other
      exact none_ u item' (by simpa [other] using moved)
    subst same
    obtain rfl : item = item' := by simpa using moved
    have equal := settled none_
    simp only [itemsRemoved,itemsReturned,passed_cons] at equal ⊢
    simp [equal]
  · intro nobody
    exact absurd (by simp) (nobody t item)
  · rw [waiting_moves]
    have awake : waiting s asleep t ≠ some true := by simp [waiting,ready.awake]
    have count : ((rest.length : Int) - owed (⟨rest,Function.update s.pc t (.removed item)⟩ : State T Item)) =
        s.list.length - owed s - 1 := by
      simp only [found,List.length_cons]
      simp at debt
      push_cast
      omega
    rw [count]
    exact enough.takes awake

theorem returns_kept (kept : Kept history asleep s) (ready : (program T Item).Ready s asleep t)
    (place : s.pc t = .removed item) :
    Kept (⟨t,.release (),none,[.returned item]⟩ :: history) asleep {s with pc := Function.update s.pc t .outside} := by
  obtain ⟨books,carried,settled,enough⟩ := kept
  have debt := owed_moves s s.list t .outside
  simp only [place,Pc.owes] at debt
  have others : ∀ u item', Function.update s.pc t .outside u ≠ .removed item' := by
    intro u item'
    by_cases same : u = t
    · subst same; simp
    · simpa [same] using alone_carries ready (by simp [place,Pc.held]) same item'
  have before := carried t item place
  refine ⟨?_,?_,?_,?_⟩
  · simpa [itemsAppended,itemsRemoved,passed_cons] using books
  · intro u item' moved
    exact absurd moved (others u item')
  · intro _
    simp only [itemsRemoved,itemsReturned,passed_cons] at before ⊢
    simp [before]
  · rw [waiting_moves]
    have none_ : waiting s asleep t = none := by simp [waiting,place,Pc.waits]
    have same : owed (⟨s.list,Function.update s.pc t .outside⟩ : State T Item) = owed s := by simpa using debt
    dsimp only
    rw [same]
    exact enough.moves none_

theorem step_kept (kept : Kept history asleep s) (ready : (program T Item).Ready s asleep t)
    (changes : Changes s t s' op events) (sleeps : (program T Item).Sleeps s t asleep op woken asleep') :
    Kept (⟨t,op,woken,events⟩ :: history) asleep' s' := by
  cases changes with
  | @calls pc place kind =>
    cases sleeps
    refine kept.moves t pc _ (by simp [place,Pc.waits,Pc.owes]) ?_
    rcases kind with ⟨item,rfl⟩ | rfl <;> simp [Pc.waits,Pc.owes]
  | ends place =>
    cases sleeps
    refine kept.moves t .ended _ ?_ (by simp [Pc.waits,Pc.owes])
    rcases place with place | place <;> simp [place,Pc.waits,Pc.owes]
  | appends place =>
    cases sleeps
    exact appends_kept kept place
  | signals place => exact signals_kept kept place sleeps
  | leaves place =>
    cases sleeps
    exact kept.moves t .outside _ (by simp [place,Pc.waits,Pc.owes]) (by simp [Pc.waits,Pc.owes])
  | waits place empty =>
    cases sleeps
    exact waits_kept kept place empty
  | removes place found =>
    cases sleeps
    exact removes_kept kept ready place found
  | returns place =>
    cases sleeps
    exact returns_kept kept ready place

theorem runs_kept (path : (program T Item).Runs history asleep s) : Kept history asleep s := by
  induction path with
  | initial => exact initial_kept
  | step _ ready executed sleeps ih => exact step_kept ih ready (exec_changes executed) sleeps

omit [DecidableEq T] in
theorem returned_prefix (kept : Kept history asleep s) : itemsReturned history <+: itemsRemoved history := by
  by_cases nobody : ∀ t item, s.pc t ≠ .removed item
  · rw [kept.settled nobody]
  · simp only [not_forall,not_not] at nobody
    obtain ⟨t,item,place⟩ := nobody
    exact ⟨[item],(kept.carried t item place).symm⟩

-- The queue of listEmpty holds the threads asleep in Remove.
omit [Fintype T] in
theorem queue_waiting {m : Machine T Unit Unit (State T Item) (Event Item)}
    (reached : Machine.Reached (program T Item) m) (t : T) :
    t ∈ (m.kernel.condition ()).waitQueue ↔ waiting m.state (Machine.asleep m.kernel) t = some true := by
  obtain ⟨valid,coupled⟩ := Machine.reached_valid (disciplined T Item) reached
  constructor
  · intro queued
    have asleep := Machine.queued_asleep valid queued
    obtain ⟨_,l,place,_⟩ := valid.waits.queued () t queued
    have placed := coupled.place t
    simp only [place,Machine.Placed] at placed
    have waits : (m.state.pc t).waits = true := Pc.site_waits.mp placed.1
    simp [waiting,waits,asleep]
  · intro sleeping
    unfold waiting at sleeping
    split at sleeping
    · rename_i waits
      exact Machine.asleep_queued valid coupled (by simpa using sleeping) (Pc.site_waits.mpr waits)
    · cases sleeping

-- The list is a queue: what comes out is what went in, in order and once, never
-- NULL, and no remover sleeps beside an item that nobody is on the way to.
theorem synchList_fifo [DecidableEq Item] {m : Machine T Unit Unit (State T Item) (Event Item)}
    (reached : Machine.Reached (program T Item) m) :
    itemsReturned m.history <+: itemsRemoved m.history ∧ itemsRemoved m.history <+: itemsAppended m.history ∧
    (∀ item, (itemsReturned m.history).count item ≤ (itemsAppended m.history).count item) ∧
    (∀ t request fault, ¬Machine.Faults (program T Item) m t request fault) ∧
    ((∀ t, m.state.pc t ≠ .appended) → m.state.list ≠ [] → (m.kernel.condition ()).waitQueue ≠ [] →
      ∃ t, m.state.pc t = .waiting ∧ t ∉ (m.kernel.condition ()).waitQueue) := by
  have kept := runs_kept (Machine.reached_runs (disciplined T Item) reached)
  have returned := returned_prefix kept
  have removed : itemsRemoved m.history <+: itemsAppended m.history := ⟨_,kept.list.symm⟩
  refine ⟨returned,removed,?_,?_,?_⟩
  · intro item
    exact (returned.trans removed).sublist.count_le item
  · rintro t request fault ⟨_,_,failed⟩
    obtain ⟨⟨list,pc,op,events⟩,advanced⟩ := advance_total m.state.list request (m.state.pc t)
    simp only [program,advanced] at failed
    cases failed
  · intro quiet stocked queued
    obtain ⟨sleeper,member⟩ := List.exists_mem_of_ne_nil _ queued
    have bound := kept.enough ⟨sleeper,(queue_waiting reached sleeper).mp member⟩
    have clear : owed m.state = 0 := by
      refine tally_eq_zero.mpr ?_
      intro t
      cases pc : m.state.pc t <;> simp_all [Pc.owes]
    have some_ : 0 < m.state.list.length := List.length_pos_of_ne_nil stocked
    have woken : 0 < tally fun t => waiting m.state (Machine.asleep m.kernel) t = some false := by
      rw [clear] at bound
      omega
    obtain ⟨t,here⟩ := tally_pos.mp woken
    have here : waiting m.state (Machine.asleep m.kernel) t = some false := by simpa using here
    refine ⟨t,?_,?_⟩
    · unfold waiting at here
      split at here
      · rename_i waits
        cases pc : m.state.pc t <;> simp_all [Pc.waits]
      · cases here
    · intro present
      rw [queue_waiting reached,here] at present
      simp at present

-- Two removers sleep, then a third thread appends an item and wakes the first.
theorem synchList_fifo_woken : ∃ middle m : Machine (Fin 3) Unit Unit (State (Fin 3) Nat) (Event Nat),
    (Machine.initial (program (Fin 3) Nat)).dispatch (program (Fin 3) Nat) .remove [0,0,1,1] = some middle ∧
    middle.dispatch (program (Fin 3) Nat) (.append 7) [2,2,2,2] = some m ∧
    m.state.list = [7] ∧ (m.kernel.condition ()).waitQueue = [1] ∧
    ∃ t, m.state.pc t = .waiting ∧ t ∉ (m.kernel.condition ()).waitQueue := by
  have reached : ∀ middle m,
      (Machine.initial (program (Fin 3) Nat)).dispatch (program (Fin 3) Nat) .remove [0,0,1,1] = some middle →
      middle.dispatch (program (Fin 3) Nat) (.append 7) [2,2,2,2] = some m →
      Machine.Reached (program (Fin 3) Nat) m :=
    fun _ _ first second => Machine.dispatch_reached (Machine.dispatch_reached .initial first) second
  refine ⟨_,_,rfl,rfl,rfl,rfl,?_⟩
  exact (synchList_fifo (reached _ _ rfl rfl)).2.2.2.2 (by decide) (by decide) (by decide)

end
end Nachos.SynchList
