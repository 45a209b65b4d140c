import Nachos.Library.Agenda
import Nachos.Library.Chain
import Nachos.Library.Simulation
import Mathlib.Data.Finmap

-- The lists of list.cc as elements in memory with first, last and next pointers, and the
-- sequence they stand for.
namespace Nachos
open Simulation Chain

-- operator new: a place where nothing lives.
structure Allocator (σ : Type) where
  alloc : σ → Finset Nat → σ × Nat
  fresh : ∀ memory used, (alloc memory used).2 ∉ used

-- An item is a pointer of the client's; NULL is `none` for all of them.
structure ListElement (I : Type) where
  item : Option I
  key : Int
  next : Option Nat

-- The list with all the elements that are alive, its own and others.
structure PointerList (I σ : Type) where
  first : Option Nat
  last : Option Nat
  elements : Finmap fun _ : Nat => ListElement I
  memory : σ

namespace PointerList
variable {I σ : Type} (A : Allocator σ)

-- `none` in what follows: a pointer that leads to no element, or a walk without an end.
def new (elements : Finmap fun _ : Nat => ListElement I) (memory : σ) : PointerList I σ := ⟨none,none,elements,memory⟩

def newElement (l : PointerList I σ) (item : Option I) (sortKey : Int) : Nat × PointerList I σ :=
  let (memory,element) := A.alloc l.memory l.elements.keys
  (element,{l with elements := l.elements.insert element ⟨item,sortKey,none⟩, memory})

def setNext (l : PointerList I σ) (element : Nat) (next : Option Nat) : Option (PointerList I σ) := do
  let e ← l.elements.lookup element
  some {l with elements := l.elements.insert element {e with next}}

def isEmpty (l : PointerList I σ) : Bool := l.first.isNone

def append (l : PointerList I σ) (item : Option I) : Option (PointerList I σ) :=
  let (element,l) := l.newElement A item 0
  if l.isEmpty then some {l with first := some element, last := some element}
  else do
    let last ← l.last
    let l ← l.setNext last (some element)
    some {l with last := some element}

def prepend (l : PointerList I σ) (item : Option I) : Option (PointerList I σ) :=
  let (element,l) := l.newElement A item 0
  if l.isEmpty then some {l with first := some element, last := some element}
  else do
    let l ← l.setNext element l.first
    some {l with first := some element}

-- The walk of SortedInsert from `ptr` on, with at most `left` turns: the element in
-- front of the first larger key, if there is one.
def walk (l : PointerList I σ) (sortKey : Int) (ptr : Nat) : Nat → Option (Option Nat)
  | 0 => none
  | left + 1 => do
    let e ← l.elements.lookup ptr
    match e.next with
    | none => some none
    | some next => do
      let n ← l.elements.lookup next
      if sortKey < n.key then some (some ptr) else l.walk sortKey next left

-- An element is met once at most, so as many turns as elements are enough.
def sortedInsert (l : PointerList I σ) (item : Option I) (sortKey : Int) : Option (PointerList I σ) :=
  let (element,l) := l.newElement A item sortKey
  if l.isEmpty then some {l with first := some element, last := some element}
  else do
    let first ← l.first
    let e ← l.elements.lookup first
    if sortKey < e.key then
      let l ← l.setNext element l.first
      some {l with first := some element}
    else
      match ← l.walk sortKey first l.elements.keys.card with
      | some ptr => do
        let e ← l.elements.lookup ptr
        let l ← l.setNext element e.next
        l.setNext ptr (some element)
      | none => do
        let last ← l.last
        let l ← l.setNext last (some element)
        some {l with last := some element}

-- The item, and the key that goes to *keyPtr.
def sortedRemove (l : PointerList I σ) : Option (PointerList I σ × Option I × Option Int) :=
  if l.isEmpty then some (l,none,none)
  else do
    let element ← l.first
    let e ← l.elements.lookup element
    let after := if l.first = l.last then {l with first := none, last := none} else {l with first := e.next}
    some ({after with elements := after.elements.erase element},e.item,some e.key)

def remove (l : PointerList I σ) : Option (PointerList I σ × Option I) := do
  let (l,thing,_) ← l.sortedRemove
  some (l,thing)

inductive Op (I : Type) where
  | append (item : Option I)
  | prepend (item : Option I)
  | remove
  | isEmpty
  | sortedInsert (item : Option I) (sortKey : Int)
  | sortedRemove

inductive Answer (I : Type) where
  | done
  | truth (b : Bool)
  | thing (item : Option I) (key : Option Int)

def perform (l : PointerList I σ) : Op I → Option (PointerList I σ × Answer I)
  | .append item => (l.append A item).map (·,.done)
  | .prepend item => (l.prepend A item).map (·,.done)
  | .remove => l.remove.map fun (l,thing) => (l,.thing thing none)
  | .isEmpty => some (l,.truth l.isEmpty)
  | .sortedInsert item sortKey => (l.sortedInsert A item sortKey).map (·,.done)
  | .sortedRemove => l.sortedRemove.map fun (l,thing,key) => (l,.thing thing key)

def Op.sorted : Op I → Bool
  | .sortedInsert .. | .sortedRemove => true
  | _ => false

-- What goes in and comes out with the key k, in order.
def inserted (k : Int) (ops : List (Op I)) : List (Option I × Int) :=
  ops.filterMap fun
    | .sortedInsert item key => if key = k then some (item,key) else none
    | _ => none

def removed (k : Int) (found : List (Answer I)) : List (Option I × Int) :=
  found.filterMap fun
    | .thing item (some key) => if key = k then some (item,key) else none
    | _ => none

-- The same operations on a sequence of items with their keys.
def onSequence (xs : List (Option I × Int)) : Op I → List (Option I × Int) × Answer I
  | .append item => (xs ++ [(item,0)],.done)
  | .prepend item => ((item,0) :: xs,.done)
  | .remove => (xs.tail,.thing (xs.head?.bind Prod.fst) none)
  | .isEmpty => (xs,.truth xs.isEmpty)
  | .sortedInsert item sortKey => (Agenda.sortedInsert Prod.snd (item,sortKey) xs,.done)
  | .sortedRemove => (xs.tail,.thing (xs.head?.bind Prod.fst) (xs.head?.map Prod.snd))

def cell (l : PointerList I σ) (element : Nat) : Option ((Option I × Int) × Option Nat) :=
  (l.elements.lookup element).map fun e => ((e.item,e.key),e.next)

-- The chain from `first` goes through the elements and ends behind `last`.
def Represents (l : PointerList I σ) (xs : List (Option I × Int)) : Prop :=
  ∃ places : List Nat, places.Nodup ∧ Segment l.cell l.first places xs none ∧ l.last = places.getLast?

section
variable {A} {l after : PointerList I σ} {xs ys zs : List (Option I × Int)} {x v : Option I × Int} {item : Option I} {sortKey : Int}
  {element a ptr : Nat} {p q : Option Nat} {places : List Nat}

theorem cell_lookup (here : l.cell a = some (v,q)) : l.elements.lookup a = some ⟨v.1,v.2,q⟩ := by
  unfold cell at here
  cases found : l.elements.lookup a with
  | none => simp [found] at here
  | some e =>
    rw [found] at here
    cases here
    rfl

theorem cell_alive (here : l.cell a = some (v,q)) : a ∈ l.elements.keys := by
  rw [Finmap.mem_keys]
  exact Finmap.mem_of_lookup_eq_some (cell_lookup here)

theorem segment_alive (segment : Segment l.cell p places xs q) : ∀ a ∈ places, a ∈ l.elements.keys := by
  induction segment with
  | nil => simp
  | cons here _ ih =>
    intro b member
    cases List.mem_cons.mp member with
    | inl same => exact same ▸ cell_alive here
    | inr later => exact ih b later

-- A list with one more element, that nothing points to.
structure Grown (l after : PointerList I σ) (element : Nat) (v : Option I × Int) : Prop where
  first : after.first = l.first
  last : after.last = l.last
  here : after.cell element = some (v,none)
  fresh : element ∉ l.elements.keys
  same : ∀ c, c ≠ element → after.cell c = l.cell c

theorem newElement_grown (A : Allocator σ) (l : PointerList I σ) (item : Option I) (sortKey : Int) :
    Grown l (l.newElement A item sortKey).2 (l.newElement A item sortKey).1 (item,sortKey) := by
  refine ⟨rfl,rfl,?_,A.fresh _ _,?_⟩
  · simp [newElement,cell]
  · intro c differs
    simp only [newElement,cell] at differs ⊢
    rw [Finmap.lookup_insert_of_ne _ differs]

theorem Grown.outside (grown : Grown l after element v) (segment : Segment l.cell p places xs q) : element ∉ places :=
  fun member => grown.fresh (segment_alive segment element member)

theorem Grown.segment (grown : Grown l after element v) (segment : Segment l.cell p places xs q) :
    Segment after.cell p places xs q := by
  refine segment.frame fun c member => grown.same c ?_
  rintro rfl
  exact grown.outside segment member

-- An assignment to `next` changes that pointer only.
theorem setNext_some (here : l.cell a = some (v,q)) (next : Option Nat) :
    ∃ after, l.setNext a next = some after ∧ after.first = l.first ∧ after.last = l.last ∧
      after.cell a = some (v,next) ∧ ∀ c, c ≠ a → after.cell c = l.cell c := by
  refine ⟨{l with elements := l.elements.insert a ⟨v.1,v.2,next⟩},?_,rfl,rfl,?_,?_⟩
  · simp only [setNext,cell_lookup here,Option.bind_eq_bind,Option.bind_some]
  · simp [cell]
  · intro c differs
    simp only [cell]
    rw [Finmap.lookup_insert_of_ne _ differs]

-- The assignments at the end of the list.
def link (l : PointerList I σ) (element : Nat) : Option (PointerList I σ) := do
  let last ← l.last
  let l ← l.setNext last (some element)
  some {l with last := some element}

theorem only_represents (grown : Grown l after element v) :
    Represents {after with first := some element, last := some element} [v] :=
  ⟨[element],List.nodup_singleton _,.cons grown.here .nil,rfl⟩

theorem link_represents (rep : Represents l xs) (some_ : l.isEmpty = false) (grown : Grown l after element v) :
    ∃ linked, after.link element = some linked ∧ Represents linked (xs ++ [v]) := by
  obtain ⟨places,distinct,segment,last⟩ := rep
  rcases List.eq_nil_or_concat places with rfl | ⟨before,a,rfl⟩
  · generalize start : l.first = p at segment
    cases segment
    simp [isEmpty,start] at some_
  · rw [List.concat_eq_append] at *
    have outside := grown.outside segment
    obtain ⟨ys,w,rfl,left,here⟩ := (grown.segment segment).back
    obtain ⟨linked,set,first,_,one,same⟩ := setNext_some here (some element)
    have apart : element ≠ a := by
      rintro rfl
      simp at outside
    refine ⟨{linked with last := some element},?_,before ++ [a,element],splice_nodup distinct outside,?_,by simp⟩
    · rw [link,grown.last,last]
      simp only [List.getLast?_append,List.getLast?_singleton,Option.some_or,Option.bind_eq_bind,Option.bind_some,set]
    · have new : Segment linked.cell l.first (before ++ [a,element]) (ys ++ [w,v]) none := by
        refine left.splice here .nil distinct outside one ?_ fun c one two => same c one
        rw [same element apart]
        exact grown.here
      rw [← grown.first,← first] at new
      rw [show ys ++ [w] ++ [v] = ys ++ [w,v] by simp]
      exact new

-- In front of the first element, or as the only one.
theorem front_represents (rep : Represents l xs) (some_ : l.isEmpty = false) (grown : Grown l after element v) :
    ∃ linked, after.setNext element after.first = some linked ∧
      Represents {linked with first := some element} (v :: xs) := by
  obtain ⟨places,distinct,segment,last⟩ := rep
  obtain ⟨linked,set,_,lastSame,one,same⟩ := setNext_some grown.here after.first
  refine ⟨linked,set,element :: places,List.nodup_cons.mpr ⟨grown.outside segment,distinct⟩,.cons one ?_,?_⟩
  · rw [grown.first]
    refine (grown.segment segment).frame fun c member => same c ?_
    rintro rfl
    exact grown.outside segment member
  · cases places with
    | nil =>
      generalize start : l.first = p at segment
      cases segment
      simp [isEmpty,start] at some_
    | cons a places =>
      rw [List.getLast?_cons_cons,← last,← grown.last]
      exact lastSame

theorem empty_represents (rep : Represents l xs) (empty : l.isEmpty = true) : xs = [] ∧ l.last = none := by
  obtain ⟨places,_,segment,last⟩ := rep
  generalize start : l.first = p at segment
  cases segment with
  | nil => exact ⟨rfl,last⟩
  | cons here rest => simp [isEmpty,start] at empty

theorem append_represents (A : Allocator σ) (rep : Represents l xs) (item : Option I) :
    ∃ after, l.append A item = some after ∧ Represents after (xs ++ [(item,0)]) := by
  have grown := newElement_grown A l item 0
  rcases made : l.newElement A item 0 with ⟨element,after⟩
  rw [made] at grown
  have same : after.isEmpty = l.isEmpty := by rw [isEmpty,isEmpty,grown.first]
  simp only [append,made,same]
  cases empty : l.isEmpty with
  | true =>
    rw [(empty_represents rep empty).1]
    exact ⟨_,rfl,only_represents grown⟩
  | false => exact link_represents rep empty grown

theorem prepend_represents (A : Allocator σ) (rep : Represents l xs) (item : Option I) :
    ∃ after, l.prepend A item = some after ∧ Represents after ((item,0) :: xs) := by
  have grown := newElement_grown A l item 0
  rcases made : l.newElement A item 0 with ⟨element,after⟩
  rw [made] at grown
  have same : after.isEmpty = l.isEmpty := by rw [isEmpty,isEmpty,grown.first]
  simp only [prepend,made,same]
  cases empty : l.isEmpty with
  | true =>
    rw [(empty_represents rep empty).1]
    exact ⟨_,rfl,only_represents grown⟩
  | false =>
    obtain ⟨linked,set,front⟩ := front_represents rep empty grown
    exact ⟨_,by simp only [Bool.false_eq_true,if_false,set,Option.bind_eq_bind,Option.bind_some],front⟩

-- Where the walk stops: nowhere, when no key is larger, or in front of the place of the
-- new element.
theorem walk_stops (item : Option I) (sortKey : Int) (left : Nat) (segment : Segment l.cell (some ptr) (ptr :: places) (x :: xs) none)
    (enough : places.length < left) :
    (l.walk sortKey ptr left = some none ∧ Agenda.sortedInsert Prod.snd (item,sortKey) xs = xs ++ [(item,sortKey)]) ∨
    ∃ before a b behind ys v zs, l.walk sortKey ptr left = some (some a) ∧ ptr :: places = before ++ a :: b :: behind ∧
      x :: xs = ys ++ v :: zs ∧ Segment l.cell (some ptr) before ys (some a) ∧ l.cell a = some (v,some b) ∧
      Segment l.cell (some b) (b :: behind) zs none ∧
      x :: Agenda.sortedInsert Prod.snd (item,sortKey) xs = ys ++ v :: (item,sortKey) :: zs := by
  induction left generalizing ptr places x xs with
  | zero => omega
  | succ left ih =>
    cases segment with
    | cons here rest =>
      have found := cell_lookup here
      cases rest with
      | nil =>
        refine .inl ⟨?_,rfl⟩
        simp only [walk,found,Option.bind_eq_bind,Option.bind_some]
      | cons next rest =>
        rename_i b y q places xs
        have there := cell_lookup next
        by_cases larger : sortKey < y.2
        · refine .inr ⟨[],ptr,b,places,[],x,y :: xs,?_,rfl,rfl,.nil,here,.cons next rest,?_⟩
          · simp only [walk,found,there,Option.bind_eq_bind,Option.bind_some,if_pos larger]
          · simp [Agenda.sortedInsert,larger]
        · have goes : l.walk sortKey ptr (left + 1) = l.walk sortKey b left := by
            simp only [walk,found,there,Option.bind_eq_bind,Option.bind_some,if_neg larger]
          have behind : Agenda.sortedInsert Prod.snd (item,sortKey) (y :: xs) =
              y :: Agenda.sortedInsert Prod.snd (item,sortKey) xs := by
            simp [Agenda.sortedInsert,larger]
          rw [goes,behind]
          rcases ih (.cons next rest) (by simpa using enough) with
            ⟨stops,last⟩ | ⟨before,a,c,later,ys,v,zs,stops,split,values,ahead,at_,tail,inserted⟩
          · exact .inl ⟨stops,by rw [last]; rfl⟩
          · refine .inr ⟨ptr :: before,a,c,later,x :: ys,v,zs,stops,by rw [split]; rfl,by rw [values]; rfl,
              .cons here ahead,at_,tail,by rw [inserted]; rfl⟩

theorem segment_count (distinct : places.Nodup) (segment : Segment l.cell p places xs q) :
    places.length ≤ l.elements.keys.card := by
  rw [← List.toFinset_card_of_nodup distinct]
  refine Finset.card_le_card fun a member => ?_
  exact segment_alive segment a (List.mem_toFinset.mp member)

-- The two assignments in the middle of the list; `last` stays.
theorem splice_represents {before behind : List Nat} {b : Nat} {w : Option I × Int} (grown : Grown l after element v)
    (distinct : (before ++ a :: b :: behind).Nodup) (last : l.last = (before ++ a :: b :: behind).getLast?)
    (outside : element ∉ before ++ a :: b :: behind) (ahead : Segment after.cell after.first before ys (some a))
    (at_ : after.cell a = some (w,some b)) (tail : Segment after.cell (some b) (b :: behind) zs none) :
    ∃ middle linked, after.setNext element (some b) = some middle ∧ middle.setNext a (some element) = some linked ∧
      Represents linked (ys ++ w :: v :: zs) := by
  have apart : a ≠ element := by
    rintro rfl
    simp at outside
  obtain ⟨middle,set,first,lastSame,one,same⟩ := setNext_some grown.here (some b)
  obtain ⟨linked,setAgain,firstAgain,lastAgain,two,sameAgain⟩ := setNext_some ((same a apart).trans at_) (some element)
  refine ⟨middle,linked,set,setAgain,before ++ a :: element :: b :: behind,splice_nodup distinct outside,?_,?_⟩
  · rw [firstAgain,first]
    refine ahead.splice at_ tail distinct outside two ?_ fun c differs other => ?_
    · rw [sameAgain element apart.symm]
      exact one
    · rw [sameAgain c differs,same c other]
  · rw [lastAgain,lastSame,grown.last,last]
    simp [List.getLast?_append]

theorem sortedInsert_represents (A : Allocator σ) (rep : Represents l xs) (item : Option I) (sortKey : Int) :
    ∃ after, l.sortedInsert A item sortKey = some after ∧
      Represents after (Agenda.sortedInsert Prod.snd (item,sortKey) xs) := by
  have grown := newElement_grown A l item sortKey
  rcases made : l.newElement A item sortKey with ⟨element,after⟩
  rw [made] at grown
  change Grown l after element (item,sortKey) at grown
  have same : after.isEmpty = l.isEmpty := by rw [isEmpty,isEmpty,grown.first]
  simp only [sortedInsert,made,same]
  cases empty : l.isEmpty with
  | true =>
    rw [(empty_represents rep empty).1]
    exact ⟨_,rfl,only_represents grown⟩
  | false =>
    have whole := rep
    obtain ⟨places,distinct,segment,last⟩ := rep
    have outside := grown.outside segment
    have inAfter := grown.segment segment
    generalize start : l.first = p at segment inAfter
    have begins : after.first = p := grown.first.trans start
    cases inAfter with
    | nil => simp [isEmpty,start] at empty
    | cons here rest =>
      rename_i ptr x q places xs
      have found := cell_lookup here
      simp only [Bool.false_eq_true,if_false,begins,found,Option.bind_eq_bind,Option.bind_some]
      by_cases front : sortKey < x.2
      · obtain ⟨linked,set,first⟩ := front_represents whole empty grown
        rw [begins] at set
        refine ⟨{linked with first := some element},by simp only [if_pos front,set,Option.bind_some],?_⟩
        simpa only [Agenda.sortedInsert,if_pos front] using first
      · have enough : places.length < after.elements.keys.card := segment_count distinct (.cons here rest)
        have behind : Agenda.sortedInsert Prod.snd (item,sortKey) (x :: xs) =
            x :: Agenda.sortedInsert Prod.snd (item,sortKey) xs := by
          simp only [Agenda.sortedInsert,if_neg front]
        rw [if_neg front,behind]
        rcases walk_stops item sortKey after.elements.keys.card (.cons here rest) enough with
          ⟨stops,end_⟩ | ⟨before,a,b,behind,ys,v,zs,stops,split,values,ahead,at_,tail,inserted⟩
        · obtain ⟨linked,set,rep⟩ := link_represents whole empty grown
          refine ⟨linked,?_,?_⟩
          · simp only [stops,Option.bind_some]
            exact set
          · rw [end_]
            exact rep
        · rw [split] at distinct last outside
          rw [← begins] at ahead
          obtain ⟨middle,linked,set,setAgain,rep⟩ := splice_represents grown distinct last outside ahead at_ tail
          refine ⟨linked,?_,?_⟩
          · simp only [stops,cell_lookup at_,set,setAgain,Option.bind_some]
          · rw [inserted]
            exact rep

theorem sortedRemove_represents (rep : Represents l xs) :
    ∃ after, l.sortedRemove = some (after,xs.head?.bind Prod.fst,xs.head?.map Prod.snd) ∧ Represents after xs.tail := by
  cases empty : l.isEmpty with
  | true =>
    have none := (empty_represents rep empty).1
    subst none
    exact ⟨l,by simp [sortedRemove,empty],rep⟩
  | false =>
    obtain ⟨places,distinct,segment,last⟩ := rep
    generalize start : l.first = p at segment
    cases segment with
    | nil => simp [isEmpty,start] at empty
    | cons here rest =>
      rename_i ptr x q places xs
      obtain ⟨out,others⟩ := List.nodup_cons.mp distinct
      have alone : l.first = l.last ↔ places = [] := by
        rw [start,last]
        cases places with
        | nil => simp
        | cons b places =>
          rw [List.getLast?_cons_cons]
          refine iff_of_false (fun same => ?_) (by simp)
          exact out (List.mem_of_getLast? same.symm)
      have gone : ∀ c ∈ places, (l.elements.erase ptr).lookup c = l.elements.lookup c := by
        intro c member
        refine Finmap.lookup_erase_ne ?_
        rintro rfl
        exact out member
      have left : ∀ after : PointerList I σ, after.elements = l.elements.erase ptr → Segment after.cell q places xs none := by
        intro after same
        refine rest.frame fun c member => ?_
        rw [cell,cell,same,gone c member]
      simp only [sortedRemove,empty,Bool.false_eq_true,if_false,start,cell_lookup here,Option.bind_eq_bind,Option.bind_some]
      rw [start] at alone
      refine ⟨_,rfl,places,others,?_,?_⟩
      · split
        · rename_i one
          rw [alone] at one
          subst one
          cases rest
          exact .nil
        · exact left _ rfl
      · split
        · rename_i one
          rw [alone] at one
          subst one
          rfl
        · rename_i more
          rw [alone] at more
          cases places with
          | nil => exact absurd rfl more
          | cons b places => rwa [List.getLast?_cons_cons] at last

theorem isEmpty_represents (rep : Represents l xs) : l.isEmpty = xs.isEmpty := by
  obtain ⟨places,_,segment,_⟩ := rep
  generalize start : l.first = p at segment
  cases segment <;> simp [isEmpty,start]

-- Each operation does on the elements what it does on the sequence.
theorem perform_on_sequence (A : Allocator σ) (l : PointerList I σ) (xs : List (Option I × Int)) (op : Op I)
    (rep : Represents l xs) :
    ∃ after, l.perform A op = some (after,(onSequence xs op).2) ∧ Represents after (onSequence xs op).1 := by
  cases op with
  | append item =>
    obtain ⟨after,ran,next⟩ := append_represents A rep item
    exact ⟨after,by simp [perform,ran,onSequence],next⟩
  | prepend item =>
    obtain ⟨after,ran,next⟩ := prepend_represents A rep item
    exact ⟨after,by simp [perform,ran,onSequence],next⟩
  | remove =>
    obtain ⟨after,ran,next⟩ := sortedRemove_represents rep
    exact ⟨after,by simp [perform,remove,ran,onSequence],next⟩
  | isEmpty => exact ⟨l,by simp [perform,onSequence,isEmpty_represents rep],rep⟩
  | sortedInsert item sortKey =>
    obtain ⟨after,ran,next⟩ := sortedInsert_represents A rep item sortKey
    exact ⟨after,by simp [perform,ran,onSequence],next⟩
  | sortedRemove =>
    obtain ⟨after,ran,next⟩ := sortedRemove_represents rep
    exact ⟨after,by simp [perform,ran,onSequence],next⟩

def OnSequence (xs : List (Option I × Int)) (op : Op I) (answer : Answer I) (ys : List (Option I × Int)) : Prop :=
  onSequence xs op = (ys,answer)

theorem sorted_op {answer : Answer I} {op : Op I} (sorted : Agenda.Sorted Prod.snd xs) (kind : op.sorted = true)
    (one : OnSequence xs op answer ys) (k : Int) :
    Agenda.Sorted Prod.snd ys ∧ xs.filter (fun x => decide (x.2 = k)) ++ inserted k [op] =
      removed k [answer] ++ ys.filter (fun x => decide (x.2 = k)) := by
  cases op with
  | sortedInsert item key =>
    cases one
    refine ⟨Agenda.sortedInsert_sorted sorted _,?_⟩
    rw [Agenda.sortedInsert_filter sorted]
    by_cases same : key = k <;> simp [inserted,removed,same]
  | sortedRemove =>
    cases one
    cases xs with
    | nil => exact ⟨sorted,rfl⟩
    | cons x xs =>
      refine ⟨(List.pairwise_cons.mp sorted).2,?_⟩
      obtain ⟨item,key⟩ := x
      by_cases same : key = k <;> simp [inserted,removed,same]
  | _ => cases kind

-- Used with keys only: sorted at all times, and first in, first out for each key.
theorem sorted_run {ops : List (Op I)} {found : List (Answer I)} (explained : Explains OnSequence xs ops found ys)
    (sorted : Agenda.Sorted Prod.snd xs) (kinds : ∀ op ∈ ops, op.sorted = true) (k : Int) :
    Agenda.Sorted Prod.snd ys ∧ xs.filter (fun x => decide (x.2 = k)) ++ inserted k ops =
      removed k found ++ ys.filter (fun x => decide (x.2 = k)) := by
  induction explained with
  | nil => exact ⟨sorted,by simp [inserted,removed]⟩
  | cons one rest ih =>
    rename_i xs op answer middle ops found ys
    obtain ⟨between,first⟩ := sorted_op sorted (kinds op List.mem_cons_self) one k
    obtain ⟨ends,later⟩ := ih between fun op member => kinds op (List.mem_cons_of_mem _ member)
    refine ⟨ends,?_⟩
    have ins : inserted k (op :: ops) = inserted k [op] ++ inserted k ops := by
      rw [inserted,inserted,inserted,← List.filterMap_append]
      rfl
    have outs : removed k (answer :: found) = removed k [answer] ++ removed k found := by
      rw [removed,removed,removed,← List.filterMap_append]
      rfl
    rw [ins,outs,← List.append_assoc,first,List.append_assoc,later,List.append_assoc]

end

-- A list of elements and pointers is a sequence; with SortedInsert and SortedRemove alone
-- it is a queue in the order of the keys, first in, first out among equal ones.
theorem list_refines_sequence (A : Allocator σ) (elements : Finmap fun _ : Nat => ListElement I) (memory : σ)
    (ops : List (Op I)) :
    ∃ l found xs, answers (perform A) (new elements memory) ops = some (l,found) ∧ Explains OnSequence [] ops found xs ∧
      Represents l xs ∧
      ((∀ op ∈ ops, op.sorted = true) → Agenda.Sorted Prod.snd xs ∧
        (∀ k, inserted k ops = removed k found ++ xs.filter (fun x => decide (x.2 = k))) ∧
        ∀ x rest, xs = x :: rest → (∀ y ∈ xs, x.2 ≤ y.2) ∧
          ∃ after, l.sortedRemove = some (after,x.1,some x.2) ∧ Represents after rest) := by
  have begins : Represents (new elements memory) ([] : List (Option I × Int)) := ⟨[],List.nodup_nil,.nil,rfl⟩
  have step : ∀ (l : PointerList I σ) (xs : List (Option I × Int)) (op : Op I), Represents l xs → True →
      ∃ after answer ys, perform A l op = some (after,answer) ∧ OnSequence xs op answer ys ∧ Represents after ys := by
    intro l xs op rep _
    obtain ⟨after,ran,next⟩ := perform_on_sequence A l xs op rep
    exact ⟨after,_,_,ran,rfl,next⟩
  obtain ⟨l,found,xs,ran,explained,rep⟩ := answers_explained ops step begins fun _ _ => trivial
  refine ⟨l,found,xs,ran,explained,rep,fun kinds => ?_⟩
  have both := sorted_run explained List.Pairwise.nil kinds
  refine ⟨(both 0).1,fun k => (both k).2,?_⟩
  rintro x rest rfl
  refine ⟨?_,sortedRemove_represents rep⟩
  intro y member
  rcases List.mem_cons.mp member with rfl | later
  · exact Int.le_refl _
  · exact (List.pairwise_cons.mp (both 0).1).1 y later

-- The place behind all that are in use.
def behind : Allocator Unit where
  alloc := fun memory used => (memory,@Finset.fold Nat Nat Nat.max ⟨Nat.max_comm⟩ ⟨Nat.max_assoc⟩ 0 id used + 1)
  fresh := fun _ used member => by
    have bound := (Finset.le_fold_max (b := 0) (f := id) _).mpr (.inr ⟨_,member,Nat.le_refl _⟩)
    exact absurd bound (Nat.not_succ_le_self _)

def fourOps : List (Op Nat) := [.sortedInsert (some 1) 5,.sortedInsert (some 2) 5,.sortedInsert (some 3) 4,.sortedRemove]

-- Two items of one key keep their order behind one that came later.
theorem list_refines_sequence_four : ∃ l, answers (perform behind) (new ∅ ()) fourOps =
    some (l,[.done,.done,.done,.thing (some 3) (some 4)]) ∧ Represents l [(some 1,5),(some 2,5)] := by
  obtain ⟨l,found,xs,ran,explained,rep,_⟩ := list_refines_sequence behind ∅ () fourOps
  rcases explained with _ | ⟨first,_ | ⟨second,_ | ⟨third,_ | ⟨fourth,rest⟩⟩⟩⟩
  cases first
  cases second
  cases third
  cases fourth
  cases rest
  exact ⟨l,ran,rep⟩

end PointerList
end Nachos
