import Nachos.Table
import Nachos.Machine
import Nachos.Library.Atomic

-- A Table used by any number of threads. Put takes its slot under the lock and
-- fills it after Release, so another thread can run in between; Get takes no lock.
namespace Nachos.TableRuns
open Monitor Atomic

inductive Call (P : Type) where
  | put (f : Option P)
  | get (i : Int)
  | remove (i : Int)
  deriving DecidableEq, Repr

inductive Result (P : Type) where
  | slot (i : Int)
  | pointer (f : Option P)
  deriving DecidableEq, Repr

-- The table the callers may think of: which slots are in use, and with what.
def apply (size : Nat) (slots : Nat → Option (Option P)) : Call P → (Nat → Option (Option P)) × Result P
  | .put f => match (List.range size).find? fun i => (slots i).isNone with
    | some i => (Function.update slots i (some f),.slot i)
    | none => (slots,.slot (-1))
  | .get i => (slots,.pointer (if 0 ≤ i ∧ i < size then (slots i.toNat).join else none))
  | .remove i =>
    if 0 ≤ i ∧ i < size then (Function.update slots i.toNat none,.pointer (slots i.toNat).join)
    else (slots,.pointer none)

-- Where a thread is: outside, or inside Put or Remove after the named step.
inductive Pc (P : Type) where
  | outside
  | putting (f : Option P)
  | storing (f : Option P) (i : Int)
  | removing (i : Int)
  | removed (i : Int) (f : Option P)
  | ended
  deriving DecidableEq, Repr

inductive Request (P : Type) where
  | call (what : Call P)
  | finish
  deriving DecidableEq, Repr

-- An ASSERT of the BitMap.
inductive Fault where
  | assertion
  deriving DecidableEq, Repr

structure State (T P : Type) where
  table : Table P
  pc : T → Pc P

-- One thread's code up to its next operation. The BitMap and the array are used
-- with no change of the interrupt level.
def advance (table : Table P) (t : T) (request : Request P) :
    Pc P → Option (Table P × Pc P × Op Unit Unit × List (Event T (Call P) (Result P)))
  | .outside => match request with
    | .call (.put f) => some (table,.putting f,.acquire (),[.called t (.put f)])
    | .call (.get i) => do
      let f ← table.get i
      some (table,.outside,.skip,[.returned t (.get i) (.pointer f),.called t (.get i)])
    | .call (.remove i) =>
      if table.valid i then some (table,.removing i,.acquire (),[.called t (.remove i)])
      else some (table,.outside,.skip,[.returned t (.remove i) (.pointer none),.called t (.remove i)])
    | .finish => some (table,.ended,.stop,[])
  | .putting f => do
    let (table,i) ← table.reserve
    some (table,.storing f i,.release (),[])
  | .storing f i => some (table.store i f,.outside,.skip,[.returned t (.put f) (.slot i)])
  | .removing i => do
    let (table,f) ← table.take i
    some (table,.removed i f,.release (),[])
  | .removed i f => some (table,.outside,.skip,[.returned t (.remove i) (.pointer f)])
  | .ended => some (table,.ended,.stop,[])

def Pc.held : Pc P → List Unit
  | .putting _ | .removing _ => [()]
  | .outside | .storing _ _ | .removed _ _ | .ended => []

def Pc.site : Pc P → Site Unit Unit
  | .putting _ | .removing _ => .entering ()
  | .ended => .ended
  | .outside | .storing _ _ | .removed _ _ => .free

-- How far the call of the thread is, for its callers.
def Pc.phase : Pc P → Phase (Call P) (Result P)
  | .outside | .ended => .idle
  | .putting f => .pending (.put f)
  | .storing f i => .done (.put f) (.slot i)
  | .removing i => .pending (.remove i)
  | .removed i f => .done (.remove i) (.pointer f)

variable [DecidableEq T]

def program (T : Type) [DecidableEq T] (start : Table P) :
    Program T Unit Unit (State T P) (Request P) (Event T (Call P) (Result P)) Fault where
  exec t s request := match advance s.table t request (s.pc t) with
    | none => .error .assertion
    | some (table,pc,op,events) => .ok (⟨table,Function.update s.pc t pc⟩,op,events)
  initial := ⟨start,fun _ => .outside⟩
  lockOf _ := ()
  held s t := (s.pc t).held
  site s t := (s.pc t).site

-- A Put has taken the slot and has not filled it yet.
def Unfilled (s : State T P) (i : Int) : Prop := ∃ u f, s.pc u = .storing f i

-- The step does not look into such a slot.
def Careful (s : State T P) (t : T) (request : Request P) : Prop :=
  match s.pc t with
  | .outside => ∀ i, request = .call (.get i) → ¬Unfilled s i
  | .removing i => ¬Unfilled s i
  | _ => True

-- The array against the table the callers may think of. A slot in use holds its
-- pointer, or the Put that took it is still to store it.
structure Represents (size : Nat) (slots : Nat → Option (Option P)) (s : State T P) : Prop where
  sized : s.table.size = size
  used : ∀ i, i < size → s.table.used i = (slots i).isSome
  stored : ∀ i f, i < size → slots i = some f → s.table.table i = f ∨ ∃ u, s.pc u = .storing f i
  taken : ∀ u f i, s.pc u = .storing f i → i = -1 ∨ ∃ slot : Nat, i = slot ∧ slot < size ∧ slots slot = some f
  alone : ∀ u v f g (slot : Nat), s.pc u = .storing f slot → s.pc v = .storing g slot → u = v
  valid : ∀ u i, s.pc u = .removing i → s.table.valid i = true

theorem apply_put_full (f : Option P) (full : ∀ i, i < size → (slots i).isSome = true) :
    apply size slots (.put f) = (slots,.slot (-1)) := by
  have none_ : ((List.range size).find? fun i => (slots i).isNone) = none := by
    rw [List.find?_range_eq_none]
    intro i inside
    simp [full i inside]
  simp [apply,none_]

theorem apply_put_first (f : Option P) (bound : first < size) (free : slots first = none)
    (before : ∀ j, j < first → (slots j).isSome = true) :
    apply size slots (.put f) = (Function.update slots first (some f),.slot first) := by
  have found : ((List.range size).find? fun i => (slots i).isNone) = some first := by
    rw [List.find?_range_eq_some]
    refine ⟨by simp [free],by simpa using bound,fun j below => ?_⟩
    simp [before j below]
  simp [apply,found]

section
variable {size : Nat} {slots : Nat → Option (Option P)} {s : State T P} {t : T}

-- A thread that neither comes from filling a slot nor goes to it.
theorem Represents.moved (represents : Represents size slots s) (before : ∀ f i, s.pc t ≠ .storing f i)
    (after : ∀ f i, pc ≠ .storing f i) (fits : ∀ i, pc = .removing i → s.table.valid i = true) :
    Represents size slots {s with pc := Function.update s.pc t pc} := by
  have kept : ∀ u f i, Function.update s.pc t pc u = .storing f i ↔ s.pc u = .storing f i := by
    intro u f i
    by_cases same : u = t
    · subst same
      simp [before f i,after f i]
    · simp [same]
  refine ⟨represents.sized,represents.used,?_,?_,?_,?_⟩
  · intro i f inside holds
    simpa only [kept] using represents.stored i f inside holds
  · intro u f i place
    exact represents.taken u f i ((kept u f i).mp place)
  · intro u v f g slot first second
    exact represents.alone u v f g slot ((kept u f slot).mp first) ((kept v g slot).mp second)
  · intro u i place
    by_cases same : u = t
    · subst same
      exact fits i (by simpa using place)
    · exact represents.valid u i (by simpa [same] using place)

-- Put under the lock: the slot becomes the thread's own to fill.
theorem Represents.reserved (represents : Represents size slots s) (place : s.pc t = .putting f)
    (reserved : s.table.reserve = some (table,i)) :
    ∃ slots', apply size slots (.put f) = (slots',.slot i) ∧
      Represents size slots' ⟨table,Function.update s.pc t (.storing f i)⟩ := by
  have others : ∀ u g j, Function.update s.pc t (.storing f i) u = .storing g j →
      (u = t ∧ g = f ∧ j = i) ∨ (u ≠ t ∧ s.pc u = .storing g j) := by
    intro u g j now
    by_cases same : u = t
    · subst same
      simp only [Function.update_self,Pc.storing.injEq] at now
      exact Or.inl ⟨rfl,now.1.symm,now.2.symm⟩
    · exact Or.inr ⟨same,by simpa [same] using now⟩
  have still : ∀ u g j, s.pc u = .storing g j → Function.update s.pc t (.storing f i) u = .storing g j := by
    intro u g j before
    have differs : u ≠ t := by
      rintro rfl
      simp [place] at before
    simpa [differs] using before
  have removing : ∀ u j, Function.update s.pc t (.storing f i) u = .removing j → s.pc u = .removing j := by
    intro u j now
    by_cases same : u = t
    · subst same
      simp at now
    · simpa [same] using now
  rcases s.table.reserve_cases with ⟨full,all⟩ | ⟨first,after,found,bound,free,before,sizes,contents,bits⟩
  · obtain ⟨rfl,rfl⟩ : table = s.table ∧ i = -1 := by
      rw [full] at reserved
      cases reserved
      exact ⟨rfl,rfl⟩
    refine ⟨slots,apply_put_full f ?_,represents.sized,represents.used,?_,?_,?_,?_⟩
    · intro j inside
      rw [← represents.used j inside]
      exact all j (by rw [represents.sized]; exact inside)
    · intro j g inside holds
      refine (represents.stored j g inside holds).imp id ?_
      rintro ⟨u,filling⟩
      exact ⟨u,still u g j filling⟩
    · intro u g j now
      rcases others u g j now with ⟨_,_,rfl⟩ | ⟨_,before⟩
      · exact Or.inl rfl
      · exact represents.taken u g j before
    · intro u v g h slot first second
      rcases others u g slot first with ⟨_,_,wrong⟩ | ⟨_,first⟩
      · omega
      · rcases others v h slot second with ⟨_,_,wrong⟩ | ⟨_,second⟩
        · omega
        · exact represents.alone u v g h slot first second
    · intro u j now
      exact represents.valid u j (removing u j now)
  · obtain ⟨rfl,rfl⟩ : table = after ∧ i = first := by
      rw [found] at reserved
      cases reserved
      exact ⟨rfl,rfl⟩
    rw [represents.sized] at bound bits
    have empty : slots first = none := by
      have here := represents.used first bound
      rw [free] at here
      simpa using here.symm
    refine ⟨_,apply_put_first f bound empty ?_,by rw [sizes]; exact represents.sized,?_,?_,?_,?_,?_⟩
    · intro j below
      rw [← represents.used j (by omega)]
      exact before j below
    · intro j inside
      rw [bits j inside,represents.used j inside]
      by_cases same : j = first
      · simp [same]
      · simp [same]
    · intro j g inside holds
      by_cases same : j = first
      · subst same
        simp only [Function.update_self,Option.some.injEq] at holds
        subst holds
        exact Or.inr ⟨t,by simp⟩
      · simp only [Function.update_of_ne same] at holds
        rw [contents]
        refine (represents.stored j g inside holds).imp id ?_
        rintro ⟨u,filling⟩
        exact ⟨u,still u g j filling⟩
    · intro u g j now
      rcases others u g j now with ⟨_,rfl,rfl⟩ | ⟨_,before⟩
      · exact Or.inr ⟨first,rfl,bound,by simp⟩
      · refine (represents.taken u g j before).imp id ?_
        rintro ⟨slot,same,inside,holds⟩
        refine ⟨slot,same,inside,?_⟩
        have differs : slot ≠ first := by
          rintro rfl
          simp [empty] at holds
        simpa [differs] using holds
    · -- The slot was free, so no other thread is filling it.
      have fresh : ∀ u g, s.pc u ≠ .storing g (first : Int) := by
        intro u g filling
        rcases represents.taken u g first filling with wrong | ⟨slot,same,_,holds⟩
        · omega
        · have same : first = slot := by omega
          rw [← same,empty] at holds
          cases holds
      intro u v g h slot one two
      rcases others u g slot one with ⟨rfl,_,here⟩ | ⟨_,one⟩
      · rcases others v h slot two with ⟨rfl,_,_⟩ | ⟨_,two⟩
        · rfl
        · rw [here] at two
          exact absurd two (fresh v h)
      · rcases others v h slot two with ⟨_,_,here⟩ | ⟨_,two⟩
        · rw [here] at one
          exact absurd one (fresh u g)
        · exact represents.alone u v g h slot one two
    · intro u j now
      have valid := represents.valid u j (removing u j now)
      simpa [Table.valid,sizes] using valid

-- Put after Release: the pointer goes into the slot that was kept for it.
theorem Represents.filled (represents : Represents size slots s) (place : s.pc t = .storing f i) :
    Represents size slots ⟨s.table.store i f,Function.update s.pc t .outside⟩ := by
  have before : ∀ u g j, Function.update s.pc t .outside u = .storing g j → u ≠ t ∧ s.pc u = .storing g j := by
    intro u g j now
    by_cases same : u = t
    · subst same
      simp at now
    · exact ⟨same,by simpa [same] using now⟩
  refine ⟨by simpa using represents.sized,by simpa using represents.used,?_,?_,?_,?_⟩
  · intro j g inside holds
    rcases represents.taken t f i place with rfl | ⟨slot,rfl,_,own⟩
    · refine (represents.stored j g inside holds).imp (by simp [Table.store]) ?_
      rintro ⟨u,filling⟩
      have differs : u ≠ t := by
        rintro rfl
        rw [place] at filling
        cases filling
      exact ⟨u,by simpa [differs] using filling⟩
    · have stored : (s.table.store slot f).table = Function.update s.table.table slot f := by
        simp [Table.store,show (slot : Int) ≠ -1 by omega]
      by_cases same : j = slot
      · subst same
        obtain rfl : f = g := Option.some.inj (own.symm.trans holds)
        exact Or.inl (by simp [stored])
      · refine (represents.stored j g inside holds).imp (by simp [stored,same]) ?_
        rintro ⟨u,filling⟩
        have differs : u ≠ t := by
          rintro rfl
          rw [place] at filling
          simp only [Pc.storing.injEq] at filling
          omega
        exact ⟨u,by simpa [differs] using filling⟩
  · intro u g j now
    exact represents.taken u g j (before u g j now).2
  · intro u v g h slot first second
    exact represents.alone u v g h slot (before u g slot first).2 (before v h slot second).2
  · intro u j now
    have valid := represents.valid u j (by
      by_cases same : u = t
      · subst same
        simp at now
      · simpa [same] using now)
    simpa [Table.valid] using valid

-- A slot that nobody is filling shows what the callers think is in it.
omit [DecidableEq T] in
theorem Represents.shows (represents : Represents size slots s) (inside : slot < size)
    (filled : ¬Unfilled s slot) :
    (if s.table.used slot then s.table.table slot else none) = (slots slot).join := by
  rw [represents.used slot inside]
  cases holds : slots slot with
  | none => rfl
  | some f =>
    rcases represents.stored slot f inside holds with stored | ⟨u,filling⟩
    · simpa using stored
    · exact absurd ⟨u,f,filling⟩ filled

omit [DecidableEq T] in
theorem Represents.got (represents : Represents size slots s) (filled : ¬Unfilled s i) :
    ∃ f, s.table.get i = some f ∧ apply size slots (.get i) = (slots,.pointer f) := by
  cases within : s.table.valid i with
  | true =>
    obtain ⟨slot,rfl,inside⟩ := Table.valid_nat within
    refine ⟨_,Table.get_valid inside,?_⟩
    rw [represents.sized] at inside
    rw [represents.shows inside filled]
    simp [apply,inside]
  | false =>
    refine ⟨none,Table.get_invalid within,?_⟩
    have outside : ¬(0 ≤ i ∧ i < size) := by simpa [Table.valid,represents.sized] using within
    simp [apply,outside]

-- Remove under the lock.
theorem Represents.removed (represents : Represents size slots s) (place : s.pc t = .removing i)
    (filled : ¬Unfilled s i) (took : s.table.take i = some (table,f)) :
    ∃ slots', apply size slots (.remove i) = (slots',.pointer f) ∧
      Represents size slots' ⟨table,Function.update s.pc t (.removed i f)⟩ := by
  obtain ⟨slot,rfl,inside⟩ := Table.valid_nat (represents.valid t i place)
  have shows := represents.shows (by rw [← represents.sized]; exact inside) filled
  have applied : apply size slots (.remove slot) =
      (Function.update slots slot none,.pointer (slots slot).join) := by
    rw [represents.sized] at inside
    simp [apply,inside]
  have before : ∀ u g j, Function.update s.pc t (.removed slot f) u = .storing g j ↔ s.pc u = .storing g j := by
    intro u g j
    by_cases same : u = t
    · subst same
      simp [place]
    · simp [same]
  have removing : ∀ u j, Function.update s.pc t (.removed slot f) u = .removing j → s.pc u = .removing j := by
    intro u j now
    by_cases same : u = t
    · subst same
      simp at now
    · simpa [same] using now
  -- Nobody is filling the slot, so every slot being filled is another one.
  have other : ∀ u g (j : Nat), s.pc u = .storing g j → j ≠ slot := by
    rintro u g j filling rfl
    exact filled ⟨u,g,filling⟩
  rcases Table.take_cases inside with ⟨nothing,free⟩ | ⟨after,taken,inUse,sizes,contents,bits⟩
  · obtain ⟨rfl,rfl⟩ : table = s.table ∧ f = none := by
      rw [nothing] at took
      cases took
      exact ⟨rfl,rfl⟩
    have empty : slots slot = none := by
      have here := represents.used slot (by rw [← represents.sized]; exact inside)
      rw [free] at here
      simpa using here.symm
    have same : Function.update slots slot none = slots := Function.update_eq_self_iff.mpr empty.symm
    refine ⟨slots,by rw [applied,same,empty]; rfl,?_⟩
    exact represents.moved (by simp [place]) (by simp) (by simp)
  · obtain ⟨rfl,rfl⟩ : table = after ∧ f = s.table.table slot := by
      rw [taken] at took
      cases took
      exact ⟨rfl,rfl⟩
    rw [inUse,if_pos rfl] at shows
    rw [represents.sized] at bits
    refine ⟨_,by rw [applied,shows],by rw [sizes]; exact represents.sized,?_,?_,?_,?_,?_⟩
    · intro j within
      rw [bits j within,represents.used j within]
      by_cases same : j = slot
      · simp [same]
      · simp [same]
    · intro j g within holds
      have differs : j ≠ slot := by
        rintro rfl
        simp at holds
      simp only [Function.update_of_ne differs] at holds
      rw [contents,Function.update_of_ne differs]
      refine (represents.stored j g within holds).imp id ?_
      rintro ⟨u,filling⟩
      exact ⟨u,(before u g j).mpr filling⟩
    · intro u g j now
      have filling := (before u g j).mp now
      refine (represents.taken u g j filling).imp id ?_
      rintro ⟨at_,rfl,within,holds⟩
      exact ⟨at_,rfl,within,by simpa [other u g at_ filling] using holds⟩
    · intro u v g h at_ first second
      exact represents.alone u v g h at_ ((before u g at_).mp first) ((before v h at_).mp second)
    · intro u j now
      have valid := represents.valid u j (removing u j now)
      simpa [Table.valid,sizes] using valid

-- One step of a thread: the marks it adds to the log, and the table after them.
theorem step_marks {table : Table P} (represents : Represents size slots s) (phases : ∀ u, phase u = (s.pc u).phase)
    (logged : Logged (apply size) begun slots phase log) (careful : Careful s t request)
    (advanced : advance s.table t request (s.pc t) = some (table,pc,op,events)) :
    ∃ slots' phase' log', Logged (apply size) begun slots' phase' log' ∧
      log'.filterMap Mark.event = events ++ log.filterMap Mark.event ∧
      (∀ u, phase' u = (Function.update s.pc t pc u).phase) ∧
      Represents size slots' ⟨table,Function.update s.pc t pc⟩ := by
  have moved : ∀ next, next = pc.phase → ∀ u, Function.update phase t next u = (Function.update s.pc t pc u).phase := by
    rintro next rfl u
    by_cases same : u = t
    · subst same
      simp
    · simp [same,phases]
  have stays : pc.phase = phase t → ∀ u, phase u = (Function.update s.pc t pc u).phase := by
    intro same u
    by_cases self : u = t
    · subst self
      simp [same]
    · simp [self,phases]
  have here := phases t
  cases place : s.pc t with
  | outside =>
    rw [place] at advanced here
    cases request with
    | finish =>
      cases advanced
      exact ⟨slots,phase,log,logged,rfl,stays here.symm,represents.moved (by simp [place]) (by simp) (by simp)⟩
    | call what =>
      cases what with
      | put f =>
        cases advanced
        exact ⟨slots,_,_,logged.called here (.put f),rfl,moved _ rfl,
          represents.moved (by simp [place]) (by simp) (by simp)⟩
      | get i =>
        have filled : ¬Unfilled s i := by simpa [Careful,place] using careful
        obtain ⟨f,found,applied⟩ := represents.got filled
        simp only [advance,found,Option.bind_eq_bind,Option.bind_some] at advanced
        cases advanced
        have called := logged.called here (.get i)
        have took := called.took (t := t) (by simp) applied
        refine ⟨slots,_,_,took.returned (t := t) (by simp),rfl,?_,represents.moved (by simp [place]) (by simp) (by simp)⟩
        simp only [Function.update_idem]
        exact moved _ rfl
      | remove i =>
        simp only [advance] at advanced
        split at advanced
        · rename_i valid
          cases advanced
          refine ⟨slots,_,_,logged.called here (.remove i),rfl,moved _ rfl,?_⟩
          refine represents.moved (by simp [place]) (by simp) ?_
          rintro j ⟨⟩
          exact valid
        · rename_i invalid
          cases advanced
          have outside : ¬(0 ≤ i ∧ i < size) := by simpa [Table.valid,represents.sized] using invalid
          have applied : apply size slots (.remove i) = (slots,.pointer none) := by simp [apply,outside]
          have called := logged.called here (.remove i)
          have took := called.took (t := t) (by simp) applied
          refine ⟨slots,_,_,took.returned (t := t) (by simp),rfl,?_,represents.moved (by simp [place]) (by simp) (by simp)⟩
          simp only [Function.update_idem]
          exact moved _ rfl
  | putting f =>
    rw [place] at advanced here
    simp only [advance,Option.bind_eq_bind,Option.bind_eq_some_iff] at advanced
    obtain ⟨⟨after,i⟩,reserved,result⟩ := advanced
    cases result
    obtain ⟨slots',applied,now⟩ := represents.reserved place reserved
    exact ⟨slots',_,_,logged.took here applied,rfl,moved _ rfl,now⟩
  | storing f i =>
    rw [place] at advanced here
    cases advanced
    exact ⟨slots,_,_,logged.returned here,rfl,moved _ rfl,represents.filled place⟩
  | removing i =>
    rw [place] at advanced here
    have filled : ¬Unfilled s i := by simpa [Careful,place] using careful
    simp only [advance,Option.bind_eq_bind,Option.bind_eq_some_iff] at advanced
    obtain ⟨⟨after,f⟩,took,result⟩ := advanced
    cases result
    obtain ⟨slots',applied,now⟩ := represents.removed place filled took
    exact ⟨slots',_,_,logged.took here applied,rfl,moved _ rfl,now⟩
  | removed i f =>
    rw [place] at advanced here
    cases advanced
    exact ⟨slots,_,_,logged.returned here,rfl,moved _ rfl,represents.moved (by simp [place]) (by simp) (by simp)⟩
  | ended =>
    rw [place] at advanced here
    cases advanced
    exact ⟨slots,phase,log,logged,rfl,stays here.symm,represents.moved (by simp [place]) (by simp) (by simp)⟩

end

-- What happened, newest first.
def logOf (history : List (Entry T Unit Unit (Event T (Call P) (Result P)))) : List (Event T (Call P) (Result P)) :=
  history.flatMap Entry.events

-- A run so far: its calls have taken effect one at a time, with this table as the result.
structure Followed (size : Nat) (begun : Nat → Option (Option P)) (slots : Nat → Option (Option P))
    (log : List (Mark T (Call P) (Result P)))
    (m : Machine T Unit Unit (State T P) (Event T (Call P) (Result P))) : Prop where
  logged : Logged (apply size) begun slots (fun u => (m.state.pc u).phase) log
  shown : log.filterMap Mark.event = logOf m.history
  represents : Represents size slots m.state

theorem reached_followed {start : Table P} (empty : ∀ i, i < start.size → start.used i = false)
    (reached : Machine.ReachedBy (program T start) Careful m) :
    ∃ slots log, Followed start.size (fun _ => none) slots log m := by
  induction reached with
  | initial =>
    refine ⟨fun _ => none,[],.start,rfl,rfl,?_,?_,?_,?_,?_⟩
    · intro i inside
      exact empty i inside
    · intro i f inside holds
      cases holds
    · intro u f i place
      cases place
    · intro u v f g slot first
      cases first
    · intro u i place
      cases place
  | @exec m t request after prior careful stepped ih =>
    obtain ⟨slots,log,logged,shown,represents⟩ := ih
    simp only [Machine.step] at stepped
    split at stepped
    · cases stepped
    · rename_i s' op events executed
      simp only [Option.bind_eq_bind,Option.bind_eq_some_iff,Option.some.injEq] at stepped
      obtain ⟨kernel,_,rfl⟩ := stepped
      simp only [program] at executed
      split at executed
      · cases executed
      · rename_i table pc op' events' advanced
        cases executed
        obtain ⟨slots',phase',log',logged',shown',phases',represents'⟩ :=
          step_marks represents (fun _ => rfl) logged careful advanced
        refine ⟨slots',log',?_,?_,represents'⟩
        · rw [funext phases'] at logged'
          exact logged'
        · rw [shown',shown]
          rfl
  | resume prior stepped ih =>
    obtain ⟨slots,log,logged,shown,represents⟩ := ih
    simp only [Machine.step,Option.bind_eq_bind,Option.bind_eq_some_iff] at stepped
    obtain ⟨kernel,_,result⟩ := stepped
    cases result
    exact ⟨slots,log,logged,shown,represents⟩

section
variable {size : Nat} {slots : Nat → Option (Option P)} {phase : T → Phase (Call P) (Result P)}
  {log : List (Mark T (Call P) (Result P))}

-- The pointer was passed to a Put.
def Given (log : List (Mark T (Call P) (Result P))) (f : P) : Prop := ∃ v, .called v (.put (some f)) ∈ log

-- Every pointer in the table, or on its way out of it, was put in.
structure Sourced (slots : Nat → Option (Option P)) (phase : T → Phase (Call P) (Result P))
    (log : List (Mark T (Call P) (Result P))) : Prop where
  slots : ∀ i f, slots i = some (some f) → Given log f
  pending : ∀ u f, phase u = .pending (.put (some f)) → Given log f
  done : ∀ u k f, phase u = .done k (.pointer (some f)) → Given log f
  returned : ∀ u k f, .returned u k (.pointer (some f)) ∈ log → Given log f

omit [DecidableEq T] in
theorem Given.later (given : Given log f) (mark : Mark T (Call P) (Result P)) : Given (mark :: log) f := by
  obtain ⟨v,called⟩ := given
  exact ⟨v,List.mem_cons_of_mem _ called⟩

-- What a call does to a slot, and the pointer it gives.
theorem apply_slots (slots : Nat → Option (Option P)) (k : Call P) (i : Nat) (f : P)
    (holds : (apply size slots k).1 i = some (some f)) : slots i = some (some f) ∨ k = .put (some f) := by
  cases k with
  | put g =>
    simp only [apply] at holds
    split at holds
    · rename_i first _
      by_cases same : i = first
      · subst same
        simp only [Function.update_self,Option.some.injEq] at holds
        exact Or.inr (by rw [holds])
      · simp only [Function.update_of_ne same] at holds
        exact Or.inl holds
    · exact Or.inl holds
  | get j => exact Or.inl holds
  | remove j =>
    simp only [apply] at holds
    split at holds
    · by_cases same : i = j.toNat
      · subst same
        simp at holds
      · simp only [Function.update_of_ne same] at holds
        exact Or.inl holds
    · exact Or.inl holds

theorem apply_pointer (slots : Nat → Option (Option P)) (k : Call P) (f : P)
    (gives : (apply size slots k).2 = .pointer (some f)) : ∃ i, slots i = some (some f) := by
  cases k with
  | put g =>
    simp only [apply] at gives
    split at gives <;> cases gives
  | get j =>
    simp only [apply] at gives
    split at gives
    · simp only [Result.pointer.injEq,Option.join_eq_some_iff] at gives
      exact ⟨_,gives⟩
    · cases gives
  | remove j =>
    simp only [apply] at gives
    split at gives
    · simp only [Result.pointer.injEq,Option.join_eq_some_iff] at gives
      exact ⟨_,gives⟩
    · cases gives

theorem called_sourced (sourced : Sourced slots phase log) (t : T) (k : Call P) :
    Sourced slots (Function.update phase t (.pending k)) (.called t k :: log) := by
  refine ⟨?_,?_,?_,?_⟩
  · intro i f holds
    exact (sourced.slots i f holds).later _
  · intro u f now
    by_cases same : u = t
    · subst same
      simp only [Function.update_self,Phase.pending.injEq] at now
      exact ⟨u,by simp [now]⟩
    · exact (sourced.pending u f (by simpa [same] using now)).later _
  · intro u k' f now
    have differs : u ≠ t := by
      rintro rfl
      simp at now
    exact (sourced.done u k' f (by simpa [differs] using now)).later _
  · intro u k' f present
    exact (sourced.returned u k' f (by simpa using present)).later _

theorem took_sourced (sourced : Sourced slots phase log) (pending : phase t = .pending k) :
    Sourced (apply size slots k).1 (Function.update phase t (.done k (apply size slots k).2))
      (.took t k (apply size slots k).2 :: log) := by
  refine ⟨?_,?_,?_,?_⟩
  · intro i f holds
    rcases apply_slots slots k i f holds with before | rfl
    · exact (sourced.slots i f before).later _
    · exact (sourced.pending t f pending).later _
  · intro u f now
    have differs : u ≠ t := by
      rintro rfl
      simp at now
    exact (sourced.pending u f (by simpa [differs] using now)).later _
  · intro u k' f now
    by_cases same : u = t
    · subst same
      simp only [Function.update_self,Phase.done.injEq] at now
      obtain ⟨i,holds⟩ := apply_pointer slots k f now.2
      exact (sourced.slots i f holds).later _
    · exact (sourced.done u k' f (by simpa [same] using now)).later _
  · intro u k' f present
    exact (sourced.returned u k' f (by simpa using present)).later _

theorem returned_sourced (sourced : Sourced slots phase log) (done : phase t = .done k r) :
    Sourced slots (Function.update phase t .idle) (.returned t k r :: log) := by
  have before : ∀ u next, next ≠ .idle → Function.update phase t .idle u = next → phase u = next := by
    intro u next busy now
    by_cases same : u = t
    · subst same
      exact absurd (by simpa using now.symm) busy
    · simpa [same] using now
  refine ⟨?_,?_,?_,?_⟩
  · intro i f holds
    exact (sourced.slots i f holds).later _
  · intro u f now
    exact (sourced.pending u f (before u _ (by simp) now)).later _
  · intro u k' f now
    exact (sourced.done u k' f (before u _ (by simp) now)).later _
  · intro u k' f present
    rcases List.mem_cons.mp present with new_ | old
    · cases new_
      exact (sourced.done _ _ f done).later _
    · exact (sourced.returned u k' f old).later _

theorem logged_sourced (logged : Logged (apply size) (fun _ => none) slots phase log) : Sourced slots phase log := by
  refine Logged.invariant (fun slots phase log => Sourced slots phase log) ?_ ?_ ?_ ?_ logged
  · exact ⟨by simp,by simp,by simp,by simp⟩
  · exact fun _ _ _ t k sourced _ => called_sourced sourced t k
  · exact fun _ _ _ _ _ sourced pending => took_sourced sourced pending
  · exact fun _ _ _ _ _ _ sourced done => returned_sourced sourced done

end

-- The table under any interleaving in which no step looks into a slot that a Put
-- has taken and not filled yet.
theorem table_linearizable {start : Table P} (size : Nat) (words : List (BitVec 32))
    (sized : words.length = divRoundUp size BitsInWord) (garbage : Nat → Option P)
    (made : Table.new size words sized garbage = some start)
    (reached : Machine.ReachedBy (program T start) Careful m) :
    Linearizable (apply size) (fun _ => none) (logOf m.history) ∧
    (∀ u k f, .returned u k (.pointer (some f)) ∈ logOf m.history →
      ∃ v, .called v (.put (some f)) ∈ logOf m.history) ∧
    ∃ slots log, Followed size (fun _ => none) slots log m := by
  obtain ⟨table,same,sizes,_,empty⟩ := Table.new_empty size words sized garbage
  obtain rfl : start = table := Option.some.inj (made.symm.trans same)
  obtain ⟨slots,log,followed⟩ := reached_followed (by rw [sizes]; exact empty) reached
  rw [sizes] at followed
  refine ⟨⟨slots,_,log,followed.logged,followed.shown⟩,?_,slots,log,followed⟩
  intro u k f returned
  rw [← followed.shown,returned_shown] at returned
  obtain ⟨v,called⟩ := (logged_sourced followed.logged).returned u k f returned
  refine ⟨v,?_⟩
  rw [← followed.shown,List.mem_filterMap]
  exact ⟨_,called,rfl⟩

section
variable {size : Nat} {slots : Nat → Option (Option P)} {phase : T → Phase (Call P) (Result P)}
  {log : List (Mark T (Call P) (Result P))}

-- A Put of the pointer into the slot, and a Remove of it from there, have taken effect.
def PutIn (phase : T → Phase (Call P) (Result P)) (log : List (Mark T (Call P) (Result P))) (i : Nat) (f : Option P) :
    Prop :=
  ∃ u, phase u = .done (.put f) (.slot i) ∨ .returned u (.put f) (.slot i) ∈ log

def TakenOut (phase : T → Phase (Call P) (Result P)) (log : List (Mark T (Call P) (Result P))) (i : Nat)
    (f : Option P) : Prop :=
  ∃ u, phase u = .done (.remove i) (.pointer f) ∨ .returned u (.remove i) (.pointer f) ∈ log

-- A pointer stays where it was put until a Remove has returned it.
def Stays (slots : Nat → Option (Option P)) (phase : T → Phase (Call P) (Result P))
    (log : List (Mark T (Call P) (Result P))) : Prop :=
  ∀ i f, PutIn phase log i f → slots i = some f ∨ TakenOut phase log i f

-- What a call does to a pointer in a slot, and to where a Put says it went.
theorem apply_keeps (slots : Nat → Option (Option P)) (k : Call P) (i : Nat) (f : Option P) (holds : slots i = some f) :
    (apply size slots k).1 i = some f ∨ (k = .remove i ∧ (apply size slots k).2 = .pointer f) := by
  cases k with
  | put g =>
    simp only [apply]
    split
    · rename_i first found
      have free := (List.find?_range_eq_some.mp found).1
      have differs : i ≠ first := by
        rintro rfl
        simp [holds] at free
      exact Or.inl (by simpa [differs] using holds)
    · exact Or.inl holds
  | get j => exact Or.inl holds
  | remove j =>
    simp only [apply]
    split
    · rename_i inside
      by_cases same : i = j.toNat
      · refine Or.inr ⟨?_,?_⟩
        · rw [show j = (i : Int) by omega]
        · rw [← same,holds]
          rfl
      · exact Or.inl (by simpa [same] using holds)
    · exact Or.inl holds

theorem apply_puts (slots : Nat → Option (Option P)) (f : Option P) (i : Nat)
    (gives : (apply size slots (.put f)).2 = .slot i) : (apply size slots (.put f)).1 i = some f := by
  simp only [apply] at gives ⊢
  split
  · rename_i first found
    simp only [found,Result.slot.injEq,Int.natCast_inj] at gives
    simp [gives]
  · rename_i full
    simp only [full,Result.slot.injEq] at gives
    omega

theorem took_stays (stays : Stays slots phase log) (pending : phase t = .pending k) :
    Stays (apply size slots k).1 (Function.update phase t (.done k (apply size slots k).2))
      (.took t k (apply size slots k).2 :: log) := by
  have others : ∀ u k' r, phase u = .done k' r →
      Function.update phase t (.done k (apply size slots k).2) u = .done k' r := by
    intro u k' r done
    have differs : u ≠ t := by
      rintro rfl
      simp [pending] at done
    simpa [differs] using done
  intro i f putIn
  obtain ⟨u,effect⟩ := putIn
  by_cases own : Function.update phase t (.done k (apply size slots k).2) u = .done (.put f) (.slot i) ∧ u = t
  · obtain ⟨now,rfl⟩ := own
    simp only [Function.update_self,Phase.done.injEq] at now
    obtain ⟨rfl,gives⟩ := now
    exact Or.inl (apply_puts slots f i gives)
  · have before : PutIn phase log i f := by
      refine ⟨u,effect.imp ?_ (by simp)⟩
      intro now
      have differs : u ≠ t := fun same => own ⟨now,same⟩
      simpa [differs] using now
    rcases stays i f before with holds | ⟨v,out⟩
    · rcases apply_keeps slots k i f holds with still | ⟨removes,gives⟩
      · exact Or.inl still
      · exact Or.inr ⟨t,Or.inl (by rw [Function.update_self,removes] at *; rw [gives])⟩
    · exact Or.inr ⟨v,out.imp (others v _ _) (by simp)⟩

theorem logged_stays (logged : Logged (apply size) (fun _ => none) slots phase log) : Stays slots phase log := by
  refine Logged.invariant (fun slots phase log => Stays slots phase log) ?_ ?_ ?_ ?_ logged
  · rintro i f ⟨u,done | returned⟩
    · cases done
    · cases returned
  · intro slots phase log t k stays idle i f putIn
    have same : ∀ u k' r, Function.update phase t (.pending k) u = .done k' r ↔ phase u = .done k' r := by
      intro u k' r
      by_cases self : u = t
      · subst self
        simp [idle]
      · simp [self]
    simpa [Stays,PutIn,TakenOut,same] using stays i f (by simpa [PutIn,same] using putIn)
  · exact fun _ _ _ _ _ stays pending => took_stays stays pending
  · intro slots phase log t k r stays done i f putIn
    -- What was done is now returned.
    have same : ∀ u k' r', (Function.update phase t .idle u = .done k' r' ∨ .returned u k' r' ∈ .returned t k r :: log) ↔
        (phase u = .done k' r' ∨ .returned u k' r' ∈ log) := by
      intro u k' r'
      by_cases self : u = t
      · subst self
        simp [done,eq_comm]
      · simp [self]
    simp only [Stays,PutIn,TakenOut,same] at stays putIn ⊢
    exact stays i f putIn

-- As many calls as returns, but for the call a thread is in.
def calls (u : T) (history : List (Event T (Call P) (Result P))) : Nat :=
  history.countP fun | .called v _ => v = u | _ => false

def returns (u : T) (history : List (Event T (Call P) (Result P))) : Nat :=
  history.countP fun | .returned v _ _ => v = u | _ => false

-- The thread is between two calls, or in one.
def Between (u : T) (phase : T → Phase (Call P) (Result P)) (history : List (Event T (Call P) (Result P))) : Prop :=
  (phase u = .idle ∧ calls u history = returns u history) ∨
    (phase u ≠ .idle ∧ calls u history = returns u history + 1)

theorem logged_between (logged : Logged (apply size) (fun _ => none) slots phase log) (u : T) :
    Between u phase (log.filterMap Mark.event) := by
  refine Logged.invariant (fun _ phase log => Between u phase (log.filterMap Mark.event)) ?_ ?_ ?_ ?_ logged
  · exact Or.inl ⟨rfl,rfl⟩
  · intro _ phase log t k counts idle
    by_cases self : u = t
    · subst self
      have before := counts.resolve_right (by simp [idle])
      exact Or.inr ⟨by simp,by simpa [calls,returns,Mark.event] using before.2⟩
    · simpa [Between,calls,returns,Mark.event,self,Ne.symm self] using counts
  · intro _ phase log t k counts pending
    by_cases self : u = t
    · subst self
      have before := counts.resolve_left (by simp [pending])
      exact Or.inr ⟨by simp,by simpa [Mark.event,List.filterMap_cons] using before.2⟩
    · simpa [Between,Mark.event,List.filterMap_cons,self] using counts
  · intro _ phase log t k r counts done
    by_cases self : u = t
    · subst self
      have before := counts.resolve_left (by simp [done])
      exact Or.inl ⟨by simp,by simpa [calls,returns,Mark.event] using before.2⟩
    · simpa [Between,calls,returns,Mark.event,self,Ne.symm self] using counts

-- Two pointers that went into one slot, and out of it neither.
theorem not_linearizable (history : List (Event T (Call P) (Result P))) (i : Nat) (f g : Option P) (differ : f ≠ g)
    (balanced : ∀ u, calls u history = returns u history)
    (first : .returned u (.put f) (.slot i) ∈ history) (second : .returned v (.put g) (.slot i) ∈ history)
    (kept : ∀ w h, .returned w (.remove i) (.pointer h) ∈ history → h ≠ f ∧ h ≠ g) :
    ¬Linearizable (apply size) (fun _ => none) history := by
  rintro ⟨slots,phase,log,logged,shown⟩
  subst shown
  have idle : ∀ w, phase w = .idle := by
    intro w
    rcases logged_between logged w with ⟨idle,_⟩ | ⟨_,inside⟩
    · exact idle
    · have same := balanced w
      omega
  have there : ∀ h, PutIn phase log i h → h = f ∨ h = g → slots i = some h := by
    intro h putIn which
    refine (logged_stays logged i h putIn).resolve_right ?_
    rintro ⟨w,done | returned⟩
    · simp [idle] at done
    · have apart := kept w h ((returned_shown log).mpr returned)
      rcases which with rfl | rfl
      · exact apart.1 rfl
      · exact apart.2 rfl
  have one := there f ⟨u,Or.inr ((returned_shown log).mp first)⟩ (Or.inl rfl)
  have two := there g ⟨v,Or.inr ((returned_shown log).mp second)⟩ (Or.inr rfl)
  exact differ (Option.some.inj (one.symm.trans two))

end

-- Two slots, the pointers 7 and 9. Thread 0 takes slot 0 for 7 and is preempted,
-- thread 1 removes what is not there yet, thread 2 puts 9 into slot 0, and then
-- thread 0 stores 7 over it.
def overwritten : List (Choice Nat (Request Nat)) :=
  [.exec 0 (.call (.put (some 7))),.exec 0 .finish,
    .exec 1 (.call (.remove 0)),.exec 1 .finish,.exec 1 .finish,
    .exec 2 (.call (.put (some 9))),.exec 2 .finish,.exec 2 .finish,
    .exec 0 .finish]

def twoSlots : Table Nat := ⟨2,⟨2,[0],rfl⟩,fun _ => none,rfl⟩

theorem table_overwritten :
    ∃ m, (Machine.initial (program Nat twoSlots)).follow (program Nat twoSlots) overwritten = some m ∧
      ¬Linearizable (apply 2) (fun _ => none) (logOf m.history) := by
  refine ⟨_,rfl,?_⟩
  change ¬Linearizable (apply 2) (fun _ => none) [.returned 0 (.put (some 7)) (.slot 0),
    .returned 2 (.put (some 9)) (.slot 0),.called 2 (.put (some 9)),.returned 1 (.remove 0) (.pointer none),
    .called 1 (.remove 0),.called 0 (.put (some 7))]
  refine not_linearizable (u := 0) (v := 2) _ 0 (some 7) (some 9) (by decide) ?_ (by decide) (by decide) ?_
  · intro u
    simp only [calls,returns,List.countP_cons,List.countP_nil]
    omega
  · intro w h removed
    obtain ⟨_,rfl⟩ : w = 1 ∧ h = none := by simpa using removed
    exact ⟨by decide,by decide⟩

-- A Get after the Put it asks for is over.
theorem table_linearizable_after :
    ∃ m, Machine.ReachedBy (program Nat twoSlots) Careful m ∧
      logOf m.history = [.returned 1 (.get 0) (.pointer (some 7)),.called 1 (.get 0),
        .returned 0 (.put (some 7)) (.slot 0),.called 0 (.put (some 7))] ∧
      Linearizable (apply 2) (fun _ => none) (logOf m.history) := by
  have one : Machine.ReachedBy (program Nat twoSlots) Careful _ :=
    .exec .initial (show Careful _ 0 (.call (.put (some 7))) from fun i wrong => by cases wrong) rfl
  have two := one.exec (show Careful _ 0 .finish from trivial) rfl
  have three := two.exec (show Careful _ 0 .finish from trivial) rfl
  have empty : ∀ u, Function.update (Function.update (Function.update (fun _ : Nat => (Pc.outside : Pc Nat)) 0
      (.putting (some 7))) 0 (.storing (some 7) 0)) 0 .outside u = .outside := by
    intro u
    by_cases same : u = 0 <;> simp [same]
  have four := three.exec (show Careful _ 1 (.call (.get 0)) from by
    rintro i - ⟨u,f,filling⟩
    exact absurd ((empty u).symm.trans filling) (by simp)) rfl
  refine ⟨_,four,rfl,?_⟩
  exact (table_linearizable 2 [0] rfl (fun _ => none) rfl four).1

end Nachos.TableRuns
