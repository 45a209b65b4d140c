import Nachos.Semaphores
import Mathlib.Data.List.Induction

-- The keyboard of console.cc, and a reader that calls P on readAvail and then GetChar
-- for each character, as ConsoleTest does.
namespace Nachos.ConsoleInput

-- A char has a sign. `incoming` is EOF where no character is buffered.
def EOF : Int := -1

-- `passed`: the reader is behind P and in front of GetChar. `file` is what has not been
-- read of the keyboard file, `got` what GetChar has returned.
structure State where
  kernel : Semaphores Unit Unit
  incoming : BitVec 8
  file : List (BitVec 8)
  passed : Bool
  got : List (BitVec 8)

def initial (stream : List (BitVec 8)) : State := ⟨.initial fun _ => 0,.ofInt 8 EOF,stream,false,[]⟩

-- The poll with what PollFile gives, P, the return of a Sleep in P, and GetChar.
inductive Action where
  | poll (typed : Bool)
  | p
  | resume
  | getChar
  deriving DecidableEq, Repr

-- PollFile is not true behind the last byte.
def CheckCharAvail (s : State) (typed : Bool) : Option State :=
  if s.incoming.toInt ≠ EOF ∨ typed = false then some s
  else match s.file with
    | [] => none
    | c :: rest => do
      let kernel ← s.kernel.step (.handler ())
      some {s with incoming := c, file := rest, kernel}

def GetChar (s : State) : State :=
  {s with got := s.got ++ [s.incoming], incoming := .ofInt 8 EOF, passed := false}

def step (s : State) : Action → Option State
  | .poll typed => CheckCharAvail s typed
  | .p =>
    if s.passed then none
    else do
      let kernel ← s.kernel.step (.p () ())
      some {s with kernel, passed := kernel.inside () = none}
  | .resume => do
    let kernel ← s.kernel.step (.resume ())
    some {s with kernel, passed := kernel.inside () = none}
  | .getChar => if s.passed then some (GetChar s) else none

inductive Reached (stream : List (BitVec 8)) : State → Prop where
  | initial : Reached stream (initial stream)
  | step (before : Reached stream s) (stepped : step s action = some after) : Reached stream after

-- The arrivals announced by V that no P has taken.
def units (k : Semaphores Unit Unit) : Int := k.completedV () - k.completedP ()

-- The arrivals that GetChar has not answered.
def State.outstanding (s : State) : Int := units s.kernel + if s.passed then 1 else 0

-- What the reader has is the beginning of the stream, what it lacks of the part that has
-- been read is as much as is announced to it, and where that is something it is awake.
def Delivered (stream : List (BitVec 8)) (s : State) : Prop :=
  (∃ pending : List (BitVec 8), (pending.length : Int) = s.outstanding ∧ s.got ++ pending ++ s.file = stream) ∧
    (s.kernel.status () = .BLOCKED → s.outstanding = 0)

-- Nothing but the byte of EOF comes behind it, and it comes less often than brings the
-- int of the semaphore back to 0.
def Clean (stream : List (BitVec 8)) : Prop :=
  (∀ before c after, stream = before ++ 0xff :: c :: after → c = 0xff) ∧ stream.count 0xff < 2 ^ 32

section
variable {stream : List (BitVec 8)} {s after : State} {c : BitVec 8} {typed : Bool} {k k' : Semaphores Unit Unit}

theorem clean_without (none : 0xff ∉ stream) : Clean stream := by
  refine ⟨?_,by rw [List.count_eq_zero.mpr none]; decide⟩
  rintro before c after rfl
  simp at none

theorem empty_iff (c : BitVec 8) : c.toInt = EOF ↔ c = 0xff := by
  rw [← BitVec.toInt_inj]
  rfl

-- The int has the units but for whole turns, and the reader is awake and not in the queue,
-- or the only one in it and without a unit.
structure Rests (k : Semaphores Unit Unit) : Prop where
  books : (k.semaphore ()).value = Signed.wrap 32 (units k)
  queue : (k.semaphore ()).queue = if k.status () = .BLOCKED then [()] else []
  asleep : k.status () = .BLOCKED → (k.semaphore ()).value = 0 ∧ k.inside () = some ()

theorem initial_rests : Rests (.initial fun _ => 0) := ⟨rfl,rfl,fun wrong => by cases wrong⟩

-- P takes a unit, or sleeps on a semaphore without one.
theorem p_value (rests : Rests k) (ready : k.status () = .READY) : Rests (k.p () ()) ∧
    (((k.p () ()).inside () = none ∧ units (k.p () ()) = units k - 1 ∧ (k.semaphore ()).value ≠ 0 ∧
      ((k.p () ()).semaphore ()).value = Signed.wrap 32 ((k.semaphore ()).value - 1)) ∨
    ((k.p () ()).inside () = some () ∧ units (k.p () ()) = units k ∧
      ((k.p () ()).semaphore ()).value = (k.semaphore ()).value)) := by
  obtain ⟨books,queue,_⟩ := rests
  rw [ready,if_neg (by decide)] at queue
  by_cases none : (k.semaphore ()).value = 0
  · have slept : k.p () () = {k with
        semaphore := Function.update k.semaphore () ⟨0,[()]⟩
        status := Function.update k.status () .BLOCKED
        inside := Function.update k.inside () (some ())} := by
      simp [Semaphores.p,Semaphore.p,none,queue]
    rw [none] at books
    rw [slept]
    exact ⟨⟨by simpa [units] using books,by simp,by simp⟩,.inr (by simp [none,units])⟩
  · have took : k.p () () = {k with
        semaphore := Function.update k.semaphore () ⟨Signed.wrap 32 ((k.semaphore ()).value - 1),[]⟩
        inside := Function.update k.inside () Option.none
        completedP := Function.update k.completedP () (k.completedP () + 1)} := by
      simp [Semaphores.p,Semaphore.p,none,queue]
    have less : units (k.p () ()) = units k - 1 := by
      simp [took,units]
      omega
    refine ⟨⟨?_,by simp [took,ready],by simp [took,ready]⟩,.inl ⟨by simp [took],less,none,by simp [took]⟩⟩
    rw [less,took]
    simp only [Function.update_self,books,Int.sub_eq_add_neg]
    exact Signed.wrap_add le_rfl _ _

theorem v_value (rests : Rests k) : Rests (k.v ()) ∧ units (k.v ()) = units k + 1 ∧ (k.v ()).inside = k.inside ∧
    ((k.v ()).semaphore ()).value = Signed.wrap 32 ((k.semaphore ()).value + 1) := by
  obtain ⟨books,queue,_⟩ := rests
  have wraps : Signed.wrap 32 ((k.semaphore ()).value + 1) = Signed.wrap 32 (units k + 1) := by
    rw [books]
    exact Signed.wrap_add le_rfl _ _
  cases status : k.status () with
  | BLOCKED =>
    rw [status,if_pos rfl] at queue
    have raised : units (k.v ()) = units k + 1 := by
      simp [Semaphores.v,Semaphore.v,Semaphores.readyToRun,queue,units]
      omega
    refine ⟨⟨by rw [raised,← wraps]; simp [Semaphores.v,Semaphore.v,Semaphores.readyToRun,queue],?_,?_⟩,raised,?_,?_⟩ <;>
      simp [Semaphores.v,Semaphore.v,Semaphores.readyToRun,queue]
  | READY =>
    rw [status,if_neg (by decide)] at queue
    have raised : units (k.v ()) = units k + 1 := by
      simp [Semaphores.v,Semaphore.v,Semaphores.readyToRun,queue,units]
      omega
    refine ⟨⟨by rw [raised,← wraps]; simp [Semaphores.v,Semaphore.v,Semaphores.readyToRun,queue],?_,?_⟩,raised,?_,?_⟩ <;>
      simp [Semaphores.v,Semaphore.v,Semaphores.readyToRun,queue,status]

-- The characters that are announced: the one in the buffer, or some of EOF.
def announced (s : State) (n : Nat) : List (BitVec 8) :=
  if s.incoming = 0xff then List.replicate n 0xff else [s.incoming]

structure Kept (stream : List (BitVec 8)) (s : State) (n : Nat) : Prop where
  count : (n : Int) = s.outstanding
  rests : Rests s.kernel
  inside : s.passed = true → s.kernel.inside () = none ∧ n ≠ 0
  one : s.incoming ≠ 0xff → n = 1
  chars : s.got ++ announced s n ++ s.file = stream

theorem initial_kept (stream : List (BitVec 8)) : Kept stream (initial stream) 0 :=
  ⟨rfl,initial_rests,fun wrong => (by cases wrong),fun wrong => absurd rfl wrong,rfl⟩

theorem announced_length (kept : Kept stream s n) : (announced s n).length = n := by
  unfold announced
  split
  · exact List.length_replicate
  · rename_i there
    rw [kept.one there]
    rfl

-- The semaphore is at 0 only where nothing is announced.
theorem kept_small (clean : Clean stream) (kept : Kept stream s n) : n < 2 ^ 32 := by
  by_cases empty : s.incoming = 0xff
  · have chars := kept.chars
    rw [announced,if_pos empty] at chars
    have bound := clean.2
    rw [← chars,List.count_append,List.count_append,List.count_replicate_self] at bound
    omega
  · rw [kept.one empty]
    decide

theorem kept_empty (clean : Clean stream) (kept : Kept stream s n) (outside : s.passed = false)
    (zero : (s.kernel.semaphore ()).value = 0) : n = 0 := by
  have count := kept.count
  have small := kept_small clean kept
  simp only [State.outstanding,outside,Bool.false_eq_true,if_false,Int.add_zero] at count
  rw [kept.rests.books,← count] at zero
  exact Int.ofNat_eq_zero.mp (Signed.wrap_zero (Int.natCast_nonneg n) (by exact_mod_cast small) zero)

-- P changes what the reader waits for, not what is announced.
theorem p_kept (kept : Kept stream s n) (ready : s.kernel.status () = .READY) (outside : s.passed = false) :
    Kept stream {s with kernel := s.kernel.p () (), passed := (s.kernel.p () ()).inside () = none} n := by
  have count := kept.count
  simp only [State.outstanding,outside,Bool.false_eq_true,if_false,Int.add_zero] at count
  obtain ⟨rests,⟨free,less,some_,_⟩ | ⟨asleep,same,_⟩⟩ := p_value kept.rests ready
  · refine ⟨?_,rests,fun _ => ⟨free,?_⟩,kept.one,kept.chars⟩
    · simp only [State.outstanding,free,less,decide_true,if_true]
      omega
    · rintro rfl
      rw [kept.rests.books,← count] at some_
      exact some_ rfl
  · refine ⟨?_,rests,fun through => (by simp [asleep] at through),kept.one,kept.chars⟩
    simp only [State.outstanding,asleep,same,reduceCtorEq,decide_false,Bool.false_eq_true,if_false,Int.add_zero]
    exact count

theorem getChar_kept (kept : Kept stream s n) (through : s.passed = true) : Kept stream (GetChar s) (n - 1) := by
  obtain ⟨count,rests,inside,one,chars⟩ := kept
  have positive : 1 ≤ n := Nat.one_le_iff_ne_zero.mpr (inside through).2
  refine ⟨?_,rests,fun wrong => (by simp [GetChar] at wrong),fun wrong => absurd rfl wrong,?_⟩
  · simp only [State.outstanding,GetChar,through,if_true,Bool.false_eq_true,if_false] at *
    omega
  · rw [← chars]
    have buffer : (GetChar s).incoming = 0xff := rfl
    rw [announced,announced,if_pos buffer]
    by_cases empty : s.incoming = 0xff
    · obtain ⟨m,rfl⟩ := Nat.exists_eq_add_of_le positive
      simp [GetChar,empty,Nat.add_comm 1 m,List.replicate_succ]
    · rw [if_neg empty,one empty]
      simp [GetChar]

-- A byte that is read while others are announced is the byte of EOF like them.
theorem arrives_kept (clean : Clean stream) (kept : Kept stream s n) (empty : s.incoming = 0xff) (more : s.file = c :: rest) :
    Kept stream {s with incoming := c, file := rest, kernel := s.kernel.v ()} (n + 1) := by
  obtain ⟨count,rests,inside,one,chars⟩ := kept
  rw [announced,if_pos empty,more] at chars
  have same : n ≠ 0 → c = 0xff := by
    intro some_
    obtain ⟨m,rfl⟩ := Nat.exists_eq_succ_of_ne_zero some_
    refine clean.1 (s.got ++ List.replicate m 0xff) c rest ?_
    rw [← chars,List.replicate_succ']
    simp
  obtain ⟨still,raised,place,_⟩ := v_value rests
  refine ⟨?_,still,?_,?_,?_⟩
  · simp only [State.outstanding,raised] at *
    omega
  · intro through
    rw [place]
    exact ⟨(inside through).1,Nat.succ_ne_zero n⟩
  · intro differs
    by_cases first : n = 0
    · omega
    · exact absurd (same first) differs
  · rw [← chars,announced]
    by_cases first : n = 0
    · subst first
      by_cases this : c = 0xff
      · rw [if_pos this,this]
        simp
      · rw [if_neg this]
        simp
    · rw [same first]
      simp [List.replicate_succ']

theorem step_kept (clean : Clean stream) (kept : Kept stream s n) (stepped : step s action = some after) :
    ∃ m, Kept stream after m := by
  cases action with
  | poll typed =>
    simp only [step,CheckCharAvail] at stepped
    split at stepped
    · cases stepped
      exact ⟨n,kept⟩
    · rename_i room
      rw [not_or,not_not,empty_iff] at room
      split at stepped
      · cases stepped
      · rename_i c rest more
        cases stepped
        exact ⟨n + 1,arrives_kept clean kept room.1 more⟩
  | p =>
    simp only [step] at stepped
    split at stepped
    · cases stepped
    · rename_i outside
      obtain ⟨k,stepped',same⟩ := Option.bind_eq_some_iff.mp stepped
      cases same
      simp only [Semaphores.step] at stepped'
      split at stepped' <;> cases stepped'
      rename_i awake
      exact ⟨n,p_kept kept awake.1 (by simpa using outside)⟩
  | resume =>
    simp only [step] at stepped
    obtain ⟨k,stepped',same⟩ := Option.bind_eq_some_iff.mp stepped
    cases same
    simp only [Semaphores.step] at stepped'
    split at stepped'
    · cases stepped'
    · rename_i place
      split at stepped' <;> cases stepped'
      rename_i ready
      refine ⟨n,p_kept kept ready ?_⟩
      cases through : s.passed with
      | false => rfl
      | true =>
        rw [(kept.inside through).1] at place
        cases place
  | getChar =>
    simp only [step] at stepped
    split at stepped <;> cases stepped
    rename_i through
    exact ⟨n - 1,getChar_kept kept through⟩

theorem reached_kept (clean : Clean stream) (reached : Reached stream s) : ∃ n, Kept stream s n := by
  induction reached with
  | initial => exact ⟨0,initial_kept stream⟩
  | step _ stepped ih =>
    obtain ⟨n,kept⟩ := ih
    exact step_kept clean kept stepped

-- The reader is in front of P, with v units for it.
structure Idle (s : State) (v : Int) : Prop where
  units : s.kernel.semaphore () = ⟨v,[]⟩
  ready : s.kernel.status () = .READY
  inside : s.kernel.inside () = none
  outside : s.passed = false

theorem initial_idle (stream : List (BitVec 8)) : Idle (initial stream) 0 := ⟨rfl,rfl,rfl,rfl⟩

-- A poll that finds the buffer empty, or takes it to be.
theorem idle_polls (idle : Idle s v) (reached : Reached stream s) (empty : s.incoming = 0xff) (more : s.file = c :: rest) :
    ∃ after, Reached stream after ∧ Idle after (Signed.wrap 32 (v + 1)) ∧ after.incoming = c ∧ after.file = rest ∧ after.got = s.got := by
  have kernel : s.kernel.v () = {s.kernel with
      semaphore := Function.update s.kernel.semaphore () ⟨Signed.wrap 32 (v + 1),[]⟩
      completedV := Function.update s.kernel.completedV () (s.kernel.completedV () + 1)} := by
    simp only [Semaphores.v,Semaphore.v,idle.units,Semaphores.readyToRun]
  have read : step s (.poll true) = some {s with incoming := c, file := rest, kernel := s.kernel.v ()} := by
    have room : ¬(s.incoming.toInt ≠ EOF ∨ true = false) := by
      rw [not_or,not_not,empty_iff]
      exact ⟨empty,by decide⟩
    simp only [step,CheckCharAvail,if_neg room,more]
    rfl
  refine ⟨_,reached.step read,⟨?_,?_,?_,idle.outside⟩,rfl,rfl,rfl⟩
  · simp [kernel]
  · simp [kernel,idle.ready]
  · simp [kernel,idle.inside]

-- P and GetChar, with a unit there.
theorem idle_takes (idle : Idle s v) (reached : Reached stream s) (some_ : v ≠ 0) :
    ∃ after, Reached stream after ∧ Idle after (Signed.wrap 32 (v - 1)) ∧ after.incoming = 0xff ∧ after.file = s.file ∧
      after.got = s.got ++ [s.incoming] := by
  have kernel : s.kernel.p () () = {s.kernel with
      semaphore := Function.update s.kernel.semaphore () ⟨Signed.wrap 32 (v - 1),[]⟩
      inside := Function.update s.kernel.inside () none
      completedP := Function.update s.kernel.completedP () (s.kernel.completedP () + 1)} := by
    simp only [Semaphores.p,Semaphore.p,idle.units,if_neg some_,Bool.false_eq_true,if_false]
  have passes : step s .p = some {s with kernel := s.kernel.p () (), passed := true} := by
    have goes : s.kernel.step (.p () ()) = some (s.kernel.p () ()) := by
      simp only [Semaphores.step,idle.ready,idle.inside,and_self,if_true]
    have free : (s.kernel.p () ()).inside () = none := by simp [kernel]
    simp only [step,idle.outside,Bool.false_eq_true,if_false,goes,Option.bind_eq_bind,Option.bind_some,free,decide_true]
  have takes : step {s with kernel := s.kernel.p () (), passed := true} .getChar =
      some (GetChar {s with kernel := s.kernel.p () (), passed := true}) := rfl
  refine ⟨_,(reached.step passes).step takes,⟨?_,?_,?_,rfl⟩,rfl,rfl,rfl⟩
  · simp [GetChar,kernel]
  · simp [GetChar,kernel,idle.ready]
  · simp [GetChar,kernel]

-- One byte after the other, each of them taken before the next is read.
theorem idle_delivers (before : List (BitVec 8)) (idle : Idle s 0) (reached : Reached stream s) (empty : s.incoming = 0xff)
    (more : s.file = before ++ rest) :
    ∃ after, Reached stream after ∧ Idle after 0 ∧ after.incoming = 0xff ∧ after.file = rest ∧
      after.got = s.got ++ before := by
  induction before generalizing s with
  | nil => exact ⟨s,reached,idle,empty,more,by simp⟩
  | cons c before ih =>
    obtain ⟨t,reachedT,idleT,buffered,fileT,gotT⟩ := idle_polls idle reached empty more
    obtain ⟨u,reachedU,idleU,emptyU,fileU,gotU⟩ := idle_takes idleT reachedT (by decide)
    obtain ⟨after,done,idle',empty',file,got⟩ := ih idleU reachedU emptyU (fileU.trans fileT)
    exact ⟨after,done,idle',empty',file,by rw [got,gotU,gotT,buffered]; simp⟩

-- Bytes of EOF, all of them read before P.
theorem idle_fills (m : Nat) (idle : Idle s (Signed.wrap 32 v)) (reached : Reached stream s) (empty : s.incoming = 0xff)
    (more : s.file = List.replicate m 0xff ++ rest) :
    ∃ after, Reached stream after ∧ Idle after (Signed.wrap 32 (v + m)) ∧ after.file = rest ∧ after.got = s.got := by
  induction m generalizing s v with
  | zero => exact ⟨s,reached,by simpa using idle,more,rfl⟩
  | succ m ih =>
    rw [List.replicate_succ,List.cons_append] at more
    obtain ⟨t,reachedT,idleT,buffered,fileT,gotT⟩ := idle_polls idle reached empty more
    rw [Signed.wrap_add le_rfl] at idleT
    obtain ⟨after,done,idle',file,got⟩ := ih idleT reachedT buffered fileT
    refine ⟨after,done,?_,file,got.trans gotT⟩
    rw [Nat.cast_succ,Int.add_comm (m : Int) 1,← Int.add_assoc]
    exact idle'

-- P on a semaphore at 0.
theorem idle_sleeps (idle : Idle s 0) (reached : Reached stream s) :
    ∃ after, Reached stream after ∧ after.kernel.status () = .BLOCKED ∧ after.file = s.file ∧ after.got = s.got := by
  have kernel : s.kernel.p () () = {s.kernel with
      semaphore := Function.update s.kernel.semaphore () ⟨0,[()]⟩
      status := Function.update s.kernel.status () .BLOCKED
      inside := Function.update s.kernel.inside () (some ())} := by
    simp only [Semaphores.p,Semaphore.p,idle.units,if_true,List.nil_append]
  have goes : s.kernel.step (.p () ()) = some (s.kernel.p () ()) := by
    simp only [Semaphores.step,idle.ready,idle.inside,and_self,if_true]
  have sleeps : step s .p = some {s with kernel := s.kernel.p () (), passed := (s.kernel.p () ()).inside () = none} := by
    simp only [step,idle.outside,Bool.false_eq_true,if_false,goes,Option.bind_eq_bind,Option.bind_some]
  exact ⟨_,reached.step sleeps,by simp [kernel],rfl,rfl⟩

-- Bytes of EOF that bring the semaphore back to 0 before the reader comes leave it asleep.
theorem forgotten (before rest : List (BitVec 8)) {m : Nat} (turns : Signed.wrap 32 m = 0) :
    ∃ s, Reached (before ++ (List.replicate m 0xff ++ rest)) s ∧ s.kernel.status () = .BLOCKED ∧ s.file = rest ∧
      s.got = before := by
  obtain ⟨s,reachedS,idleS,emptyS,fileS,gotS⟩ :=
    idle_delivers before (initial_idle _) (Reached.initial : Reached (before ++ (List.replicate m 0xff ++ rest)) _) rfl rfl
  obtain ⟨t,reachedT,idleT,fileT,gotT⟩ := idle_fills (v := 0) m idleS reachedS emptyS fileS
  rw [Int.zero_add,turns] at idleT
  obtain ⟨u,reachedU,blocked,fileU,gotU⟩ := idle_sleeps idleT reachedT
  exact ⟨u,reachedU,blocked,fileU.trans fileT,by rw [gotU,gotT,gotS]; rfl⟩

theorem behind_all {rest : List (BitVec 8)} (last : ∀ before c after, 0xff :: rest = before ++ 0xff :: c :: after → c = 0xff) :
    ∀ c ∈ rest, c = 0xff := by
  induction rest with
  | nil => simp
  | cons c rest ih =>
    obtain rfl := last [] c rest rfl
    intro d member
    rcases List.mem_cons.mp member with rfl | member
    · rfl
    · exact ih (fun before d after same => last (0xff :: before) d after (by rw [same]; rfl)) d member

-- All bytes of EOF stand at the end.
theorem end_replicate (last : ∀ before c after, stream = before ++ 0xff :: c :: after → c = 0xff) :
    ∃ before, stream = before ++ List.replicate (stream.count 0xff) 0xff := by
  induction stream with
  | nil => exact ⟨[],rfl⟩
  | cons c rest ih =>
    by_cases same : c = 0xff
    · subst same
      have all := List.eq_replicate_iff.mpr ⟨rfl,behind_all last⟩
      refine ⟨[],?_⟩
      rw [List.nil_append,List.count_cons_self]
      nth_rewrite 1 [all]
      rw [← List.replicate_succ]
      congr 2
      rw [all]
      simp
    · obtain ⟨before,tail⟩ := ih fun before d after same => last (c :: before) d after (by rw [same]; rfl)
      refine ⟨c :: before,?_⟩
      rw [List.count_cons_of_ne same,List.cons_append,← tail]

-- A byte of EOF that another one comes behind is overwritten.
theorem overwritten (before after : List (BitVec 8)) (c : BitVec 8) :
    ∃ s, Reached (before ++ 0xff :: c :: after) s ∧ s.got = before ++ [c] := by
  obtain ⟨s,reachedS,idleS,emptyS,fileS,gotS⟩ :=
    idle_delivers before (initial_idle _) (Reached.initial : Reached (before ++ 0xff :: c :: after) _) rfl rfl
  obtain ⟨t,reachedT,idleT,bufferT,fileT,gotT⟩ := idle_polls idleS reachedS emptyS fileS
  obtain ⟨u,reachedU,idleU,bufferU,_,gotU⟩ := idle_polls idleT reachedT bufferT fileT
  obtain ⟨v,reachedV,_,_,_,gotV⟩ := idle_takes idleU reachedU (by decide)
  exact ⟨v,reachedV,by rw [gotV,gotU,gotT,gotS,bufferU]; rfl⟩

end

-- A stream arrives unchanged in all runs exactly when nothing else comes behind the byte
-- that stands for an empty buffer, nor that byte as often as makes the semaphore come round.
theorem input_unchanged_iff (stream : List (BitVec 8)) :
    (∀ s, Reached stream s → Delivered stream s) ↔ Clean stream := by
  constructor
  · intro all
    have last : ∀ before c after, stream = before ++ 0xff :: c :: after → c = 0xff := by
      rintro before c after rfl
      obtain ⟨s,reached,got⟩ := overwritten before after c
      obtain ⟨⟨pending,_,same⟩,_⟩ := all s reached
      rw [got,List.append_assoc,List.append_assoc] at same
      have behind := List.append_cancel_left same
      exact (List.cons.inj behind).1
    refine ⟨last,?_⟩
    by_contra many
    obtain ⟨before,split⟩ := end_replicate last
    obtain ⟨extra,more⟩ := Nat.exists_eq_add_of_le (Nat.le_of_not_lt many)
    rw [more,List.replicate_add] at split
    obtain ⟨s,reached,blocked,file,got⟩ := forgotten before (List.replicate extra 0xff) (m := 2 ^ 32) Int.bmod_self
    rw [← split] at reached
    obtain ⟨⟨pending,count,same⟩,rests⟩ := all s reached
    rw [rests blocked,Int.natCast_eq_zero] at count
    rw [List.eq_nil_of_length_eq_zero count,file,got,split] at same
    have lengths := congrArg List.length same
    simp only [List.length_append,List.length_replicate,List.length_nil] at lengths
    omega
  · intro clean s reached
    obtain ⟨n,kept⟩ := reached_kept clean reached
    refine ⟨⟨announced s n,by rw [announced_length kept]; exact kept.count,kept.chars⟩,fun blocked => ?_⟩
    obtain ⟨zero,place⟩ := kept.rests.asleep blocked
    cases through : s.passed with
    | false => rw [← kept.count,kept_empty clean kept through zero]; rfl
    | true =>
      rw [(kept.inside through).1] at place
      cases place

-- The byte of EOF and an a, both of them polled before the reader runs.
theorem input_swapped : ∃ s, Reached [0xff,0x61] s ∧ ¬Delivered [0xff,0x61] s := by
  obtain ⟨s,reached,got⟩ := overwritten [] [] 0x61
  refine ⟨s,reached,?_⟩
  rintro ⟨⟨pending,_,same⟩,_⟩
  rw [got] at same
  cases same

end Nachos.ConsoleInput
