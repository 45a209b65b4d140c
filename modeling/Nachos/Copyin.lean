import Nachos.Library.Loop
import Nachos.Mips.Stores

-- copyin of exception.cc, with the way an exception goes back into the kernel.
namespace Nachos.Copyin
open Nachos.Mips

-- What ends Nachos. `halted` has the machine where interrupt->Halt is called, which
-- cleans up and exits.
inductive Ended where
  | halted (m : Machine)
  | aborted (why : Abort)

section
variable (systemCall : Machine → Except Ended Machine) (bigEndian : Bool)

-- The system calls of user programs are a parameter; every other exception halts.
def ExceptionHandler (which : ExceptionType) (m : Machine) : Except Ended Machine :=
  if which = .SyscallException then systemCall m else .error (.halted m)

-- ReadMem of one byte as the kernel calls it: the value is `none` for FALSE, after the
-- handler has returned.
def ReadMem (m : Machine) (addr : BitVec 32) : Except Ended (Option (BitVec 32) × Machine) :=
  match m.readMem bigEndian addr 1 with
  | .ok (value,after) => .ok (some value,after)
  | .error (.aborted why) => .error (.aborted why)
  | .error (.raised which entry) => match ExceptionHandler systemCall which entry with
    | .error why => .error why
    | .ok after => .ok (none,after)

-- The variables of a call. `paddr` is what the pointer of that name points to.
structure Frame where
  machine : Machine
  vaddr : BitVec 32
  n : Int
  buf : Int → BitVec 8
  paddr : BitVec 32
  result : Bool

-- Where the call is: at `while ( n >= 0 && n < len)`, at a ReadMem, at `while(!result)`,
-- at the store into buf.
inductive Point where
  | head
  | read
  | again
  | store
  deriving DecidableEq, Repr

inductive Outcome where
  | returned (rv : Int) (frame : Frame)
  | ended (why : Ended)

def next (len : Int) : Point × Frame → (Point × Frame) ⊕ Outcome
  | (.head,f) => if f.n ≥ 0 ∧ f.n < len then .inl (.read,f) else .inr (.returned len f)
  | (.read,f) => match ReadMem systemCall bigEndian f.machine f.vaddr with
    | .error why => .inr (.ended why)
    | .ok (some value,machine) => .inl (.again,{f with machine := machine, paddr := value, result := true})
    | .ok (none,machine) => .inl (.again,{f with machine := machine, result := false})
  | (.again,f) => if !f.result then .inl (.read,f) else .inl (.store,f)
  | (.store,f) =>
    let f := {f with buf := Function.update f.buf f.n (f.paddr.truncate 8), n := f.n + 1}
    if !f.result then .inr (.returned (-1) f) else .inl (.head,{f with vaddr := f.vaddr + 1})

-- The call copyin(vaddr, len, buf) on a machine; the other variables hold anything.
def start (m : Machine) (vaddr : BitVec 32) (locals : Frame) : Point × Frame :=
  (.head,{locals with machine := m, vaddr := vaddr, n := 0})

end

-- The byte at an address that translates for reading.
def byteAt (m : Machine) (addr : BitVec 32) : Option (BitVec 8) :=
  match m.translate addr 1 false with
  | .ok (.ok (physAddr,_)) => some (m.mainMemory physAddr)
  | _ => none

def Translates (m : Machine) (vaddr : BitVec 32) (len : Nat) : Prop :=
  ∀ i < len, (byteAt m (vaddr + BitVec.ofNat 32 i)).isSome

-- What a caller relies on: the bytes, or the result -1.
structure Reports (m : Machine) (vaddr : BitVec 32) (len : Nat) (r : Outcome) : Prop where
  copied : Translates m vaddr len → ∃ f, r = .returned len f ∧
    ∀ i < len, byteAt m (vaddr + BitVec.ofNat 32 i) = some (f.buf i)
  refused : ¬Translates m vaddr len → ∃ f, r = .returned (-1) f

variable {systemCall : Machine → Except Ended Machine} {bigEndian : Bool} {m after : Machine} {addr vaddr : BitVec 32}
  {pageTable : List TranslationEntry} {len : Nat}

-- One byte through a page table: a fault, or a frame and the entry marked.
theorem translate_byte (m : Machine) (pageTable : List TranslationEntry) (addr : BitVec 32) :
    (∃ which, (m.withTable pageTable).translate addr 1 false = .ok (.error which) ∧ which ≠ .SyscallException ∧
      (m.withTable pageTable).physical addr.toNat = none) ∨
    ∃ physAddr changed, (m.withTable pageTable).translate addr 1 false = .ok (.ok (physAddr,m.withTable changed)) ∧
      (m.withTable pageTable).physical addr.toNat = some physAddr ∧
      (m.withTable changed).physical = (m.withTable pageTable).physical := by
  have aligned : ¬Machine.Misaligned addr 1 := by simp [Machine.Misaligned]
  cases there : pageTable[addr.toNat / PageSize]? with
  | none =>
    refine .inl ⟨.AddressErrorException,Machine.translate_refused aligned ?_ false,by decide,?_⟩
    · simp only [Machine.lookup,Machine.withTable,there]
    · simp only [Machine.physical,Machine.withTable,there]
  | some entry =>
    cases valid : entry.valid with
    | false =>
      refine .inl ⟨.PageFaultException,Machine.translate_refused aligned ?_ false,by decide,?_⟩
      · simp only [Machine.lookup,Machine.withTable,there,valid,Bool.not_false,if_true]
      · simp only [Machine.physical,Machine.withTable,there,valid,Bool.false_eq_true,false_and,if_false]
    | true =>
      rw [Machine.translate_entry (.inl rfl) aligned (Machine.lookup_table m entry there valid),Machine.throughEntry,
        if_neg (by simp)]
      by_cases frame : entry.physicalPage.toNat < NumPhysPages
      · rw [if_neg (by omega)]
        refine .inr ⟨_,_,rfl,?_,Machine.physical_marked m there false⟩
        simp only [Machine.physical,Machine.withTable,there,valid,frame,and_self,if_true]
      · rw [if_pos (by omega)]
        refine .inl ⟨.BusErrorException,rfl,by decide,?_⟩
        simp only [Machine.physical,Machine.withTable,there,frame,and_false,if_false]

theorem byteAt_physical (m : Machine) (pageTable : List TranslationEntry) (addr : BitVec 32) :
    byteAt (m.withTable pageTable) addr = ((m.withTable pageTable).physical addr.toNat).map m.mainMemory := by
  rcases translate_byte m pageTable addr with ⟨which,fails,_,nowhere⟩ | ⟨physAddr,changed,found,place,_⟩
  · rw [nowhere]
    simp only [byteAt,fails]
    rfl
  · rw [place]
    simp only [byteAt,found]
    rfl

-- A char read into an int and stored as a char.
theorem char_value (byte : BitVec 8) : (byte.signExtend 32).truncate 8 = byte := by
  ext i inside
  rw [BitVec.truncate_eq_setWidth,BitVec.getElem_setWidth,BitVec.getLsbD_signExtend,decide_eq_true (show i < 32 by omega),if_pos inside,Bool.true_and,
    BitVec.getLsbD_eq_getElem inside]

-- ReadMem gives the byte of an address that translates, and does not come back from another.
theorem readMem_byte (systemCall : Machine → Except Ended Machine) (bigEndian : Bool) (m : Machine)
    (pageTable : List TranslationEntry) (addr : BitVec 32) :
    (byteAt (m.withTable pageTable) addr = none ∧
      ∃ entry, ReadMem systemCall bigEndian (m.withTable pageTable) addr = .error (.halted entry)) ∨
    ∃ value changed, byteAt (m.withTable pageTable) addr = some (value.truncate 8) ∧
      ReadMem systemCall bigEndian (m.withTable pageTable) addr = .ok (some value,m.withTable changed) ∧
      (m.withTable changed).physical = (m.withTable pageTable).physical := by
  rcases translate_byte m pageTable addr with ⟨which,fails,fault,_⟩ | ⟨physAddr,changed,found,_,same⟩
  · refine .inl ⟨by simp only [byteAt,fails],((m.withTable pageTable).set BadVAddrReg addr).delayedLoad 0 0,?_⟩
    simp only [ReadMem,Machine.readMem,fails,Machine.raiseException,ExceptionHandler,if_neg fault]
  · refine .inr ⟨(m.mainMemory physAddr).signExtend 32,changed,?_,?_,same⟩
    · simp only [byteAt,found,char_value]
      rfl
    · simp only [ReadMem,Machine.readMem,found,Machine.fetch]
      rfl

-- The call with k bytes copied, at each point of its loop.
structure Going (m : Machine) (pageTable : List TranslationEntry) (vaddr : BitVec 32) (len : Nat) (s : Point × Frame) (k : Nat) :
    Prop where
  machine : ∃ changed, s.2.machine = m.withTable changed ∧
    (m.withTable changed).physical = (m.withTable pageTable).physical
  count : s.2.n = k
  address : s.2.vaddr = vaddr + BitVec.ofNat 32 k
  copied : ∀ i < k, byteAt (m.withTable pageTable) (vaddr + BitVec.ofNat 32 i) = some (s.2.buf i)
  within : k ≤ len
  more : s.1 ≠ .head → k < len
  got : s.1 = .again ∨ s.1 = .store → s.2.result = true ∧
    byteAt (m.withTable pageTable) (vaddr + BitVec.ofNat 32 k) = some (s.2.paddr.truncate 8)

-- How a call ends: with all the bytes, or in Halt at an address that does not translate.
def Finished (m : Machine) (vaddr : BitVec 32) (len : Nat) (r : Outcome) : Prop :=
  (∃ f, r = .returned len f ∧ ∀ i < len, byteAt m (vaddr + BitVec.ofNat 32 i) = some (f.buf i)) ∨
  (∃ entry, r = .ended (.halted entry)) ∧ ¬Translates m vaddr len

def Point.left : Point → Nat
  | .head => 3
  | .read => 2
  | .again => 1
  | .store => 0

-- The points still to pass until the call ends, with four to a byte.
def left (len : Nat) (s : Point × Frame) : Nat := 4 * (len - s.2.n.toNat) + s.1.left

theorem going_read {f : Frame} (going : Going m pageTable vaddr len (.read,f) k) :
    (∃ r, next systemCall bigEndian len (.read,f) = .inr r ∧ Finished (m.withTable pageTable) vaddr len r) ∨
    ∃ f', next systemCall bigEndian len (.read,f) = .inl (.again,f') ∧ Going m pageTable vaddr len (.again,f') k := by
  obtain ⟨⟨changed,machine,same⟩,count,address,copied,within,more,_⟩ := going
  dsimp only at machine count address copied more
  have byte : byteAt (m.withTable changed) f.vaddr = byteAt (m.withTable pageTable) (vaddr + BitVec.ofNat 32 k) := by
    rw [byteAt_physical,byteAt_physical,same,address]
  rcases readMem_byte systemCall bigEndian m changed f.vaddr with
    ⟨nowhere,entry,halts⟩ | ⟨value,after,there,reads,kept⟩
  · refine .inl ⟨.ended (.halted entry),by simp only [next,machine,halts],.inr ⟨⟨entry,rfl⟩,?_⟩⟩
    intro translates
    have some_ := translates k (more (by decide))
    rw [← byte,nowhere] at some_
    cases some_
  · refine .inr ⟨{f with machine := m.withTable after, paddr := value, result := true},?_,?_⟩
    · simp only [next,machine,reads]
    exact ⟨⟨after,rfl,kept.trans same⟩,count,address,copied,within,fun _ => more (by decide),fun _ => ⟨rfl,byte ▸ there⟩⟩

theorem going_store {f : Frame} (going : Going m pageTable vaddr len (.store,f) k) :
    ∃ f', next systemCall bigEndian len (.store,f) = .inl (.head,f') ∧ Going m pageTable vaddr len (.head,f') (k + 1) := by
  obtain ⟨machine,count,address,copied,within,more,got⟩ := going
  obtain ⟨result,byte⟩ := got (.inr rfl)
  dsimp only at machine count address copied more result byte
  have short : k < len := more (by decide)
  refine ⟨⟨f.machine,f.vaddr + 1,f.n + 1,Function.update f.buf f.n (f.paddr.truncate 8),f.paddr,true⟩,?_,machine,?_,?_,?_,short,
    by simp,by simp⟩
  · simp only [next,result,Bool.not_true,Bool.false_eq_true,if_false]
  · simp only [count,Nat.cast_add,Nat.cast_one]
  · simp only [address,BitVec.add_assoc,BitVec.ofNat_add]
    rfl
  · intro i inside
    simp only [count]
    by_cases here : i = k
    · rw [here,Function.update_self,byte]
    · rw [Function.update_of_ne (by omega)]
      exact copied i (by omega)

-- Every step of the call keeps where it is, and brings it nearer to its end.
theorem going_step (s : Point × Frame) (going : ∃ k, Going m pageTable vaddr len s k) :
    (∃ r, next systemCall bigEndian len s = .inr r ∧ Finished (m.withTable pageTable) vaddr len r) ∨
    ∃ t, next systemCall bigEndian len s = .inl t ∧ (∃ k, Going m pageTable vaddr len t k) ∧ left len t < left len s := by
  obtain ⟨k,going⟩ := going
  obtain ⟨point,f⟩ := s
  have count := going.count
  have within := going.within
  have more := going.more
  dsimp only at count within more
  cases point with
  | head =>
    by_cases short : k < len
    · refine .inr ⟨(.read,f),by simp only [next,count]; rw [if_pos (by omega)],⟨k,?_⟩,by simp only [left,Point.left]; omega⟩
      exact ⟨going.machine,count,going.address,going.copied,within,fun _ => short,by simp⟩
    · refine .inl ⟨.returned len f,by simp only [next,count]; rw [if_neg (by omega)],.inl ⟨f,rfl,?_⟩⟩
      intro i inside
      exact going.copied i (by omega)
  | read =>
    rcases going_read going with ended | ⟨f',goes,kept⟩
    · exact .inl ended
    · have same := kept.count
      dsimp only at same
      refine .inr ⟨(.again,f'),goes,⟨k,kept⟩,?_⟩
      simp only [left,Point.left]
      omega
  | again =>
    obtain ⟨result,byte⟩ := going.got (.inl rfl)
    dsimp only at result byte
    refine .inr ⟨(.store,f),by simp only [next,result,Bool.not_true,Bool.false_eq_true,if_false],⟨k,?_⟩,?_⟩
    · exact ⟨going.machine,count,going.address,going.copied,within,fun _ => more (by decide),fun _ => ⟨result,byte⟩⟩
    · simp only [left,Point.left]
      omega
  | store =>
    obtain ⟨f',goes,kept⟩ := going_store going
    have next_ := kept.count
    have short := kept.within
    dsimp only at next_
    refine .inr ⟨(.head,f'),goes,⟨k + 1,kept⟩,?_⟩
    simp only [left,Point.left]
    omega

-- Every call ends, whatever the page table and the system calls are.
theorem copyin_ends (systemCall : Machine → Except Ended Machine) (bigEndian : Bool) (m : Machine)
    (pageTable : List TranslationEntry) (vaddr : BitVec 32) (len : Nat) (locals : Frame) :
    ∃ r, Loop.Ends (next systemCall bigEndian len) (start (m.withTable pageTable) vaddr locals) r ∧
      Finished (m.withTable pageTable) vaddr len r := by
  refine Loop.ends_within (left len) (fun s going => going_step s going) ⟨0,?_⟩
  exact ⟨⟨pageTable,rfl,rfl⟩,rfl,by simp [start],fun i inside => absurd inside (by omega),by omega,by simp [start],
    by simp [start]⟩

-- A bad address is never reported: the call that meets it does not return.
theorem copyin_silent (systemCall : Machine → Except Ended Machine) (bigEndian : Bool) (m : Machine)
    (pageTable : List TranslationEntry) (vaddr : BitVec 32) (len : Nat) (locals : Frame)
    (bad : ¬Translates (m.withTable pageTable) vaddr len) (r : Outcome)
    (ends : Loop.Ends (next systemCall bigEndian len) (start (m.withTable pageTable) vaddr locals) r) :
    ∃ entry, r = .ended (.halted entry) := by
  obtain ⟨r',ends',finished⟩ := copyin_ends systemCall bigEndian m pageTable vaddr len locals
  rw [ends.unique ends']
  rcases finished with ⟨f,_,bytes⟩ | ⟨halted,_⟩
  · refine absurd (fun i inside => ?_) bad
    rw [bytes i inside]
    rfl
  · exact halted

-- The call does what its callers rely on exactly when there is no bad address.
theorem copyin_reports_iff (systemCall : Machine → Except Ended Machine) (bigEndian : Bool) (m : Machine)
    (pageTable : List TranslationEntry) (vaddr : BitVec 32) (len : Nat) (locals : Frame) :
    (∃ r, Loop.Ends (next systemCall bigEndian len) (start (m.withTable pageTable) vaddr locals) r ∧
      Reports (m.withTable pageTable) vaddr len r) ↔
    Translates (m.withTable pageTable) vaddr len := by
  constructor
  · rintro ⟨r,ends,reports⟩
    by_contra bad
    obtain ⟨f,refused⟩ := reports.refused bad
    obtain ⟨entry,halted⟩ := copyin_silent systemCall bigEndian m pageTable vaddr len locals bad r ends
    rw [halted] at refused
    cases refused
  · intro translates
    obtain ⟨r,ends,finished⟩ := copyin_ends systemCall bigEndian m pageTable vaddr len locals
    refine ⟨r,ends,?_,fun bad => absurd translates bad⟩
    intro _
    rcases finished with whole | ⟨_,bad⟩
    · exact whole
    · exact absurd translates bad

-- Two bytes of which the second is not in the one page of the table.
def onePage : List TranslationEntry := [⟨0,0,true,false,false,false⟩]

def blank : Machine := ⟨fun _ => 0,fun _ => 0,none,none⟩

theorem copyin_halts : ¬∃ r, Loop.Ends (next (fun m => .ok m) false (2 : Nat))
    (start (blank.withTable onePage) 127 ⟨blank,0,0,fun _ => 0,0,false⟩) r ∧ Reports (blank.withTable onePage) 127 2 r := by
  have bad : ¬Translates (blank.withTable onePage) 127 2 := by
    intro translates
    have second := translates 1 (by decide)
    revert second
    decide
  rintro ⟨r,ends,reports⟩
  obtain ⟨f,refused⟩ := reports.refused bad
  obtain ⟨entry,halted⟩ := copyin_silent _ _ _ _ _ _ _ bad r ends
  rw [halted] at refused
  cases refused

end Nachos.Copyin
