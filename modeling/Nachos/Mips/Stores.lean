import Nachos.Mips.Bytes
import Nachos.Mips.Translation

-- Simulated memory under any sequence of reads and writes through one page table.
namespace Nachos.Mips

structure Store where
  addr : BitVec 32
  size : Nat
  value : BitVec 32

-- The byte a list of writes last put at a virtual address, the newest write first.
def lastByte (log : List Store) (place : Nat) : Option (BitVec 8) :=
  (log.find? fun store => decide (store.addr.toNat ≤ place ∧ place < store.addr.toNat + store.size)).map
    fun store => byteOf store.value (place - store.addr.toNat)

namespace Machine

-- No two valid pages are in one frame.
def Separate (pageTable : List TranslationEntry) : Prop :=
  ∀ (i j : Nat) (one two : TranslationEntry), pageTable[i]? = some one → pageTable[j]? = some two →
    one.valid = true → two.valid = true → one.physicalPage = two.physicalPage → i = j

-- Where a virtual address is in memory.
def physical (m : Machine) (place : Nat) : Option Nat :=
  match m.pageTable with
  | none => none
  | some pageTable => match pageTable[place / PageSize]? with
    | none => none
    | some entry =>
      if entry.valid = true ∧ entry.physicalPage.toNat < NumPhysPages then
        some (entry.physicalPage.toNat * PageSize + place % PageSize)
      else none

-- The accesses of a program. What is refused goes on from the machine at the handler.
inductive Accesses (bigEndian : Bool) (start : Machine) : List Store → Machine → Prop where
  | none : Accesses bigEndian start [] start
  | wrote {log : List Store} {m after : Machine} {addr value : BitVec 32} {size : Nat} :
      Accesses bigEndian start log m → (size = 1 ∨ size = 2 ∨ size = 4) →
      m.writeMem bigEndian addr size value = .ok after → Accesses bigEndian start (⟨addr,size,value⟩ :: log) after
  | writeRefused {log : List Store} {m entry : Machine} {addr value : BitVec 32} {size : Nat} {which : ExceptionType} :
      Accesses bigEndian start log m → (size = 1 ∨ size = 2 ∨ size = 4) →
      m.writeMem bigEndian addr size value = .error (.raised which entry) → Accesses bigEndian start log entry
  | read {log : List Store} {m after : Machine} {addr value : BitVec 32} {size : Nat} :
      Accesses bigEndian start log m → (size = 1 ∨ size = 2 ∨ size = 4) →
      m.readMem bigEndian addr size = .ok (value,after) → Accesses bigEndian start log after
  | readRefused {log : List Store} {m entry : Machine} {addr : BitVec 32} {size : Nat} {which : ExceptionType} :
      Accesses bigEndian start log m → (size = 1 ∨ size = 2 ∨ size = 4) →
      m.readMem bigEndian addr size = .error (.raised which entry) → Accesses bigEndian start log entry

variable {m start after entry : Machine} {addr value : BitVec 32} {size : Nat} {pageTable : List TranslationEntry}
  {bigEndian writing : Bool} {which : ExceptionType} {log : List Store} {physAddr : Nat}

-- Two addresses are in one place only if they are the same.
theorem physical_inj (table : m.pageTable = some pageTable) (separate : Separate pageTable) (one : m.physical a = some p)
    (two : m.physical b = some p) : a = b := by
  simp only [physical,table] at one two
  cases first : pageTable[a / PageSize]? with
  | none => simp [first] at one
  | some x =>
    cases second : pageTable[b / PageSize]? with
    | none => simp [second] at two
    | some y =>
      simp only [first,Option.ite_none_right_eq_some,Option.some.injEq] at one
      simp only [second,Option.ite_none_right_eq_some,Option.some.injEq] at two
      obtain ⟨⟨validX,_⟩,placeX⟩ := one
      obtain ⟨⟨validY,_⟩,placeY⟩ := two
      simp only [PageSize] at *
      have frame : x.physicalPage = y.physicalPage := BitVec.eq_of_toNat_eq (by omega)
      have page := separate _ _ x y first second validX validY frame
      rw [frame] at placeX
      omega

-- Marking an entry moves nothing.
theorem physical_marked (m : Machine) (there : pageTable[i]? = some old) (writing : Bool) :
    (m.withTable (pageTable.set i (marked old writing))).physical = (m.withTable pageTable).physical := by
  funext place
  simp only [physical,withTable,List.getElem?_set]
  by_cases same : i = place / PageSize
  · subst same
    obtain ⟨inside,_⟩ := List.getElem?_eq_some_iff.mp there
    simp only [inside,if_true,there]
    rfl
  · rw [if_neg same]

-- What a successful translation tells of all the bytes of the access.
structure Reaches (m : Machine) (addr : BitVec 32) (size : Nat) (physAddr : Nat) (after : Machine) : Prop where
  bytes : ∀ i < size, m.physical (addr.toNat + i) = some (physAddr + i)
  physical : after.physical = m.physical
  tlb : after.tlb = none
  mainMemory : after.mainMemory = m.mainMemory

theorem aligned_offset (sizes : size = 1 ∨ size = 2 ∨ size = 4) (aligned : ¬Misaligned addr size) (inside : i < size) :
    (addr.toNat + i) / PageSize = addr.toNat / PageSize ∧ (addr.toNat + i) % PageSize = addr.toNat % PageSize + i := by
  have fits := offset_fits addr 31 (by decide) sizes aligned
  simp only [MemorySize,NumPhysPages,PageSize] at *
  omega

theorem table_reaches (m : Machine) (sizes : size = 1 ∨ size = 2 ∨ size = 4)
    (found : (m.withTable pageTable).translate addr size writing = .ok (.ok (physAddr,after))) :
    Reaches (m.withTable pageTable) addr size physAddr after := by
  by_cases aligned : Misaligned addr size
  · rw [translate_misaligned aligned] at found
    cases found
  · rcases lookup_table_cases m pageTable (addr.toNat / PageSize) with ⟨which,refused⟩ | ⟨old,there,valid⟩
    · rw [translate_refused aligned refused] at found
      cases found
    · rw [translate_entry sizes aligned (lookup_table m old there valid)] at found
      unfold throughEntry at found
      split at found
      · cases found
      · split at found
        · cases found
        · rename_i frame
          cases found
          refine ⟨?_,physical_marked m there writing,rfl,rfl⟩
          intro i inside
          obtain ⟨page,offset⟩ := aligned_offset sizes aligned inside
          simp only [physical,withTable,page,there,offset]
          rw [if_pos ⟨valid,by omega⟩]
          exact congrArg some (by omega)

theorem translate_reaches (tlb : m.tlb = none) (table : m.pageTable = some pageTable) (sizes : size = 1 ∨ size = 2 ∨ size = 4)
    (found : m.translate addr size writing = .ok (.ok (physAddr,after))) : Reaches m addr size physAddr after := by
  obtain ⟨registers,mainMemory,_,_⟩ := m
  dsimp only at tlb table
  subst tlb table
  exact table_reaches ⟨registers,mainMemory,none,some pageTable⟩ sizes found

-- A successful write, byte by byte.
theorem writeMem_bytes (tlb : m.tlb = none) (table : m.pageTable = some pageTable) (sizes : size = 1 ∨ size = 2 ∨ size = 4)
    (wrote : m.writeMem bigEndian addr size value = .ok after) :
    ∃ physAddr, (∀ i < size, m.physical (addr.toNat + i) = some (physAddr + i)) ∧ after.physical = m.physical ∧
      after.tlb = none ∧ after.mainMemory = storeBytes m.mainMemory physAddr ((List.range size).map (byteOf value)) := by
  unfold writeMem at wrote
  cases translated : m.translate addr size true with
  | error why => simp [translated] at wrote
  | ok outcome =>
    cases outcome with
    | error which => simp [translated] at wrote
    | ok pair =>
      obtain ⟨physAddr,middle⟩ := pair
      have reaches := translate_reaches tlb table sizes translated
      simp only [translated,place_bytes bigEndian sizes] at wrote
      cases wrote
      refine ⟨physAddr,reaches.bytes,reaches.physical,reaches.tlb,?_⟩
      rw [← reaches.mainMemory]

theorem readMem_bytes (tlb : m.tlb = none) (table : m.pageTable = some pageTable) (sizes : size = 1 ∨ size = 2 ∨ size = 4)
    (read : m.readMem bigEndian addr size = .ok (value,after)) :
    ∃ physAddr, (∀ i < size, m.physical (addr.toNat + i) = some (physAddr + i) ∧
      byteOf value i = m.mainMemory (physAddr + i)) ∧ after.physical = m.physical ∧ after.tlb = none ∧
      after.mainMemory = m.mainMemory := by
  unfold readMem at read
  cases translated : m.translate addr size false with
  | error why => simp [translated] at read
  | ok outcome =>
    cases outcome with
    | error which => simp [translated] at read
    | ok pair =>
      obtain ⟨physAddr,middle⟩ := pair
      have reaches := translate_reaches tlb table sizes translated
      simp only [translated] at read
      cases fetched : middle.fetch bigEndian physAddr size with
      | error why => simp [fetched] at read
      | ok value' =>
        simp only [fetched] at read
        cases read
        refine ⟨physAddr,?_,reaches.physical,reaches.tlb,reaches.mainMemory⟩
        intro i inside
        refine ⟨reaches.bytes i inside,?_⟩
        rw [fetch_bytes bigEndian sizes fetched inside,reaches.mainMemory]

-- Memory holds at each virtual address what was last written there.
structure Holds (start : Machine) (log : List Store) (m : Machine) : Prop where
  tlb : m.tlb = none
  table : m.pageTable.isSome
  physical : m.physical = start.physical
  bytes : ∀ place p, start.physical place = some p → m.mainMemory p = (lastByte log place).getD (start.mainMemory p)

theorem physical_table {place p : Nat} (some_ : m.physical place = some p) : m.pageTable.isSome := by
  unfold physical at some_
  cases table : m.pageTable with
  | none => simp [table] at some_
  | some pageTable => rfl

theorem lastByte_cons (addr value : BitVec 32) (size : Nat) (log : List Store) (place : Nat) :
    lastByte (⟨addr,size,value⟩ :: log) place =
      if addr.toNat ≤ place ∧ place < addr.toNat + size then some (byteOf value (place - addr.toNat)) else lastByte log place := by
  unfold lastByte
  rw [List.find?_cons]
  by_cases covers : addr.toNat ≤ place ∧ place < addr.toNat + size
  · simp [covers]
  · simp [covers]

theorem Holds.wrote (holds : Holds start log m) (table : start.pageTable = some pageTable) (separate : Separate pageTable)
    (sizes : size = 1 ∨ size = 2 ∨ size = 4) (wrote : m.writeMem bigEndian addr size value = .ok after) :
    Holds start (⟨addr,size,value⟩ :: log) after := by
  obtain ⟨now,there⟩ := Option.isSome_iff_exists.mp holds.table
  obtain ⟨physAddr,reached,physical,tlb,memory⟩ := writeMem_bytes holds.tlb there sizes wrote
  rw [holds.physical] at reached physical
  refine ⟨tlb,physical_table (physical ▸ reached 0 (by omega)),physical,?_⟩
  intro place p at_
  rw [memory,storeBytes_apply,lastByte_cons,List.length_map,List.length_range]
  by_cases covers : addr.toNat ≤ place ∧ place < addr.toNat + size
  · obtain ⟨i,rfl⟩ := Nat.exists_eq_add_of_le covers.1
    have where_ := reached i (by omega)
    rw [at_,Option.some.injEq] at where_
    subst where_
    rw [if_pos (by omega),if_pos covers,Nat.add_sub_cancel_left,Nat.add_sub_cancel_left]
    simp [show i < size by omega]
  · have apart : ¬(physAddr ≤ p ∧ p < physAddr + size) := by
      rintro ⟨low,high⟩
      obtain ⟨i,rfl⟩ := Nat.exists_eq_add_of_le low
      have same := physical_inj table separate (reached i (by omega)) at_
      omega
    rw [if_neg apart,if_neg covers]
    exact holds.bytes place p at_

theorem Holds.frame (holds : Holds start log m) (tlb : after.tlb = none) (some_ : after.pageTable.isSome)
    (physical : after.physical = m.physical) (memory : after.mainMemory = m.mainMemory) : Holds start log after := by
  refine ⟨tlb,some_,physical.trans holds.physical,?_⟩
  rw [memory]
  exact holds.bytes

theorem Holds.refused (holds : Holds start log m) (raised : .raised which entry = m.raiseException which addr) :
    Holds start log entry := by
  obtain ⟨memory,tlb,table⟩ := raiseException_frame raised
  refine holds.frame (tlb.trans holds.tlb) (table ▸ holds.table) ?_ memory
  funext place
  unfold Machine.physical
  rw [table]

theorem accesses_hold (tlb : start.tlb = none) (table : start.pageTable = some pageTable) (separate : Separate pageTable)
    (path : Accesses bigEndian start log m) : Holds start log m := by
  induction path with
  | none => exact ⟨tlb,by rw [table]; rfl,rfl,fun _ _ _ => rfl⟩
  | wrote _ sizes wrote ih => exact ih.wrote table separate sizes wrote
  | writeRefused _ _ raised ih => exact ih.refused (writeMem_raised raised)
  | read _ sizes read ih =>
    obtain ⟨now,there⟩ := Option.isSome_iff_exists.mp ih.table
    obtain ⟨physAddr,reached,physical,tlb,memory⟩ := readMem_bytes ih.tlb there sizes read
    exact ih.frame tlb (physical_table (physical ▸ (reached 0 (by omega)).1)) physical memory
  | readRefused _ _ raised ih => exact ih.refused (readMem_raised raised)

-- A read gives the bytes written last, or what memory held at first; a refused access
-- leaves memory alone.
theorem memory_little_endian (tlb : start.tlb = none) (table : start.pageTable = some pageTable) (separate : Separate pageTable)
    (path : Accesses bigEndian start log m) (sizes : size = 1 ∨ size = 2 ∨ size = 4) (addr value : BitVec 32) :
    (∀ found after, m.readMem bigEndian addr size = .ok (found,after) → ∀ i < size,
      ∃ p, start.physical (addr.toNat + i) = some p ∧
        byteOf found i = (lastByte log (addr.toNat + i)).getD (start.mainMemory p)) ∧
    (∀ which entry, m.readMem bigEndian addr size = .error (.raised which entry) → entry.mainMemory = m.mainMemory) ∧
    ∀ which entry, m.writeMem bigEndian addr size value = .error (.raised which entry) → entry.mainMemory = m.mainMemory := by
  have holds := accesses_hold tlb table separate path
  refine ⟨?_,?_,?_⟩
  · intro found after read i inside
    obtain ⟨now,there⟩ := Option.isSome_iff_exists.mp holds.table
    obtain ⟨physAddr,reached,_⟩ := readMem_bytes holds.tlb there sizes read
    obtain ⟨place,byte⟩ := reached i inside
    rw [holds.physical] at place
    exact ⟨physAddr + i,place,by rw [byte,holds.bytes _ _ place]⟩
  · intro which entry raised
    exact (raiseException_frame (readMem_raised raised)).1
  · intro which entry raised
    exact (raiseException_frame (writeMem_raised raised)).1

end Machine

-- Two pages, in frames 3 and 1.
def twoPages : List TranslationEntry := [⟨0,3,true,false,false,false⟩,⟨1,1,true,false,false,false⟩]

def paged : Machine := ⟨fun _ => 0,fun _ => 9,none,some twoPages⟩

theorem twoPages_separate : Machine.Separate twoPages := by
  intro i j one two first second _ _ frame
  rcases i with _ | _ | i <;> rcases j with _ | _ | j <;> simp [twoPages] at first second <;> subst first second
  · rfl
  · exact absurd frame (by decide)
  · exact absurd frame (by decide)
  · rfl

-- A word is written at 4, and the half of it at 6 is read.
theorem memory_little_endian_paged : ∃ m found after, Machine.Accesses true paged [⟨4,4,0x01020304⟩] m ∧
    m.readMem true 6 2 = .ok (found,after) ∧ byteOf found 0 = 2 ∧ byteOf found 1 = 1 := by
  have wrote : ∃ m found after, paged.writeMem true 4 4 0x01020304 = .ok m ∧ m.readMem true 6 2 = .ok (found,after) := ⟨_,_,_,rfl,rfl⟩
  obtain ⟨m,found,after,stored,read⟩ := wrote
  have path : Machine.Accesses true paged [⟨4,4,0x01020304⟩] m := .wrote .none (by decide) stored
  have bytes := (Machine.memory_little_endian rfl rfl twoPages_separate path (by decide) 6 0).1 found after read
  obtain ⟨_,_,low⟩ := bytes 0 (by decide)
  obtain ⟨_,_,high⟩ := bytes 1 (by decide)
  exact ⟨m,found,after,path,read,low,high⟩

end Nachos.Mips
