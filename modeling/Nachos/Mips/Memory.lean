import Mathlib.Logic.Function.Basic

-- The user-level CPU of machine.h: its registers, its memory, and the translation
-- of addresses in translate.cc. An int of the host is 32 bits wide and two's
-- complement, so registers are `BitVec 32`.
namespace Nachos.Mips

def StackReg : Nat := 29
def NumGPRegs : Nat := 32
def HiReg : Nat := 32
def LoReg : Nat := 33
def PCReg : Nat := 34
def NextPCReg : Nat := 35
def PrevPCReg : Nat := 36
def LoadReg : Nat := 37
def LoadValueReg : Nat := 38
def BadVAddrReg : Nat := 39
def NumTotalRegs : Nat := 40

def PageSize : Nat := 128
def NumPhysPages : Nat := 32
def MemorySize : Nat := NumPhysPages * PageSize

inductive ExceptionType where
  | NoException
  | SyscallException
  | PageFaultException
  | ReadOnlyException
  | BusErrorException
  | AddressErrorException
  | OverflowException
  | IllegalInstrException
  deriving DecidableEq, Repr

structure TranslationEntry where
  virtualPage : BitVec 32
  physicalPage : BitVec 32
  valid : Bool
  readOnly : Bool
  use : Bool
  dirty : Bool
  deriving DecidableEq, Repr

-- A table is a list whose length is its size; NULL is `none`.
structure Machine where
  registers : Nat → BitVec 32
  mainMemory : Nat → BitVec 8
  tlb : Option (List TranslationEntry)
  pageTable : Option (List TranslationEntry)

-- What ends the simulator itself: a failed ASSERT, or a host division that traps.
inductive Abort where
  | assertion
  | division
  deriving DecidableEq, Repr

-- What ends an instruction early. `raised` has the machine as it is where
-- ExceptionHandler is entered; nothing is done after the handler returns.
inductive Stop where
  | raised (which : ExceptionType) (entry : Machine)
  | aborted (why : Abort)

namespace Machine

def set (m : Machine) (num : Nat) (value : BitVec 32) : Machine :=
  {m with registers := Function.update m.registers num value}

def delayedLoad (m : Machine) (nextReg nextValue : BitVec 32) : Machine :=
  let m := m.set (m.registers LoadReg).toNat (m.registers LoadValueReg)
  let m := m.set LoadReg nextReg
  let m := m.set LoadValueReg nextValue
  m.set 0 0

def raiseException (m : Machine) (which : ExceptionType) (badVAddr : BitVec 32) : Stop :=
  .raised which ((m.set BadVAddrReg badVAddr).delayedLoad 0 0)

-- The entry a page number leads to: its place, and how the table is put back with
-- the entry changed.
def lookup (m : Machine) (vpn : Nat) :
    Except Abort (Except ExceptionType (TranslationEntry × (TranslationEntry → Machine))) :=
  match m.tlb,m.pageTable with
  | some _,some _ => .error .assertion
  | none,none => .error .assertion
  | none,some pageTable => match pageTable[vpn]? with
    | none => .ok (.error .AddressErrorException)
    | some entry =>
      if !entry.valid then .ok (.error .PageFaultException)
      else .ok (.ok (entry,fun changed => {m with pageTable := some (pageTable.set vpn changed)}))
  | some tlb,none =>
    match tlb.findIdx? fun entry => entry.valid && entry.virtualPage.toNat == vpn with
    | none => .ok (.error .PageFaultException)
    | some i => match tlb[i]? with
      | none => .error .assertion
      | some entry => .ok (.ok (entry,fun changed => {m with tlb := some (tlb.set i changed)}))

-- Translate: an exception, or the physical address and the machine with the use
-- and dirty bits set.
def translate (m : Machine) (virtAddr : BitVec 32) (size : Nat) (writing : Bool) :
    Except Abort (Except ExceptionType (Nat × Machine)) :=
  if (size = 4 ∧ virtAddr &&& 3 ≠ 0) ∨ (size = 2 ∧ virtAddr &&& 1 ≠ 0) then .ok (.error .AddressErrorException)
  else
    let vpn := virtAddr.toNat / PageSize
    let offset := virtAddr.toNat % PageSize
    match m.lookup vpn with
    | .error why => .error why
    | .ok (.error which) => .ok (.error which)
    | .ok (.ok (entry,put)) =>
      if entry.readOnly && writing then .ok (.error .ReadOnlyException)
      else
        let pageFrame := entry.physicalPage.toNat
        if pageFrame ≥ NumPhysPages then .ok (.error .BusErrorException)
        else
          let m := put {entry with use := true, dirty := entry.dirty || writing}
          let physAddr := pageFrame * PageSize + offset
          if physAddr + size ≤ MemorySize then .ok (.ok (physAddr,m)) else .error .assertion

end Machine

-- The bytes of memory as the host reads and writes a short or a word in place.
section
variable (bigEndian : Bool)

def nativeShort (b0 b1 : BitVec 8) : BitVec 16 := if bigEndian then b0 ++ b1 else b1 ++ b0

def nativeWord (b0 b1 b2 b3 : BitVec 8) : BitVec 32 :=
  if bigEndian then b0 ++ b1 ++ b2 ++ b3 else b3 ++ b2 ++ b1 ++ b0

def shortBytes (data : BitVec 16) : List (BitVec 8) :=
  let bytes := [data.extractLsb' 0 8,data.extractLsb' 8 8]
  if bigEndian then bytes.reverse else bytes

def wordBytes (data : BitVec 32) : List (BitVec 8) :=
  let bytes := [data.extractLsb' 0 8,data.extractLsb' 8 8,data.extractLsb' 16 8,data.extractLsb' 24 8]
  if bigEndian then bytes.reverse else bytes

def WordToHost (word : BitVec 32) : BitVec 32 :=
  if bigEndian then
    ((word >>> 24) &&& 0x000000ff) ||| ((word >>> 8) &&& 0x0000ff00) ||| ((word <<< 8) &&& 0x00ff0000) |||
      ((word <<< 24) &&& 0xff000000)
  else word

def ShortToHost (shortword : BitVec 16) : BitVec 16 :=
  if bigEndian then ((shortword <<< 8) &&& 0xff00) ||| ((shortword >>> 8) &&& 0x00ff) else shortword

def storeBytes (memory : Nat → BitVec 8) (address : Nat) : List (BitVec 8) → Nat → BitVec 8
  | [] => memory
  | byte :: rest => storeBytes (Function.update memory address byte) (address + 1) rest

namespace Machine

-- What is at a physical address; a char of the host is signed.
def fetch (m : Machine) (physicalAddress : Nat) : Nat → Except Abort (BitVec 32)
  | 1 => .ok ((m.mainMemory physicalAddress).signExtend 32)
  | 2 =>
    let data := nativeShort bigEndian (m.mainMemory physicalAddress) (m.mainMemory (physicalAddress + 1))
    .ok ((ShortToHost bigEndian data).zeroExtend 32)
  | 4 =>
    let data := nativeWord bigEndian (m.mainMemory physicalAddress) (m.mainMemory (physicalAddress + 1))
      (m.mainMemory (physicalAddress + 2)) (m.mainMemory (physicalAddress + 3))
    .ok (WordToHost bigEndian data)
  | _ => .error .assertion

def place (m : Machine) (physicalAddress : Nat) (value : BitVec 32) : Nat → Except Abort Machine
  | 1 => .ok {m with mainMemory := storeBytes m.mainMemory physicalAddress [(value &&& 0xff).truncate 8]}
  | 2 =>
    let data := ShortToHost bigEndian ((value &&& 0xffff).truncate 16)
    .ok {m with mainMemory := storeBytes m.mainMemory physicalAddress (shortBytes bigEndian data)}
  | 4 =>
    let data := WordToHost bigEndian value
    .ok {m with mainMemory := storeBytes m.mainMemory physicalAddress (wordBytes bigEndian data)}
  | _ => .error .assertion

def readMem (m : Machine) (addr : BitVec 32) (size : Nat) : Except Stop (BitVec 32 × Machine) :=
  match m.translate addr size false with
  | .error why => .error (.aborted why)
  | .ok (.error which) => .error (m.raiseException which addr)
  | .ok (.ok (physicalAddress,m)) => match m.fetch bigEndian physicalAddress size with
    | .error why => .error (.aborted why)
    | .ok value => .ok (value,m)

def writeMem (m : Machine) (addr : BitVec 32) (size : Nat) (value : BitVec 32) : Except Stop Machine :=
  match m.translate addr size true with
  | .error why => .error (.aborted why)
  | .ok (.error which) => .error (m.raiseException which addr)
  | .ok (.ok (physicalAddress,m)) => match m.place bigEndian physicalAddress value size with
    | .error why => .error (.aborted why)
    | .ok m => .ok m

end Machine
end

namespace Machine
variable {m after entry : Machine} {bigEndian : Bool} {addr value : BitVec 32} {which : ExceptionType}

@[simp] theorem set_registers (m : Machine) (i : Nat) (value : BitVec 32) :
    (m.set i value).registers = Function.update m.registers i value := rfl

-- We must have either a TLB or a page table, but not both.
def Mapped (m : Machine) : Prop := m.tlb.isSome ≠ m.pageTable.isSome

-- The machine but for the registers and the bytes of memory stays of one kind.
structure Alike (m after : Machine) : Prop where
  registers : after.registers = m.registers
  tlb : after.tlb.isSome = m.tlb.isSome
  pageTable : after.pageTable.isSome = m.pageTable.isSome

theorem Alike.mapped (alike : Alike m after) (mapped : m.Mapped) : after.Mapped := by
  simpa [Mapped,alike.tlb,alike.pageTable] using mapped

theorem lookup_mapped (mapped : m.Mapped) (vpn : Nat) :
    (∃ which, m.lookup vpn = .ok (.error which)) ∨
    (∃ entry put, m.lookup vpn = .ok (.ok (entry,put)) ∧
      ∀ changed, Alike m (put changed) ∧ (put changed).mainMemory = m.mainMemory) := by
  cases tlb : m.tlb with
  | none =>
    cases pageTable : m.pageTable with
    | none => simp [Mapped,tlb,pageTable] at mapped
    | some table =>
      cases there : table[vpn]? with
      | none => exact Or.inl ⟨_,by simp [lookup,tlb,pageTable,there]; rfl⟩
      | some entry =>
        cases valid : entry.valid with
        | false => exact Or.inl ⟨_,by simp [lookup,tlb,pageTable,there,valid]; rfl⟩
        | true =>
          refine Or.inr ⟨entry,fun changed => ⟨m.registers,m.mainMemory,none,some (table.set vpn changed)⟩,?_,?_⟩
          · simp [lookup,tlb,pageTable,there,valid]
          · exact fun changed => ⟨⟨rfl,by simp [tlb],by simp [pageTable]⟩,rfl⟩
  | some table =>
    cases pageTable : m.pageTable with
    | some _ => simp [Mapped,tlb,pageTable] at mapped
    | none =>
      cases found : table.findIdx? fun entry => entry.valid && entry.virtualPage.toNat == vpn with
      | none => exact Or.inl ⟨_,by simp [lookup,tlb,pageTable,found]; rfl⟩
      | some i =>
        have inside : i < table.length := (List.findIdx?_eq_some_iff_getElem.mp found).1
        have there : table[i]? = some table[i] := List.getElem?_eq_getElem inside
        refine Or.inr ⟨table[i],fun changed => ⟨m.registers,m.mainMemory,some (table.set i changed),none⟩,?_,?_⟩
        · simp only [lookup,tlb,pageTable,found,there]
        · exact fun changed => ⟨⟨rfl,by simp [tlb],by simp [pageTable]⟩,rfl⟩

-- Aligned accesses do not run over the end of a page.
theorem offset_fits (virtAddr : BitVec 32) (frame : Nat) (bound : frame < NumPhysPages) (sizes : size = 1 ∨ size = 2 ∨ size = 4)
    (aligned : ¬((size = 4 ∧ virtAddr &&& 3 ≠ 0) ∨ (size = 2 ∧ virtAddr &&& 1 ≠ 0))) :
    frame * PageSize + virtAddr.toNat % PageSize + size ≤ MemorySize := by
  have low : ∀ k, virtAddr &&& BitVec.ofNat 32 (2 ^ k - 1) = 0 → k < 32 → virtAddr.toNat % 2 ^ k = 0 := by
    intro k zero small
    have nat := congrArg BitVec.toNat zero
    rw [BitVec.toNat_and,BitVec.toNat_ofNat,Nat.mod_eq_of_lt,Nat.and_two_pow_sub_one_eq_mod] at nat
    · exact nat
    · have bigger : 2 ^ k < 2 ^ 32 := Nat.pow_lt_pow_right (by decide) small
      omega
  simp only [NumPhysPages,PageSize,MemorySize] at *
  rcases sizes with rfl | rfl | rfl
  · omega
  · have even : virtAddr.toNat % 2 ^ 1 = 0 := low 1 (by simpa using aligned) (by decide)
    omega
  · have word : virtAddr.toNat % 2 ^ 2 = 0 := low 2 (by simpa using aligned) (by decide)
    omega

theorem translate_mapped (mapped : m.Mapped) (virtAddr : BitVec 32) (sizes : size = 1 ∨ size = 2 ∨ size = 4)
    (writing : Bool) :
    (∃ which, m.translate virtAddr size writing = .ok (.error which)) ∨
    (∃ physAddr after, m.translate virtAddr size writing = .ok (.ok (physAddr,after)) ∧
      physAddr + size ≤ MemorySize ∧ Alike m after ∧ after.mainMemory = m.mainMemory) := by
  unfold translate
  split
  · exact Or.inl ⟨_,rfl⟩
  · rename_i aligned
    rcases lookup_mapped mapped (virtAddr.toNat / PageSize) with ⟨which,fails⟩ | ⟨entry,put,found,frame⟩
    · exact Or.inl ⟨which,by simp only [fails]⟩
    · simp only [found]
      split
      · exact Or.inl ⟨_,rfl⟩
      · split
        · exact Or.inl ⟨_,rfl⟩
        · rename_i inside
          have fits := offset_fits virtAddr entry.physicalPage.toNat (by omega) sizes aligned
          rw [if_pos fits]
          exact Or.inr ⟨_,_,rfl,fits,frame _⟩

theorem fetch_sizes (m : Machine) (bigEndian : Bool) (physAddr : Nat) (sizes : size = 1 ∨ size = 2 ∨ size = 4) :
    ∃ value, m.fetch bigEndian physAddr size = .ok value := by
  rcases sizes with rfl | rfl | rfl <;> exact ⟨_,rfl⟩

theorem place_sizes (m : Machine) (bigEndian : Bool) (physAddr : Nat) (value : BitVec 32)
    (sizes : size = 1 ∨ size = 2 ∨ size = 4) :
    ∃ memory, m.place bigEndian physAddr value size = .ok {m with mainMemory := memory} := by
  rcases sizes with rfl | rfl | rfl <;> exact ⟨_,rfl⟩

-- ReadMem raises an exception with nothing else done, or gives a value.
theorem readMem_mapped (mapped : m.Mapped) (bigEndian : Bool) (addr : BitVec 32) (sizes : size = 1 ∨ size = 2 ∨ size = 4) :
    (∃ which, m.readMem bigEndian addr size = .error (m.raiseException which addr)) ∨
    (∃ value after, m.readMem bigEndian addr size = .ok (value,after) ∧ Alike m after ∧
      after.mainMemory = m.mainMemory) := by
  unfold readMem
  rcases translate_mapped mapped addr sizes false with ⟨which,fails⟩ | ⟨physAddr,after,found,_,alike,memory⟩
  · exact Or.inl ⟨which,by simp only [fails]⟩
  · obtain ⟨value,fetched⟩ := fetch_sizes after bigEndian physAddr sizes
    exact Or.inr ⟨value,after,by simp only [found,fetched],alike,memory⟩

theorem writeMem_mapped (mapped : m.Mapped) (bigEndian : Bool) (addr value : BitVec 32)
    (sizes : size = 1 ∨ size = 2 ∨ size = 4) :
    (∃ which, m.writeMem bigEndian addr size value = .error (m.raiseException which addr)) ∨
    (∃ after, m.writeMem bigEndian addr size value = .ok after ∧ Alike m after) := by
  unfold writeMem
  rcases translate_mapped mapped addr sizes true with ⟨which,fails⟩ | ⟨physAddr,middle,found,_,alike,_⟩
  · exact Or.inl ⟨which,by simp only [fails]⟩
  · obtain ⟨memory,placed⟩ := place_sizes middle bigEndian physAddr value sizes
    exact Or.inr ⟨{middle with mainMemory := memory},by simp only [found,placed],
      alike.registers,alike.tlb,alike.pageTable⟩

-- A table that is consulted is the only one.
theorem lookup_found (found : m.lookup vpn = .ok result) : m.Mapped := by
  unfold lookup at found
  cases tlb : m.tlb <;> cases table : m.pageTable <;> simp [tlb,table,Mapped] at found ⊢

theorem translate_found (sizes : size = 1 ∨ size = 2 ∨ size = 4)
    (found : m.translate addr size writing = .ok (.ok (physAddr,after))) :
    Alike m after ∧ after.mainMemory = m.mainMemory := by
  have mapped : m.Mapped := by
    unfold translate at found
    split at found
    · cases found
    · cases there : m.lookup (addr.toNat / PageSize) with
      | error why => simp [there] at found
      | ok result => exact lookup_found there
  rcases translate_mapped mapped addr sizes writing with ⟨which,fails⟩ | ⟨_,_,same,_,alike,memory⟩
  · rw [found] at fails
    cases fails
  · rw [found] at same
    cases same
    exact ⟨alike,memory⟩

theorem readMem_found (sizes : size = 1 ∨ size = 2 ∨ size = 4) (found : m.readMem bigEndian addr size = .ok (value,after)) :
    Alike m after ∧ after.mainMemory = m.mainMemory := by
  unfold readMem at found
  cases translated : m.translate addr size false with
  | error why => simp [translated] at found
  | ok outcome =>
    cases outcome with
    | error which => simp [translated] at found
    | ok pair =>
      obtain ⟨physAddr,middle⟩ := pair
      have kept := translate_found sizes translated
      simp only [translated] at found
      cases fetched : middle.fetch bigEndian physAddr size with
      | error why => simp [fetched] at found
      | ok value' =>
        simp only [fetched] at found
        cases found
        exact kept

-- An exception of an access is raised on the machine as it was.
theorem readMem_raised (raised : m.readMem bigEndian addr size = .error (.raised which entry)) :
    .raised which entry = m.raiseException which addr := by
  unfold readMem at raised
  cases translated : m.translate addr size false with
  | error why => simp [translated] at raised
  | ok outcome =>
    cases outcome with
    | error which' =>
      simp only [translated,raiseException] at raised
      cases raised
      rfl
    | ok pair =>
      obtain ⟨physAddr,middle⟩ := pair
      simp only [translated] at raised
      cases fetched : middle.fetch bigEndian physAddr size <;> simp [fetched] at raised

theorem writeMem_raised (raised : m.writeMem bigEndian addr size value = .error (.raised which entry)) :
    .raised which entry = m.raiseException which addr := by
  unfold writeMem at raised
  cases translated : m.translate addr size true with
  | error why => simp [translated] at raised
  | ok outcome =>
    cases outcome with
    | error which' =>
      simp only [translated,raiseException] at raised
      cases raised
      rfl
    | ok pair =>
      obtain ⟨physAddr,middle⟩ := pair
      simp only [translated] at raised
      cases placed : middle.place bigEndian physAddr value size <;> simp [placed] at raised

-- The state at an exception, but for the registers.
theorem raiseException_frame (raised : .raised which entry = m.raiseException which addr) :
    entry.mainMemory = m.mainMemory ∧ entry.tlb = m.tlb ∧ entry.pageTable = m.pageTable := by
  cases raised
  exact ⟨rfl,rfl,rfl⟩

end Machine
end Nachos.Mips
