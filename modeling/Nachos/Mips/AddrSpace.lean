import Nachos.Mips.Memory
import Nachos.BitMap

-- Loading a user program: AddrSpace::AddrSpace and InitRegisters of addrspace.cc.
namespace Nachos.Mips

def UserStackSize : Nat := 1024
def NOFFMAGIC : BitVec 32 := 0xbadfad

structure Segment where
  virtualAddr : BitVec 32
  inFileAddr : BitVec 32
  size : BitVec 32
  deriving DecidableEq, Repr

structure NoffHeader where
  noffMagic : BitVec 32
  code : Segment
  initData : Segment
  uninitData : Segment
  deriving DecidableEq, Repr

-- The header as the host has it in its memory.
def NoffHeader.inMemory (bigEndian : Bool) (bytes : Nat → BitVec 8) : NoffHeader :=
  let word i := nativeWord bigEndian (bytes (4 * i)) (bytes (4 * i + 1)) (bytes (4 * i + 2)) (bytes (4 * i + 3))
  ⟨word 0,⟨word 1,word 2,word 3⟩,⟨word 4,word 5,word 6⟩,⟨word 7,word 8,word 9⟩⟩

def SwapHeader (bigEndian : Bool) (noffH : NoffHeader) : NoffHeader :=
  let swap (segment : Segment) : Segment :=
    ⟨WordToHost bigEndian segment.virtualAddr,WordToHost bigEndian segment.inFileAddr,WordToHost bigEndian segment.size⟩
  ⟨WordToHost bigEndian noffH.noffMagic,swap noffH.code,swap noffH.initData,swap noffH.uninitData⟩

-- An open file, by what ReadAt gives for a position and a number of bytes. It never
-- gives more than it was asked for.
structure Executable where
  readAt : BitVec 32 → Nat → List (BitVec 8)
  bounded : ∀ position numBytes, (readAt position numBytes).length ≤ numBytes

-- The header the constructor goes by; what the file does not give is what was in its
-- local variable before.
def Executable.noffHeader (executable : Executable) (bigEndian : Bool) (local_ : Nat → BitVec 8) : NoffHeader :=
  let given := executable.readAt 0 40
  let noffH := NoffHeader.inMemory bigEndian fun i => given.getD i (local_ i)
  if noffH.noffMagic ≠ NOFFMAGIC ∧ WordToHost bigEndian noffH.noffMagic = NOFFMAGIC then SwapHeader bigEndian noffH
  else noffH

structure AddrSpace where
  pageTable : List TranslationEntry
  numPages : Nat

-- The bytes of the host around `machine->mainMemory`, by their distance from it.
def copyIn (memory : Int → BitVec 8) (address : Int) : List (BitVec 8) → Int → BitVec 8
  | [] => memory
  | byte :: rest => copyIn (Function.update memory address byte) (address + 1) rest

def bzero (memory : Int → BitVec 8) (size : Nat) : Int → BitVec 8 :=
  fun address => if 0 ≤ address ∧ address < size then 0 else memory address

def Executable.load (executable : Executable) (segment : Segment) (memory : Int → BitVec 8) : Int → BitVec 8 :=
  if (0#32).slt segment.size then
    copyIn memory segment.virtualAddr.toInt (executable.readAt segment.inFileAddr segment.size.toNat)
  else memory

-- The constructor; `none` if an ASSERT fails.
def AddrSpace.construct (bigEndian : Bool) (executable : Executable) (local_ : Nat → BitVec 8)
    (memory : Int → BitVec 8) : Option (AddrSpace × (Int → BitVec 8)) :=
  let noffH := executable.noffHeader bigEndian local_
  if noffH.noffMagic = NOFFMAGIC then
    let size := noffH.code.size + noffH.initData.size + noffH.uninitData.size
    let numPages := divRoundUp size.toNat PageSize + divRoundUp UserStackSize PageSize
    let size := numPages * PageSize
    if numPages ≤ NumPhysPages then
      let pageTable := (List.range numPages).map fun i => ⟨BitVec.ofNat 32 i,BitVec.ofNat 32 i,true,false,false,false⟩
      let memory := bzero memory size
      let memory := executable.load noffH.code memory
      let memory := executable.load noffH.initData memory
      some (⟨pageTable,numPages⟩,memory)
    else none
  else none

def AddrSpace.initRegisters (space : AddrSpace) (i : Nat) : BitVec 32 :=
  if i = StackReg then BitVec.ofNat 32 (space.numPages * PageSize) - 16 else if i = NextPCReg then 4 else 0

-- The machine on which the program starts.
def AddrSpace.machine (space : AddrSpace) (memory : Int → BitVec 8) : Machine :=
  ⟨space.initRegisters,fun address => memory address,none,some space.pageTable⟩

def NoffHeader.segments (noffH : NoffHeader) : List Segment := [noffH.code,noffH.initData,noffH.uninitData]

-- What the loader is to keep to.
structure AddrSpace.Holds (space : AddrSpace) (noffH : NoffHeader) (executable : Executable)
    (before after : Int → BitVec 8) : Prop where
  inside : ∀ segment ∈ noffH.segments, 0 < segment.size.toInt → 0 ≤ segment.virtualAddr.toInt ∧
    segment.virtualAddr.toInt + segment.size.toInt ≤ (space.numPages * PageSize : Nat) - UserStackSize
  writes : ∀ address, after address ≠ before address → 0 ≤ address ∧ address < (space.numPages * PageSize : Nat)
  reachable : ∀ segment ∈ [noffH.code,noffH.initData], 0 < segment.size.toInt →
    ∀ k < (executable.readAt segment.inFileAddr segment.size.toNat).length,
      ∃ m, (space.machine after).translate (segment.virtualAddr + BitVec.ofNat 32 k) 1 false =
        .ok (.ok (segment.virtualAddr.toNat + k,m))
  stack : ∀ segment ∈ noffH.segments, 0 < segment.size.toInt → ∀ address : Int,
    (space.initRegisters StackReg).toInt - UserStackSize ≤ address → address < (space.initRegisters StackReg).toInt →
    ¬(segment.virtualAddr.toInt ≤ address ∧ address < segment.virtualAddr.toInt + segment.size.toInt)

-- The sizes added up as the host does, and what is left of the last page.
def NoffHeader.total (noffH : NoffHeader) : Nat := (noffH.code.size + noffH.initData.size + noffH.uninitData.size).toNat
def NoffHeader.rest (noffH : NoffHeader) : Nat := (PageSize - noffH.total % PageSize) % PageSize

-- No segment is put further up than the other two and the rest of the last page
-- allow, less the 16 bytes above the stack pointer.
def NoffHeader.Compact (noffH : NoffHeader) : Prop :=
  ∀ segment ∈ noffH.segments, 0 < segment.size.toInt → 0 ≤ segment.virtualAddr.toInt ∧
    segment.virtualAddr.toInt + 16 ≤ noffH.total - segment.size.toInt + noffH.rest

section
variable {bigEndian : Bool} {executable : Executable} {local_ : Nat → BitVec 8} {before after memory : Int → BitVec 8}
  {space : AddrSpace} {noffH : NoffHeader} {segment : Segment} {address : Int}

theorem construct_cases (built : AddrSpace.construct bigEndian executable local_ before = some (space,after)) :
    space.numPages = divRoundUp (executable.noffHeader bigEndian local_).total PageSize + divRoundUp UserStackSize PageSize ∧
    space.numPages ≤ NumPhysPages ∧
    space.pageTable =
      (List.range space.numPages).map (fun i => ⟨BitVec.ofNat 32 i,BitVec.ofNat 32 i,true,false,false,false⟩) ∧
    after = executable.load (executable.noffHeader bigEndian local_).initData
      (executable.load (executable.noffHeader bigEndian local_).code (bzero before (space.numPages * PageSize))) := by
  unfold AddrSpace.construct at built
  dsimp only at built
  split at built
  · split at built
    · rename_i fits
      cases built
      exact ⟨rfl,fits,rfl,rfl⟩
    · cases built
  · cases built

-- The pages are those of the sizes, rounded up, and the stack's.
theorem pages_total (total : Nat) :
    (divRoundUp total PageSize + divRoundUp UserStackSize PageSize) * PageSize =
      total + (PageSize - total % PageSize) % PageSize + UserStackSize := by
  have rounded : ∀ n, divRoundUp n 128 * 128 = n + (128 - n % 128) % 128 := by
    intro n
    unfold divRoundUp
    split <;> omega
  have first := rounded total
  have second := rounded UserStackSize
  simp only [PageSize,UserStackSize] at *
  omega

theorem copyIn_outside (bytes : List (BitVec 8)) (memory : Int → BitVec 8) (start : Int)
    (outside : address < start ∨ start + bytes.length ≤ address) : copyIn memory start bytes address = memory address := by
  induction bytes generalizing memory start with
  | nil => rfl
  | cons byte rest ih =>
    rw [List.length_cons,Int.natCast_add] at outside
    rw [copyIn,ih _ _ (by omega),Function.update_of_ne (by omega)]

theorem load_outside (memory : Int → BitVec 8)
    (outside : 0 < segment.size.toInt → address < segment.virtualAddr.toInt ∨
      segment.virtualAddr.toInt + segment.size.toInt ≤ address) :
    executable.load segment memory address = memory address := by
  unfold Executable.load
  split
  · rename_i positive
    have size : 0 < segment.size.toInt := by simpa [BitVec.slt] using positive
    have same : (segment.size.toNat : Int) = segment.size.toInt := by
      rw [BitVec.toInt_eq_toNat_cond] at size ⊢
      split at size
      · simp [*]
      · omega
    have bounded := executable.bounded segment.inFileAddr segment.size.toNat
    refine copyIn_outside _ _ _ ?_
    rcases outside size with below | above
    · exact .inl below
    · right
      omega
  · rfl

-- The table maps every address of the space to itself.
theorem translate_identity (memory : Int → BitVec 8)
    (table : space.pageTable =
      (List.range space.numPages).map (fun i => ⟨BitVec.ofNat 32 i,BitVec.ofNat 32 i,true,false,false,false⟩))
    (few : space.numPages ≤ NumPhysPages) (virtAddr : BitVec 32) (inside : virtAddr.toNat < space.numPages * PageSize) :
    ∃ m, (space.machine memory).translate virtAddr 1 false = .ok (.ok (virtAddr.toNat,m)) := by
  have page : virtAddr.toNat / PageSize < space.numPages := Nat.div_lt_of_lt_mul (by rwa [Nat.mul_comm])
  have entry : space.pageTable[virtAddr.toNat / PageSize]? =
      some ⟨BitVec.ofNat 32 (virtAddr.toNat / PageSize),BitVec.ofNat 32 (virtAddr.toNat / PageSize),true,false,false,false⟩ := by
    rw [table,List.getElem?_map,List.getElem?_range page]
    rfl
  have frame : (BitVec.ofNat 32 (virtAddr.toNat / PageSize)).toNat = virtAddr.toNat / PageSize := by
    have small : virtAddr.toNat / PageSize < 32 := Nat.lt_of_lt_of_le page few
    rw [BitVec.toNat_ofNat,Nat.mod_eq_of_lt (Nat.lt_trans small (by decide))]
  have whole := Nat.div_add_mod' virtAddr.toNat PageSize
  have fits : virtAddr.toNat + 1 ≤ MemorySize := by
    simp only [MemorySize,PageSize] at *
    have pages := Nat.mul_le_mul_right 128 few
    omega
  have low : ¬virtAddr.toNat / PageSize ≥ NumPhysPages := by omega
  unfold Machine.translate Machine.lookup
  simp [AddrSpace.machine,entry,frame,low,whole,fits]

theorem stackPointer (few : space.numPages ≤ NumPhysPages) (some_ : UserStackSize ≤ space.numPages * PageSize) :
    (space.initRegisters StackReg).toInt = (space.numPages * PageSize : Nat) - 16 := by
  have pages := Nat.mul_le_mul_right PageSize few
  simp only [NumPhysPages,PageSize,UserStackSize] at *
  have value : (space.initRegisters StackReg).toNat = space.numPages * 128 - 16 := by
    simp only [AddrSpace.initRegisters,PageSize,if_true]
    rw [BitVec.toNat_sub,BitVec.toNat_ofNat,show (16 : BitVec 32).toNat = 16 from rfl]
    omega
  rw [BitVec.toInt_eq_toNat_of_lt (by omega),value]
  omega

-- Where an int is not negative, it is the number that its bits are.
theorem toInt_nonneg (word : BitVec 32) (sign : 0 ≤ word.toInt) : word.toInt = word.toNat := by
  rw [BitVec.toInt_eq_toNat_cond] at sign ⊢
  split at sign
  · simp [*]
  · omega

theorem byte_address (virtualAddr : BitVec 32) (k : Nat) (sign : 0 ≤ virtualAddr.toInt) (small : k < 4096) :
    (virtualAddr + BitVec.ofNat 32 k).toNat = virtualAddr.toNat + k := by
  have address := toInt_nonneg virtualAddr sign
  have high := virtualAddr.toInt_lt
  rw [BitVec.toNat_add,BitVec.toNat_ofNat]
  omega

-- All that the loader is to keep to holds exactly for compact headers.
theorem loader_keeps (built : AddrSpace.construct bigEndian executable local_ before = some (space,after)) :
    space.Holds (executable.noffHeader bigEndian local_) executable before after ↔
      (executable.noffHeader bigEndian local_).Compact := by
  obtain ⟨pages,few,table,loaded⟩ := construct_cases built
  generalize executable.noffHeader bigEndian local_ = noffH at *
  have extent : space.numPages * PageSize = noffH.total + noffH.rest + UserStackSize := by
    rw [pages,pages_total]
    rfl
  have pointer := stackPointer few (by omega)
  have memory : space.numPages * PageSize ≤ 4096 := Nat.mul_le_mul_right PageSize few
  have stackSize : UserStackSize = 1024 := rfl
  constructor
  · intro holds segment member size
    obtain ⟨low,high⟩ := holds.inside segment member size
    refine ⟨low,?_⟩
    -- The byte before the end would be the stack's as well.
    by_contra far
    refine holds.stack segment member size (segment.virtualAddr.toInt + segment.size.toInt - 1) ?_ ?_ ⟨?_,?_⟩
    all_goals omega
  · intro compact
    have inside : ∀ segment ∈ noffH.segments, 0 < segment.size.toInt → 0 ≤ segment.virtualAddr.toInt ∧
        segment.virtualAddr.toInt + segment.size.toInt + 16 ≤ noffH.total + noffH.rest := by
      intro segment member size
      obtain ⟨low,high⟩ := compact segment member size
      exact ⟨low,by omega⟩
    have codes : noffH.code ∈ noffH.segments := by simp [NoffHeader.segments]
    have inits : noffH.initData ∈ noffH.segments := by simp [NoffHeader.segments]
    refine ⟨?_,?_,?_,?_⟩
    · intro segment member size
      obtain ⟨low,high⟩ := inside segment member size
      exact ⟨low,by omega⟩
    · intro address changed
      by_contra outside
      refine changed ?_
      have apart : ∀ segment ∈ noffH.segments, 0 < segment.size.toInt → address < segment.virtualAddr.toInt ∨
          segment.virtualAddr.toInt + segment.size.toInt ≤ address := by
        intro segment member size
        obtain ⟨low,high⟩ := inside segment member size
        omega
      rw [loaded,load_outside _ (apart _ inits),load_outside _ (apart _ codes),bzero,if_neg outside]
    · intro segment member size k short
      have listed : segment ∈ noffH.segments := by
        simp only [List.mem_cons,List.not_mem_nil,or_false] at member
        rcases member with rfl | rfl
        · exact codes
        · exact inits
      obtain ⟨low,high⟩ := inside segment listed size
      have bounded := executable.bounded segment.inFileAddr segment.size.toNat
      have number := toInt_nonneg segment.size (by omega)
      have start := toInt_nonneg segment.virtualAddr low
      have address := byte_address segment.virtualAddr k low (by omega)
      have found := translate_identity after table few (segment.virtualAddr + BitVec.ofNat 32 k)
        (by omega)
      rwa [address] at found
    · intro segment member size address above below both
      obtain ⟨low,high⟩ := inside segment member size
      omega

end

-- A file with the header and zeros.
def file (noffH : NoffHeader) : Executable :=
  let segment (s : Segment) := wordBytes false s.virtualAddr ++ wordBytes false s.inFileAddr ++ wordBytes false s.size
  let bytes : List (BitVec 8) := wordBytes false noffH.noffMagic ++ segment noffH.code ++ segment noffH.initData ++ segment noffH.uninitData ++
    List.replicate 256 0
  ⟨fun position numBytes => (bytes.drop position.toNat).take numBytes,fun _ _ => by
    rw [List.length_take]
    exact Nat.min_le_left _ _⟩

-- 0x80 bytes of code, and as many of data on the next boundary of 0x100, where the
-- linker script puts them.
def gapped : NoffHeader := ⟨NOFFMAGIC,⟨0,40,0x80⟩,⟨0x100,0xa8,0x80⟩,⟨0,0,0⟩⟩

theorem loader_overlaps_stack :
    ∃ space after, AddrSpace.construct false (file gapped) (fun _ => 0) (fun _ => 0) = some (space,after) ∧
      (file gapped).noffHeader false (fun _ => 0) = gapped ∧
      ¬space.Holds gapped (file gapped) (fun _ => 0) after := by
  refine ⟨_,_,rfl,by decide,?_⟩
  intro holds
  have wrong := (holds.inside gapped.initData (by decide) (by decide)).2
  revert wrong
  decide

-- Code, data behind it and the uninitialized data behind that.
def adjoining : NoffHeader := ⟨NOFFMAGIC,⟨0,40,0x60⟩,⟨0x60,0x88,8⟩,⟨0x68,0x90,8⟩⟩

theorem loader_keeps_adjoining :
    ∃ space after, AddrSpace.construct false (file adjoining) (fun _ => 0) (fun _ => 0) = some (space,after) ∧
      space.Holds adjoining (file adjoining) (fun _ => 0) after := by
  refine ⟨_,_,rfl,?_⟩
  have header : (file adjoining).noffHeader false (fun _ => 0) = adjoining := by decide
  have keeps := @loader_keeps false (file adjoining) (fun _ => 0) (fun _ => 0) _ _ rfl
  rw [header] at keeps
  refine keeps.mpr ?_
  unfold NoffHeader.Compact
  decide

end Nachos.Mips
