import Nachos.Coff
import Nachos.Mips.Stores

-- From a COFF file, through coff2noff and the loader, to the memory a program runs in.
namespace Nachos.Coff
open Nachos.Mips

-- The NOFF file, opened. The host that converts and the host that loads need not be one.
def opened (noff : List (BitVec 8)) : Executable where
  readAt position numBytes := (noff.drop position.toNat).take numBytes
  bounded _ _ := by
    rw [List.length_take]
    exact Nat.min_le_left _ _

def Scnhdr.covers (s : Scnhdr) (place : Int) : Bool :=
  decide (s.s_paddr.toInt ≤ place ∧ place < s.s_paddr.toInt + s.s_size.toInt)

-- What the sections say a program is to find at an address before it has written
-- there. The loader copies the data after the text.
def imageByte (file : List (BitVec 8)) (sections : List Scnhdr) (place : Nat) : BitVec 8 :=
  match (filled Kind.isData sections ++ filled Kind.isText sections).find? fun s => s.covers place with
  | some s => file.getD (s.s_scnptr.toNat + (place - s.s_paddr.toInt).toNat) 0
  | none => 0

-- The pages for all sections and for the stack.
def numPages (sections : List Scnhdr) : Nat :=
  divRoundUp (amount sections + Tiling.total (Coff.pieces (filled Kind.isBss sections))).toNat PageSize + divRoundUp UserStackSize PageSize

-- The sections that are copied lie inside mainMemory.
def Within (sections : List Scnhdr) : Prop :=
  ∀ s ∈ filled Kind.isCopied sections, 0 ≤ s.s_paddr.toInt ∧ s.s_paddr.toInt + s.s_size.toInt ≤ MemorySize

section
variable {writer reader : Bool} {file noff body : List (BitVec 8)} {sections : List Scnhdr} {s : Scnhdr} {segment : Segment}
  {c c' : Copy} {local_ : NoffHeader} {noffH : NoffHeader} {stack : Nat → BitVec 8} {before : Int → BitVec 8}
  {address : Int} {memory : Int → BitVec 8} {space : AddrSpace} {after : Int → BitVec 8}

-- A word as one host writes it and another has it in memory.
def back (writer reader : Bool) (w : BitVec 32) : BitVec 32 :=
  nativeWord reader ((wordBytes writer w).getD 0 0) ((wordBytes writer w).getD 1 0) ((wordBytes writer w).getD 2 0)
    ((wordBytes writer w).getD 3 0)

theorem back_same (reader : Bool) (w : BitVec 32) : back reader reader w = w := nativeWord_wordBytes reader w

theorem back_swapped (w : BitVec 32) : WordToHost true (back false true w) = w := by
  rw [back,host_word]
  exact nativeWord_wordBytes false w

theorem inMemory_bytes (writer reader : Bool) (noffH : NoffHeader) (stack : Nat → BitVec 8) :
    NoffHeader.inMemory reader (fun i => (NoffHeader.bytes writer noffH).getD i (stack i)) =
      let turned (segment : Segment) : Segment := ⟨back writer reader segment.virtualAddr,back writer reader segment.inFileAddr,
        back writer reader segment.size⟩
      ⟨back writer reader noffH.noffMagic,turned noffH.code,turned noffH.initData,turned noffH.uninitData⟩ := by
  obtain ⟨magic,⟨a,b,c⟩,⟨d,e,f⟩,⟨g,h,i⟩⟩ := noffH
  cases writer <;> rfl

-- The constructor has the header as it was written, unless a little-endian host loads
-- what a big-endian one wrote: then it is refused.
theorem noffHeader_opened (writer reader : Bool) (magic : noffH.noffMagic = NOFFMAGIC) (body : List (BitVec 8)) (stack : Nat → BitVec 8) :
    if writer = true ∧ reader = false then
      ((opened (NoffHeader.bytes writer noffH ++ body)).noffHeader reader stack).noffMagic ≠ NOFFMAGIC
    else (opened (NoffHeader.bytes writer noffH ++ body)).noffHeader reader stack = noffH := by
  have given : (opened (NoffHeader.bytes writer noffH ++ body)).readAt 0 40 = NoffHeader.bytes writer noffH := by
    show (List.drop 0 _).take 40 = _
    rw [List.drop_zero,List.take_left' (bytes_length writer noffH)]
  unfold Executable.noffHeader
  simp only [given,inMemory_bytes,magic]
  cases writer with
  | false =>
    rw [if_neg (by simp)]
    cases reader with
    | false =>
      simp only [back_same,ne_eq,not_true_eq_false,false_and,if_false]
      rw [← magic]
    | true =>
      have other : back false true NOFFMAGIC ≠ NOFFMAGIC := by decide
      rw [if_pos ⟨other,back_swapped _⟩]
      simp only [SwapHeader,back_swapped]
      rw [← magic]
  | true =>
    cases reader with
    | false =>
      rw [if_pos ⟨rfl,rfl⟩]
      have other : back true false NOFFMAGIC ≠ NOFFMAGIC := by decide
      rw [if_neg fun both => other both.2]
      exact other
    | true =>
      rw [if_neg (by simp)]
      simp only [back_same,ne_eq,not_true_eq_false,false_and,if_false]
      rw [← magic]

theorem bind_ok {x : Except Stop α} {f : α → Except Stop β} {r : β} (done : x.bind f = .ok r) : ∃ a, x = .ok a ∧ f a = .ok r := by
  cases x with
  | error why => cases done
  | ok a => exact ⟨a,rfl,done⟩

theorem transfer_noffH (copied : transfer file s c = .ok c') : c'.noffH = c.noffH := by
  unfold transfer at copied
  by_cases negative : s.s_size.toInt < 0
  · rw [if_pos negative] at copied
    cases copied
  · rw [if_neg negative] at copied
    obtain ⟨buffer,_,copied⟩ := bind_ok copied
    obtain ⟨inNoffFile,_,copied⟩ := bind_ok copied
    cases copied
    rfl

theorem copySection_magic (copied : copySection file c s = .ok c') : c'.noffH.noffMagic = c.noffH.noffMagic := by
  unfold copySection at copied
  by_cases empty : s.s_size = 0
  · rw [if_pos empty] at copied
    cases copied
    rfl
  · rw [if_neg empty] at copied
    cases kind : s.kind with
    | text =>
      simp only [kind] at copied
      rw [transfer_noffH copied]
    | data | rdata =>
      simp only [kind] at copied
      by_cases some_ : c.noffH.initData.size ≠ 0
      · rw [if_pos some_] at copied
        cases copied
      · rw [if_neg some_] at copied
        rw [transfer_noffH copied]
    | bss | sbss =>
      simp only [kind] at copied
      obtain ⟨uninitData,_,copied⟩ := bind_ok copied
      cases copied
      rfl
    | unknown =>
      simp only [kind] at copied
      cases copied

theorem copySections_magic (sections : List Scnhdr) (copied : copySections file c sections = .ok c') :
    c'.noffH.noffMagic = c.noffH.noffMagic := by
  induction sections generalizing c with
  | nil =>
    cases copied
    rfl
  | cons s sections ih =>
    obtain ⟨middle,one,copied⟩ := bind_ok copied
    exact (ih copied).trans (copySection_magic one)

-- What coff2noff has done where it has made a file.
theorem coff2noff_made (headers : sectionHeaders writer file = .ok sections) (input : Input sections)
    (made : coff2noff writer file local_ = .ok noff) :
    ∃ c, noff = NoffHeader.bytes writer c.noffH ++ c.body ∧ c.noffH.noffMagic = NOFFMAGIC ∧ Done file sections c ∧
      Readable file sections := by
  unfold coff2noff at made
  obtain ⟨found,same,made⟩ := bind_ok made
  cases headers.symm.trans same
  obtain ⟨c,copied,made⟩ := bind_ok made
  cases made
  obtain ⟨takes,refuses⟩ := copySections_spec [] sections input (start_done file local_ (76 + 40 * sections.length))
  by_cases allowed : AllAllowed file [] sections
  · obtain ⟨after,goes,holds⟩ := takes allowed
    cases copied.symm.trans goes
    obtain ⟨contents,room,_⟩ := (allAllowed_iff [] input (by decide)).mp allowed
    exact ⟨c,rfl,copySections_magic sections copied,holds,contents,room⟩
  · obtain ⟨why,refused⟩ := refuses allowed
    cases copied.symm.trans refused

theorem copyIn_apply (bytes : List (BitVec 8)) (memory : Int → BitVec 8) (start : Int) :
    copyIn memory start bytes address =
      if start ≤ address ∧ address < start + bytes.length then bytes.getD (address - start).toNat 0 else memory address := by
  induction bytes generalizing memory start with
  | nil => rw [copyIn,if_neg (by simp only [List.length_nil]; omega)]
  | cons byte rest ih =>
    rw [copyIn,ih,List.length_cons,Int.natCast_add]
    by_cases here : address = start
    · subst here
      rw [if_neg (by omega),if_pos (by omega),Function.update_self,Int.sub_self]
      rfl
    · rw [Function.update_of_ne here]
      by_cases inside : start + 1 ≤ address ∧ address < start + 1 + rest.length
      · rw [if_pos inside,if_pos (by omega),show (address - start).toNat = (address - (start + 1)).toNat + 1 by omega,
          List.getD_cons_succ]
      · rw [if_neg inside,if_neg (by omega)]

-- An aligned address of a page that is there can be read.
theorem readMem_there {m : Machine} {addr : BitVec 32} {size p : Nat} (tlb : m.tlb = none)
    (sizes : size = 1 ∨ size = 2 ∨ size = 4) (aligned : ¬Machine.Misaligned addr size) (there : m.physical addr.toNat = some p) :
    ∃ found next, m.readMem reader addr size = .ok (found,next) := by
  obtain ⟨registers,mainMemory,_,pageTable⟩ := m
  dsimp only at tlb
  subst tlb
  cases pageTable with
  | none => cases there
  | some table =>
    simp only [Machine.physical] at there
    cases entry : table[addr.toNat / PageSize]? with
    | none => simp [entry] at there
    | some found =>
      simp only [entry,Option.ite_none_right_eq_some,Option.some.injEq] at there
      obtain ⟨⟨valid,frame⟩,_⟩ := there
      have looked := Machine.lookup_table ⟨registers,mainMemory,none,some table⟩ found entry valid
      have goes := Machine.translate_entry sizes aligned looked false
      simp only [Machine.throughEntry,Bool.and_false,Bool.false_eq_true,if_false,if_neg (Nat.not_le.mpr frame)] at goes
      obtain ⟨value,fetched⟩ := Machine.fetch_sizes (Machine.withTable ⟨registers,mainMemory,none,some table⟩
        (table.set (addr.toNat / PageSize) (Machine.marked found false))) reader
        (found.physicalPage.toNat * PageSize + addr.toNat % PageSize) sizes
      refine ⟨value,Machine.withTable ⟨registers,mainMemory,none,some table⟩
        (table.set (addr.toNat / PageSize) (Machine.marked found false)),?_⟩
      unfold Machine.readMem
      rw [show Machine.translate ⟨registers,mainMemory,none,some table⟩ addr size false = _ from goes]
      simp only [fetched]

-- The machine the constructor sets up.
theorem loaded_pages (few : space.numPages ≤ NumPhysPages)
    (table : space.pageTable =
      (List.range space.numPages).map (fun i => ⟨BitVec.ofNat 32 i,BitVec.ofNat 32 i,true,false,false,false⟩)) :
    Machine.Separate space.pageTable ∧
    ∀ place, (space.machine memory).physical place = if place < space.numPages * PageSize then some place else none := by
  have entry : ∀ i, space.pageTable[i]? =
      if i < space.numPages then some ⟨BitVec.ofNat 32 i,BitVec.ofNat 32 i,true,false,false,false⟩ else none := by
    intro i
    rw [table,List.getElem?_map]
    by_cases inside : i < space.numPages
    · rw [List.getElem?_range inside,if_pos inside]
      rfl
    · rw [List.getElem?_eq_none (by rw [List.length_range]; omega),if_neg inside]
      rfl
  have frame : ∀ i, i < space.numPages → (BitVec.ofNat 32 i).toNat = i := by
    intro i inside
    have small : i < 32 := Nat.lt_of_lt_of_le inside few
    rw [BitVec.toNat_ofNat,Nat.mod_eq_of_lt (Nat.lt_trans small (by decide))]
  constructor
  · intro i j one two first second _ _ same
    rw [entry] at first second
    simp only [Option.ite_none_right_eq_some,Option.some.injEq] at first second
    obtain ⟨low,rfl⟩ := first
    obtain ⟨low',rfl⟩ := second
    rw [← frame i low,← frame j low']
    exact congrArg BitVec.toNat same
  · intro place
    have page : place / PageSize < space.numPages ↔ place < space.numPages * PageSize := by
      rw [Nat.div_lt_iff_lt_mul (by decide)]
    unfold Machine.physical
    simp only [AddrSpace.machine,entry]
    by_cases inside : place < space.numPages * PageSize
    · rw [if_pos (page.mpr inside),if_pos inside]
      simp only [frame _ (page.mpr inside)]
      rw [if_pos ⟨trivial,Nat.lt_of_lt_of_le (page.mpr inside) few⟩,Nat.div_add_mod' place PageSize]
    · rw [if_neg fun low => inside (page.mp low),if_neg inside]

-- A segment of the header, and the bytes the file has for it.
theorem load_apply (placed : Placed file body segment sections) (long : ∀ s ∈ sections, 0 < s.s_size.toInt)
    (one : sections.length ≤ 1) (memory : Int → BitVec 8) (place : Nat) :
    (opened (NoffHeader.bytes writer noffH ++ body)).load segment memory place =
      match sections.find? fun s => s.covers place with
      | some s => file.getD (s.s_scnptr.toNat + (place - s.s_paddr.toInt).toNat) 0
      | none => memory place := by
  match sections,one with
  | [],_ =>
    have empty := placed.empty rfl
    unfold Executable.load
    rw [if_neg (by simp [empty])]
    rfl
  | [s],_ =>
    obtain ⟨virtualAddr,size,k,start,bytes⟩ := placed.carried s (List.mem_singleton.mpr rfl)
    have live := long s (List.mem_singleton.mpr rfl)
    have sign := toInt_nonneg s.s_size (by omega)
    have given : (opened (NoffHeader.bytes writer noffH ++ body)).readAt segment.inFileAddr s.s_size.toNat =
        (body.drop k).take s.s_size.toNat := by
      show ((NoffHeader.bytes writer noffH ++ body).drop segment.inFileAddr.toNat).take s.s_size.toNat = _
      rw [start,← bytes_length writer noffH,List.drop_length_add_append]
    have whole : k + s.s_size.toNat ≤ body.length := by
      obtain ⟨byte,_,here⟩ := bytes (s.s_size.toNat - 1) (by omega)
      obtain ⟨within,_⟩ := List.getElem?_eq_some_iff.mp here
      omega
    have length : ((body.drop k).take s.s_size.toNat).length = s.s_size.toNat := by
      rw [List.length_take,List.length_drop]
      omega
    unfold Executable.load
    rw [if_pos (by rw [size]; simpa [BitVec.slt] using live),copyIn_apply,virtualAddr,size,given,length]
    by_cases inside : s.s_paddr.toInt ≤ place ∧ (place : Int) < s.s_paddr.toInt + s.s_size.toInt
    · rw [if_pos (by omega),List.find?_cons_of_pos (by simpa [Scnhdr.covers] using inside)]
      obtain ⟨byte,there,here⟩ := bytes (place - s.s_paddr.toInt).toNat (by omega)
      simp only [List.getD_eq_getElem?_getD,List.getElem?_take_of_lt (show (place - s.s_paddr.toInt).toNat < s.s_size.toNat by omega),
        List.getElem?_drop,here,there]
    · rw [if_neg (by omega),List.find?_cons_of_neg (by simpa [Scnhdr.covers] using inside),List.find?_nil]

theorem amount_parts (sections : List Scnhdr) :
    amount sections = Tiling.total (pieces (filled Kind.isText sections)) + Tiling.total (pieces (filled Kind.isData sections)) := by
  induction sections with
  | nil => rfl
  | cons s rest ih =>
    have one : amount (s :: rest) = amount [s] + amount rest := amount_append [s] rest
    have parts : ∀ p, Tiling.total (pieces (filled p (s :: rest))) =
        Tiling.total (pieces (filled p [s])) + Tiling.total (pieces (filled p rest)) := by
      intro p
      rw [← List.singleton_append,filled_append,pieces_append,Tiling.total_append]
    have here : amount [s] = Tiling.total (pieces (filled Kind.isText [s])) + Tiling.total (pieces (filled Kind.isData [s])) := by
      unfold amount
      by_cases empty : s.s_size = 0
      · rw [filled_none (.inl empty),filled_none (.inl empty),filled_none (.inl empty)]
        rfl
      · cases kind : s.kind with
        | text =>
          rw [filled_one empty (by rw [kind]; rfl),filled_one empty (by rw [kind]; rfl),filled_none (.inr (by rw [kind]; rfl))]
          simp [pieces]
        | data | rdata =>
          rw [filled_one empty (by rw [kind]; rfl),filled_none (.inr (by rw [kind]; rfl)),filled_one empty (by rw [kind]; rfl)]
          simp [pieces]
        | bss | sbss | unknown =>
          rw [filled_none (.inr (by rw [kind]; rfl)),filled_none (.inr (by rw [kind]; rfl)),filled_none (.inr (by rw [kind]; rfl))]
          rfl
    rw [one,here,parts,parts,ih]
    omega

-- A segment is as long as the sections it comes from.
theorem Placed.size_total (placed : Placed file body segment sections) (one : sections.length ≤ 1) :
    segment.size.toInt = Tiling.total (pieces sections) := by
  match sections,one with
  | [],_ =>
    rw [placed.empty rfl]
    rfl
  | [s],_ =>
    obtain ⟨_,size,_⟩ := placed.carried s (List.mem_singleton.mpr rfl)
    rw [size]
    simp [pieces,Scnhdr.piece]

-- The sum the host makes of the sizes does not wrap around.
theorem Done.total (holds : Done file sections c) (input : Input sections) (readable : Readable file sections) :
    c.noffH.total = (Coff.amount sections + Tiling.total (pieces (filled Kind.isBss sections))).toNat := by
  have code := holds.code.size_total input.text
  have initData := holds.initData.size_total input.data
  have uninitData := holds.uninitData.size
  have parts := amount_parts sections
  have room := readable.room
  have long : ∀ p, 0 ≤ Tiling.total (pieces (filled p sections)) := fun p => Tiling.total_nonneg (pieces_long (filled_long input.sizes p))
  have text := long Kind.isText
  have data := long Kind.isData
  have bss := long Kind.isBss
  have first := toInt_nonneg c.noffH.code.size (by omega)
  have second := toInt_nonneg c.noffH.initData.size (by omega)
  have third := toInt_nonneg c.noffH.uninitData.size (by omega)
  have high := c.noffH.uninitData.size.toInt_lt
  unfold NoffHeader.total
  rw [BitVec.toNat_add,BitVec.toNat_add]
  omega

-- All that is in the memory of the program when it starts.
theorem construct_image (holds : Done file sections c) (input : Input sections)
    (header : (opened (NoffHeader.bytes writer c.noffH ++ c.body)).noffHeader reader stack = c.noffH)
    (built : AddrSpace.construct reader (opened (NoffHeader.bytes writer c.noffH ++ c.body)) stack before = some (space,after)) :
    ∀ place : Nat, place < space.numPages * PageSize → after place = imageByte file sections place := by
  obtain ⟨_,_,_,loaded⟩ := construct_cases built
  intro place inside
  rw [loaded,header,load_apply holds.initData (filled_long input.sizes _) input.data,
    load_apply holds.code (filled_long input.sizes _) input.text,imageByte,List.find?_append]
  cases (filled Kind.isData sections).find? fun s => s.covers place with
  | some s => rfl
  | none =>
    rw [Option.none_or]
    cases (filled Kind.isText sections).find? fun s => s.covers place with
    | some s => rfl
    | none =>
      unfold bzero
      rw [if_pos (by omega)]

theorem filled_copied {p : Kind → Bool} (copied : ∀ kind, p kind = true → kind.isCopied = true) (member : s ∈ filled p sections) :
    s ∈ filled Kind.isCopied sections := by
  obtain ⟨there,live⟩ := List.mem_filter.mp member
  rw [Bool.and_eq_true] at live
  exact List.mem_filter.mpr ⟨there,by rw [Bool.and_eq_true]; exact ⟨live.1,copied _ live.2⟩⟩

-- A segment that comes from a section inside mainMemory is copied there.
theorem load_within {sections' : List Scnhdr} (within : Within sections) (placed : Placed file body segment sections')
    (one : sections'.length ≤ 1) (copied : ∀ s ∈ sections', s ∈ filled Kind.isCopied sections) {executable : Executable}
    (memory : Int → BitVec 8) (outside : ¬(0 ≤ address ∧ address < MemorySize)) :
    executable.load segment memory address = memory address := by
  refine load_outside memory fun positive => ?_
  match sections',one with
  | [],_ =>
    rw [placed.empty rfl] at positive
    exact absurd positive (by decide)
  | [s],_ =>
    have here := List.mem_singleton.mpr (rfl : s = s)
    obtain ⟨virtualAddr,size,_⟩ := placed.carried s here
    obtain ⟨low,high⟩ := within s (copied s here)
    rw [virtualAddr,size]
    omega

-- The constructor writes nothing but mainMemory.
theorem construct_within (within : Within sections) (holds : Done file sections c) (input : Input sections)
    (header : (opened (NoffHeader.bytes writer c.noffH ++ c.body)).noffHeader reader stack = c.noffH)
    (built : AddrSpace.construct reader (opened (NoffHeader.bytes writer c.noffH ++ c.body)) stack before = some (space,after))
    (outside : ¬(0 ≤ address ∧ address < MemorySize)) : after address = before address := by
  obtain ⟨_,few,_,loaded⟩ := construct_cases built
  have text : ∀ s ∈ filled Kind.isText sections, s ∈ filled Kind.isCopied sections :=
    fun s => filled_copied fun kind is => by rw [Kind.isCopied,is]; rfl
  have data : ∀ s ∈ filled Kind.isData sections, s ∈ filled Kind.isCopied sections :=
    fun s => filled_copied fun kind is => by rw [Kind.isCopied,is,Bool.or_true]
  have pages := Nat.mul_le_mul_right PageSize few
  rw [loaded,header,load_within within holds.initData input.data data _ outside,
    load_within within holds.code input.text text _ outside,bzero,if_neg]
  simp only [MemorySize] at outside
  omega

-- Whatever the two hosts are, a converted file with its sections inside mainMemory is loaded
-- if it fits, except a big-endian one on a little-endian host, and nothing outside mainMemory
-- is written; and then the program finds at every address of its space what it wrote there
-- last, and before that the bytes of the sections, and zeros.
theorem converted_loads (headers : sectionHeaders writer file = .ok sections) (input : Input sections) (within : Within sections)
    (made : coff2noff writer file local_ = .ok noff) (reader : Bool) (stack : Nat → BitVec 8) (before : Int → BitVec 8) :
    ((AddrSpace.construct reader (opened noff) stack before).isSome ↔
      ¬(writer = true ∧ reader = false) ∧ numPages sections ≤ NumPhysPages) ∧
    ∀ space after, AddrSpace.construct reader (opened noff) stack before = some (space,after) → space.numPages = numPages sections ∧
      (∀ address : Int, ¬(0 ≤ address ∧ address < MemorySize) → after address = before address) ∧
      ∀ log m, Machine.Accesses reader (space.machine after) log m → ∀ (addr : BitVec 32) size, size = 1 ∨ size = 2 ∨ size = 4 →
        (∀ found next, m.readMem reader addr size = .ok (found,next) → ∀ i < size, addr.toNat + i < space.numPages * PageSize ∧
          byteOf found i = (lastByte log (addr.toNat + i)).getD (imageByte file sections (addr.toNat + i))) ∧
        (¬Machine.Misaligned addr size → addr.toNat < space.numPages * PageSize → ∃ found next, m.readMem reader addr size = .ok (found,next)) := by
  obtain ⟨c,rfl,magic,holds,readable⟩ := coff2noff_made headers input made
  have total := holds.total input readable
  have header := noffHeader_opened writer reader magic c.body stack
  have size : divRoundUp c.noffH.total PageSize + divRoundUp UserStackSize PageSize = numPages sections := by
    rw [total]
    rfl
  have builds : (AddrSpace.construct reader (opened (NoffHeader.bytes writer c.noffH ++ c.body)) stack before).isSome ↔
      ¬(writer = true ∧ reader = false) ∧ numPages sections ≤ NumPhysPages := by
    unfold AddrSpace.construct
    by_cases cross : writer = true ∧ reader = false
    · rw [if_pos cross] at header
      exact ⟨fun some_ => absurd ((congrArg Option.isSome (if_neg header)).symm.trans some_) Bool.false_ne_true,
        fun all => absurd cross all.1⟩
    · rw [if_neg cross] at header
      rw [← size]
      simp only [header,magic,if_true,cross,not_false_eq_true,true_and]
      by_cases fits : divRoundUp c.noffH.total PageSize + divRoundUp UserStackSize PageSize ≤ NumPhysPages
      · simp only [fits,iff_true]
        exact congrArg Option.isSome (if_pos fits)
      · simp only [fits,iff_false]
        exact fun some_ => Bool.false_ne_true ((congrArg Option.isSome (if_neg fits)).symm.trans some_)
  refine ⟨builds,?_⟩
  intro space after built
  have cross : ¬(writer = true ∧ reader = false) := (builds.mp (by rw [built]; rfl)).1
  rw [if_neg cross] at header
  obtain ⟨count,few,table,_⟩ := construct_cases built
  obtain ⟨separate,physical⟩ : Machine.Separate space.pageTable ∧ ∀ place, (space.machine after).physical place =
      if place < space.numPages * PageSize then some place else none := loaded_pages few table
  have image := construct_image holds input header built
  refine ⟨by rw [count,header,size],fun address outside => construct_within within holds input header built outside,?_⟩
  intro log m path addr size sizes
  have kept := Machine.accesses_hold rfl rfl separate path
  constructor
  · intro found next read i inside
    obtain ⟨now,there⟩ := Option.isSome_iff_exists.mp kept.table
    obtain ⟨physAddr,reached,_⟩ := Machine.readMem_bytes kept.tlb there sizes read
    obtain ⟨place,byte⟩ := reached i inside
    rw [kept.physical] at place
    rw [byte,kept.bytes _ _ place]
    rw [physical,Option.ite_none_right_eq_some,Option.some.injEq] at place
    obtain ⟨low,same⟩ := place
    refine ⟨low,?_⟩
    rw [← same]
    show Option.getD _ (after ((addr.toNat + i : Nat) : Int)) = _
    rw [image _ low]
  · intro aligned inside
    refine readMem_there kept.tlb sizes aligned (p := addr.toNat) ?_
    rw [kept.physical,physical,if_pos inside]

end

-- Code and data, converted on a little-endian host and loaded on a big-endian one.
set_option maxRecDepth 4000 in
theorem converted_loads_program : ∃ noff space after, coff2noff false program noNoff = .ok noff ∧
    AddrSpace.construct true (opened noff) (fun _ => 0) (fun _ => 9) = some (space,after) ∧ after 4096 = 9 ∧
    ∃ found next, (space.machine after).readMem true 4 4 = .ok (found,next) ∧
      byteOf found 0 = 5 ∧ byteOf found 1 = 6 ∧ byteOf found 2 = 0 ∧ byteOf found 3 = 0 := by
  have headers : sectionHeaders false program = .ok programSections := rfl
  have input : Input programSections := ⟨by decide,by decide,by decide,by decide,by decide⟩
  have within : Within programSections := by unfold Within; decide
  have makes : ∃ noff, coff2noff false program noNoff = .ok noff := ⟨_,rfl⟩
  obtain ⟨noff,made⟩ := makes
  obtain ⟨builds,loaded⟩ := converted_loads headers input within made true (fun _ => 0) fun _ => 9
  obtain ⟨⟨space,after⟩,built⟩ := Option.isSome_iff_exists.mp (builds.mpr ⟨by decide,by decide⟩)
  obtain ⟨count,kept,runs⟩ := loaded space after built
  have large : numPages programSections = 9 := by decide
  obtain ⟨reads,succeeds⟩ := runs [] _ .none 4 4 (by decide)
  obtain ⟨found,next,read⟩ := succeeds (by decide) (by rw [count,large]; decide)
  have byte : ∀ i < 4, byteOf found i = imageByte program programSections (4 + i) := by
    intro i inside
    have there := (reads found next read i inside).2
    simpa [lastByte] using there
  refine ⟨noff,space,after,made,built,kept 4096 (by decide),found,next,read,?_⟩
  rw [byte 0 (by decide),byte 1 (by decide),byte 2 (by decide),byte 3 (by decide)]
  decide

end Nachos.Coff
