import Nachos.Library.Tiling
import Nachos.Mips.Bytes
import Nachos.Mips.AddrSpace

-- coff2noff.c: from a COFF file to a NOFF file. A long of coff.h is 32 bits wide.
namespace Nachos.Coff
open Nachos.Mips

def MIPSELMAGIC : BitVec 16 := 0x0162
def OMAGIC : BitVec 16 := 0x0107

-- `failed` is exit(1), with the output unlinked. `undefined` is a signed overflow or a
-- negative count, which C and the host leave open.
inductive Stop where
  | failed
  | undefined
  deriving DecidableEq, Repr

inductive Kind where
  | text
  | data
  | rdata
  | bss
  | sbss
  | unknown
  deriving DecidableEq, Repr

structure Scnhdr where
  s_name : List (BitVec 8)
  s_paddr : BitVec 32
  s_size : BitVec 32
  s_scnptr : BitVec 32
  deriving DecidableEq, Repr

-- strcmp of the eight bytes of a name with a string of at most seven.
def named (s_name text : List (BitVec 8)) : Bool := s_name.take (text.length + 1) == text ++ [0]

def Scnhdr.kind (s : Scnhdr) : Kind :=
  if named s.s_name [0x2e,0x74,0x65,0x78,0x74] then .text
  else if named s.s_name [0x2e,0x64,0x61,0x74,0x61] then .data
  else if named s.s_name [0x2e,0x72,0x64,0x61,0x74,0x61] then .rdata
  else if named s.s_name [0x2e,0x62,0x73,0x73] then .bss
  else if named s.s_name [0x2e,0x73,0x62,0x73,0x73] then .sbss
  else .unknown

def plus (a b : BitVec 32) : Except Stop (BitVec 32) := if a.saddOverflow b then .error .undefined else .ok (a + b)

section
variable (bigEndian : Bool) (file : List (BitVec 8))

def Read (position nBytes : Nat) : Except Stop (List (BitVec 8)) :=
  if nBytes ≤ file.length - position then .ok ((file.drop position).take nBytes) else .error .failed

def short (bytes : List (BitVec 8)) (i : Nat) : BitVec 16 :=
  ShortToHost bigEndian (nativeShort bigEndian (bytes.getD i 0) (bytes.getD (i + 1) 0))

def word (bytes : List (BitVec 8)) (i : Nat) : BitVec 32 :=
  WordToHost bigEndian (nativeWord bigEndian (bytes.getD i 0) (bytes.getD (i + 1) 0) (bytes.getD (i + 2) 0) (bytes.getD (i + 3) 0))

def scnhdr (bytes : List (BitVec 8)) : Scnhdr :=
  ⟨bytes.take 8,word bigEndian bytes 8,word bigEndian bytes 16,word bigEndian bytes 20⟩

-- The file header, the system header and the section headers, which follow one another.
def sectionHeaders : Except Stop (List Scnhdr) := do
  let fileh ← Read file 0 20
  if short bigEndian fileh 0 ≠ MIPSELMAGIC then .error .failed
  else
    let systemh ← Read file 20 56
    if short bigEndian systemh 0 ≠ OMAGIC then .error .failed
    else
      let numsections := (short bigEndian fileh 2).toNat
      let sections ← Read file 76 (numsections * 40)
      .ok ((List.range numsections).map fun i => scnhdr bigEndian (sections.drop (40 * i)))

-- What main holds while it copies: `position` is where fdIn is, `body` what has been
-- written to fdOut behind the place of the header.
structure Copy where
  noffH : NoffHeader
  inNoffFile : BitVec 32
  position : Nat
  body : List (BitVec 8)

-- lseek does nothing where the position is negative.
def transfer (s : Scnhdr) (c : Copy) : Except Stop Copy :=
  let position := if s.s_scnptr.toInt < 0 then c.position else s.s_scnptr.toNat
  if s.s_size.toInt < 0 then .error .undefined
  else do
    let buffer ← Read file position s.s_size.toNat
    let inNoffFile ← plus c.inNoffFile s.s_size
    .ok {c with inNoffFile, position := position + s.s_size.toNat, body := c.body ++ buffer}

def merge (s : Scnhdr) (uninitData : Segment) : Except Stop Segment :=
  if uninitData.size ≠ 0 then do
    let behind ← plus uninitData.virtualAddr uninitData.size
    if s.s_paddr = behind then .error .failed
    else
      let size ← plus uninitData.size s.s_size
      .ok {uninitData with size}
  else .ok {uninitData with virtualAddr := s.s_paddr, size := s.s_size}

def copySection (c : Copy) (s : Scnhdr) : Except Stop Copy :=
  if s.s_size = 0 then .ok c
  else match s.kind with
    | .text => transfer file s {c with noffH := {c.noffH with code := ⟨s.s_paddr,c.inNoffFile,s.s_size⟩}}
    | .data | .rdata =>
      if c.noffH.initData.size ≠ 0 then .error .failed
      else transfer file s {c with noffH := {c.noffH with initData := ⟨s.s_paddr,c.inNoffFile,s.s_size⟩}}
    | .bss | .sbss => do
      let uninitData ← merge s c.noffH.uninitData
      .ok {c with noffH := {c.noffH with uninitData}}
    | .unknown => .error .failed

def copySections (c : Copy) : List Scnhdr → Except Stop Copy
  | [] => .ok c
  | s :: sections => do
    let c ← copySection file c s
    copySections c sections

-- The variable noffH when the sizes have been cleared; the rest is what was there before.
def cleared (local_ : NoffHeader) : NoffHeader :=
  ⟨NOFFMAGIC,{local_.code with size := 0},{local_.initData with size := 0},{local_.uninitData with size := 0}⟩

def NoffHeader.bytes (noffH : NoffHeader) : List (BitVec 8) :=
  [noffH.noffMagic,noffH.code.virtualAddr,noffH.code.inFileAddr,noffH.code.size,noffH.initData.virtualAddr,
    noffH.initData.inFileAddr,noffH.initData.size,noffH.uninitData.virtualAddr,noffH.uninitData.inFileAddr,
    noffH.uninitData.size].flatMap (wordBytes bigEndian)

def coff2noff (local_ : NoffHeader) : Except Stop (List (BitVec 8)) := do
  let sections ← sectionHeaders bigEndian file
  let c ← copySections file ⟨cleared local_,40,76 + 40 * sections.length,[]⟩ sections
  .ok (NoffHeader.bytes bigEndian c.noffH ++ c.body)

end

-- What a NOFF file describes, read by the host that wrote it.
def header (bigEndian : Bool) (noff : List (BitVec 8)) : NoffHeader := NoffHeader.inMemory bigEndian fun i => noff.getD i 0

def Kind.isText (kind : Kind) : Bool := kind == .text
def Kind.isData (kind : Kind) : Bool := kind == .data || kind == .rdata
def Kind.isBss (kind : Kind) : Bool := kind == .bss || kind == .sbss
def Kind.isCopied (kind : Kind) : Bool := kind.isText || kind.isData

-- The sections of a kind that are not empty, in the order of their headers.
def filled (p : Kind → Bool) (sections : List Scnhdr) : List Scnhdr :=
  sections.filter fun s => s.s_size ≠ 0 && p s.kind

def Scnhdr.piece (s : Scnhdr) : Int × Int := (s.s_paddr.toInt,s.s_size.toInt)

def pieces (sections : List Scnhdr) : Tiling.Pieces := sections.map Scnhdr.piece

-- A segment of the NOFF file has the address, the size and the bytes of a section.
structure Carries (file noff : List (BitVec 8)) (segment : Segment) (s : Scnhdr) : Prop where
  virtualAddr : segment.virtualAddr = s.s_paddr
  size : segment.size = s.s_size
  bytes : ∀ i < s.s_size.toNat, ∃ byte, file[s.s_scnptr.toNat + i]? = some byte ∧
    noff[segment.inFileAddr.toNat + i]? = some byte

structure SameImage (file noff : List (BitVec 8)) (sections : List Scnhdr) (noffH : NoffHeader) : Prop where
  code : ∀ s ∈ filled Kind.isText sections, Carries file noff noffH.code s
  noCode : filled Kind.isText sections = [] → noffH.code.size = 0
  initData : ∀ s ∈ filled Kind.isData sections, Carries file noff noffH.initData s
  noInitData : filled Kind.isData sections = [] → noffH.initData.size = 0
  uninitData : ∀ x, Tiling.Covers (pieces (filled Kind.isBss sections)) x ↔
    noffH.uninitData.virtualAddr.toInt ≤ x ∧ x < noffH.uninitData.virtualAddr.toInt + noffH.uninitData.size.toInt

-- What the sections of a COFF file are taken to be.
structure Input (sections : List Scnhdr) : Prop where
  sizes : ∀ s ∈ sections, 0 ≤ s.s_size.toInt
  pointers : ∀ s ∈ sections, 0 ≤ s.s_scnptr.toInt
  known : ∀ s ∈ sections, s.s_size ≠ 0 → s.kind ≠ .unknown
  text : (filled Kind.isText sections).length ≤ 1
  data : (filled Kind.isData sections).length ≤ 1

def amount (sections : List Scnhdr) : Int := Tiling.total (pieces (filled Kind.isCopied sections))

-- The bytes of the sections are in the file, and positions behind them are ints.
structure Readable (file : List (BitVec 8)) (sections : List Scnhdr) : Prop where
  contents : ∀ s ∈ filled Kind.isCopied sections, s.s_scnptr.toNat + s.s_size.toNat ≤ file.length
  room : 40 + amount sections ≤ 2147483647

-- First .bss, then .sbss, each beginning where the one before it ends.
def InOrder (uninit : List Scnhdr) : Prop :=
  (∃ bss sbss, uninit = bss ++ sbss ∧ (∀ s ∈ bss, s.kind = .bss) ∧ ∀ s ∈ sbss, s.kind = .sbss) ∧
  ∀ first ∈ uninit.head?, Tiling.Row first.s_paddr.toInt (pieces uninit)

structure Preserves (bigEndian : Bool) (file : List (BitVec 8)) (sections : List Scnhdr) (local_ : NoffHeader) : Prop where
  image : ∀ noff, coff2noff bigEndian file local_ = .ok noff → SameImage file noff sections (header bigEndian noff)
  succeeds : Readable file sections → InOrder (filled Kind.isBss sections) → ∃ noff, coff2noff bigEndian file local_ = .ok noff

-- A section does not begin where those before it would end if they stood in a row, and
-- the sums are ints.
def PassesOne (before : List Scnhdr) (s : Scnhdr) : Prop :=
  ∀ first ∈ before.head?, first.s_paddr.toInt + Tiling.total (pieces before) ≤ 2147483647 ∧
    s.s_paddr.toInt ≠ first.s_paddr.toInt + Tiling.total (pieces before) ∧
    Tiling.total (pieces before) + s.s_size.toInt ≤ 2147483647

def Passes (before : List Scnhdr) : List Scnhdr → Prop
  | [] => True
  | s :: rest => PassesOne before s ∧ Passes (before ++ [s]) rest

-- The sections, from the address of the first on, can be put in a row.
def Tiles (uninit : List Scnhdr) : Prop :=
  ∀ first ∈ uninit.head?, ∃ row, row.Perm (pieces uninit) ∧ Tiling.Row first.s_paddr.toInt row

-- When merging keeps the image and does not refuse what it should take.
def Mergeable (uninit : List Scnhdr) : Prop := uninit.length ≤ 1 ∨ ¬InOrder uninit ∧ (Passes [] uninit → Tiles uninit)

variable {bigEndian : Bool} {file body : List (BitVec 8)} {sections done rest uninit : List Scnhdr} {s : Scnhdr}
  {segment : Segment} {c c' : Copy} {local_ : NoffHeader} {p : Kind → Bool}

theorem filled_append (p : Kind → Bool) (done rest : List Scnhdr) : filled p (done ++ rest) = filled p done ++ filled p rest :=
  List.filter_append _ _

theorem filled_one (live : s.s_size ≠ 0) (holds : p s.kind = true) : filled p [s] = [s] := by
  rw [filled,List.filter_singleton,holds,Bool.and_true,decide_eq_true live,cond_true]

theorem filled_none (fails : s.s_size = 0 ∨ p s.kind = false) : filled p [s] = [] := by
  rcases fails with empty | other
  · simp [filled,empty]
  · simp [filled,other]

theorem mem_filled : s ∈ filled p sections ↔ s ∈ sections ∧ s.s_size ≠ 0 ∧ p s.kind = true := by
  simp [filled]

theorem pieces_append (done rest : List Scnhdr) : pieces (done ++ rest) = pieces done ++ pieces rest := List.map_append

theorem plus_ok (a b : BitVec 32) (low : -2147483648 ≤ a.toInt + b.toInt) (high : a.toInt + b.toInt ≤ 2147483647) :
    ∃ sum, plus a b = .ok sum ∧ sum.toInt = a.toInt + b.toInt := by
  have fits : ¬a.saddOverflow b = true := by
    simp only [BitVec.saddOverflow,Bool.or_eq_true,decide_eq_true_eq]
    omega
  exact ⟨a + b,if_neg fits,BitVec.toInt_add_of_not_saddOverflow fits⟩

theorem plus_undefined (a b : BitVec 32) (high : 2147483647 < a.toInt + b.toInt) : plus a b = .error .undefined := by
  have large : a.saddOverflow b = true := by
    simp only [BitVec.saddOverflow,Bool.or_eq_true,decide_eq_true_eq]
    omega
  exact if_pos large

-- The merged segment of sections so far.
structure Merged (segment : Segment) (uninit : List Scnhdr) : Prop where
  size : segment.size.toInt = Tiling.total (pieces uninit)
  first : ∀ first ∈ uninit.head?, segment.virtualAddr = first.s_paddr

theorem toInt_ne_zero (word : BitVec 32) (some_ : word.toInt ≠ 0) : word ≠ 0 := by
  rintro rfl
  exact some_ rfl

theorem pieces_long (long : ∀ s ∈ uninit, 0 < s.s_size.toInt) : ∀ piece ∈ pieces uninit, 0 < piece.2 := by
  intro piece member
  obtain ⟨s,there,rfl⟩ := List.mem_map.mp member
  exact long s there

theorem merge_spec (merged : Merged segment uninit) (long : ∀ s ∈ uninit, 0 < s.s_size.toInt) (live : 0 < s.s_size.toInt) :
    (PassesOne uninit s → ∃ after, merge s segment = .ok after ∧ Merged after (uninit ++ [s])) ∧
    (¬PassesOne uninit s → ∃ why, merge s segment = .error why) := by
  obtain ⟨size,first⟩ := merged
  cases uninit with
  | nil =>
    have zero : segment.size = 0 := BitVec.eq_of_toInt_eq size
    refine ⟨fun _ => ⟨⟨s.s_paddr,segment.inFileAddr,s.s_size⟩,?_,?_,?_⟩,fun fails => absurd ?_ fails⟩
    · simp [merge,zero]
    · simp [pieces,Scnhdr.piece]
    · simp
    · simp [PassesOne]
  | cons u us =>
    have start : segment.virtualAddr = u.s_paddr := first u rfl
    have positive : 0 < Tiling.total (pieces (u :: us)) := by
      have head := long u List.mem_cons_self
      have others := Tiling.total_nonneg (pieces_long fun s member => long s (List.mem_cons_of_mem u member))
      simp only [pieces,List.map_cons,Tiling.total_cons,Scnhdr.piece] at others ⊢
      omega
    have some_ : segment.size ≠ 0 := toInt_ne_zero _ (by omega)
    have sum : Tiling.total (pieces (u :: us ++ [s])) = Tiling.total (pieces (u :: us)) + s.s_size.toInt := by
      rw [pieces_append,Tiling.total_append]
      simp [pieces,Scnhdr.piece]
    have low : -2147483648 ≤ u.s_paddr.toInt := BitVec.le_toInt u.s_paddr
    simp only [PassesOne,List.head?_cons,Option.mem_def,Option.some.injEq,forall_eq',merge,if_pos some_,start]
    generalize Tiling.total (pieces (u :: us)) = size' at *
    by_cases near : u.s_paddr.toInt + size' ≤ 2147483647
    · obtain ⟨behind,adds,behind'⟩ := plus_ok u.s_paddr segment.size (by omega) (by omega)
      rw [adds]
      by_cases same : s.s_paddr = behind
      · refine ⟨fun passes => absurd ?_ passes.2.1,fun _ => ⟨.failed,?_⟩⟩
        · rw [same,behind',size]
        · exact if_pos same
      · by_cases small : size' + s.s_size.toInt ≤ 2147483647
        · obtain ⟨whole,adds',whole'⟩ := plus_ok segment.size s.s_size (by omega) (by omega)
          refine ⟨fun _ => ⟨⟨u.s_paddr,segment.inFileAddr,whole⟩,?_,?_,?_⟩,fun fails => absurd ⟨near,?_,small⟩ fails⟩
          · refine (if_neg same).trans ?_
            rw [adds']
            rfl
          · rw [whole',sum,size]
          · simp
          · intro equal
            exact same (BitVec.eq_of_toInt_eq (by rw [equal,behind',size]))
        · refine ⟨fun passes => absurd passes.2.2 small,fun _ => ⟨.undefined,?_⟩⟩
          refine (if_neg same).trans ?_
          rw [plus_undefined segment.size s.s_size (by omega)]
          rfl
    · refine ⟨fun passes => absurd passes.1 near,fun _ => ⟨.undefined,?_⟩⟩
      rw [plus_undefined u.s_paddr segment.size (by omega)]
      rfl

-- A segment written to the body of the output from the one section of its kind.
structure Placed (file body : List (BitVec 8)) (segment : Segment) (sections : List Scnhdr) : Prop where
  empty : sections = [] → segment.size = 0
  carried : ∀ s ∈ sections, segment.virtualAddr = s.s_paddr ∧ segment.size = s.s_size ∧
    ∃ k, segment.inFileAddr.toNat = 40 + k ∧
      ∀ i < s.s_size.toNat, ∃ byte, file[s.s_scnptr.toNat + i]? = some byte ∧ body[k + i]? = some byte

theorem Placed.more (placed : Placed file body segment sections) (more : List (BitVec 8)) :
    Placed file (body ++ more) segment sections := by
  refine ⟨placed.empty,?_⟩
  intro s member
  obtain ⟨virtualAddr,size,k,place,bytes⟩ := placed.carried s member
  refine ⟨virtualAddr,size,k,place,?_⟩
  intro i inside
  obtain ⟨byte,there,here⟩ := bytes i inside
  obtain ⟨within,_⟩ := List.getElem?_eq_some_iff.mp here
  exact ⟨byte,there,by rw [List.getElem?_append_left within,here]⟩

def Scnhdr.contents (file : List (BitVec 8)) (s : Scnhdr) : List (BitVec 8) :=
  (file.drop s.s_scnptr.toNat).take s.s_size.toNat

theorem contents_length (inside : s.s_scnptr.toNat + s.s_size.toNat ≤ file.length) :
    (s.contents file).length = s.s_size.toNat := by
  rw [Scnhdr.contents,List.length_take,List.length_drop]
  omega

theorem placed_new (inside : s.s_scnptr.toNat + s.s_size.toNat ≤ file.length) (address : BitVec 32)
    (place : address.toNat = 40 + body.length) :
    Placed file (body ++ s.contents file) ⟨s.s_paddr,address,s.s_size⟩ [s] := by
  refine ⟨fun none => absurd none (by simp),?_⟩
  intro s' member
  cases List.mem_singleton.mp member
  refine ⟨rfl,rfl,body.length,place,?_⟩
  intro i within
  have there : s.s_scnptr.toNat + i < file.length := by omega
  refine ⟨file[s.s_scnptr.toNat + i],List.getElem?_eq_getElem there,?_⟩
  rw [List.getElem?_append_right (by omega),Nat.add_sub_cancel_left,Scnhdr.contents,List.getElem?_take_of_lt within,
    List.getElem?_drop,List.getElem?_eq_getElem there]

-- What copying needs.
def Fits (file : List (BitVec 8)) (place : Int) (s : Scnhdr) : Prop :=
  s.s_scnptr.toNat + s.s_size.toNat ≤ file.length ∧ place + s.s_size.toInt ≤ 2147483647

theorem transfer_spec (file : List (BitVec 8)) (c : Copy) (live : 0 < s.s_size.toInt) (pointer : 0 ≤ s.s_scnptr.toInt)
    (place : c.inNoffFile.toInt = 40 + c.body.length) :
    (Fits file (40 + c.body.length) s → ∃ after, transfer file s c = .ok after ∧ after.noffH = c.noffH ∧
      after.body = c.body ++ s.contents file ∧ after.inNoffFile.toInt = 40 + c.body.length + s.s_size.toInt) ∧
    (¬Fits file (40 + c.body.length) s → ∃ why, transfer file s c = .error why) := by
  have size := toInt_nonneg s.s_size (by omega)
  simp only [transfer,if_neg (show ¬s.s_scnptr.toInt < 0 by omega),if_neg (show ¬s.s_size.toInt < 0 by omega),Read]
  by_cases inside : s.s_scnptr.toNat + s.s_size.toNat ≤ file.length
  · rw [if_pos (show s.s_size.toNat ≤ file.length - s.s_scnptr.toNat by omega)]
    by_cases room : 40 + (c.body.length : Int) + s.s_size.toInt ≤ 2147483647
    · obtain ⟨behind,adds,behind'⟩ := plus_ok c.inNoffFile s.s_size (by omega) (by omega)
      refine ⟨fun _ => ?_,fun fails => absurd ⟨inside,room⟩ fails⟩
      rw [adds]
      exact ⟨_,rfl,rfl,rfl,by rw [behind',place]⟩
    · refine ⟨fun fits => absurd fits.2 room,fun _ => ⟨.undefined,?_⟩⟩
      rw [plus_undefined c.inNoffFile s.s_size (by omega)]
      rfl
  · refine ⟨fun fits => absurd fits.1 inside,fun _ => ⟨.failed,?_⟩⟩
    rw [if_neg (show ¬s.s_size.toNat ≤ file.length - s.s_scnptr.toNat by omega)]
    rfl

-- What holds while the sections are copied.
structure Done (file : List (BitVec 8)) (done : List Scnhdr) (c : Copy) : Prop where
  code : Placed file c.body c.noffH.code (filled Kind.isText done)
  initData : Placed file c.body c.noffH.initData (filled Kind.isData done)
  uninitData : Merged c.noffH.uninitData (filled Kind.isBss done)
  place : c.inNoffFile.toInt = 40 + c.body.length
  amount : (c.body.length : Int) = amount done

-- What the next section needs to be taken.
structure Allowed (file : List (BitVec 8)) (done : List Scnhdr) (s : Scnhdr) : Prop where
  copied : s.s_size ≠ 0 → s.kind.isCopied → Fits file (40 + Coff.amount done) s
  merged : s.s_size ≠ 0 → s.kind.isBss → PassesOne (filled Kind.isBss done) s

theorem filled_skip (done : List Scnhdr) (fails : s.s_size = 0 ∨ p s.kind = false) :
    filled p (done ++ [s]) = filled p done := by
  rw [filled_append,filled_none fails,List.append_nil]

theorem filled_take (done : List Scnhdr) (live : s.s_size ≠ 0) (holds : p s.kind = true) :
    filled p (done ++ [s]) = filled p done ++ [s] := by
  rw [filled_append,filled_one live holds]

theorem amount_skip (done : List Scnhdr) (fails : s.s_size = 0 ∨ s.kind.isCopied = false) : amount (done ++ [s]) = amount done := by
  rw [amount,filled_skip done fails,amount]

theorem amount_take (done : List Scnhdr) (live : s.s_size ≠ 0) (holds : s.kind.isCopied = true) :
    amount (done ++ [s]) = amount done + s.s_size.toInt := by
  rw [amount,filled_take done live holds,pieces_append,Tiling.total_append,amount]
  simp [pieces,Scnhdr.piece]

-- Nothing of the kind has come before the one section that there may be.
theorem none_before (one : (filled p (done ++ s :: rest)).length ≤ 1) (live : s.s_size ≠ 0) (holds : p s.kind = true) :
    filled p done = [] := by
  rw [List.append_cons,filled_append,filled_take done live holds,List.length_append,List.length_append] at one
  exact List.eq_nil_of_length_eq_zero (by simp only [List.length_singleton] at one; omega)

theorem filled_live (input : Input (done ++ s :: rest)) (live : s.s_size ≠ 0) : 0 < s.s_size.toInt ∧ s.s_size.toInt = s.s_size.toNat := by
  have sign := input.sizes s (List.mem_append_right done List.mem_cons_self)
  have other : s.s_size.toInt ≠ 0 := fun zero => live (BitVec.eq_of_toInt_eq zero)
  exact ⟨by omega,toInt_nonneg s.s_size sign⟩

-- A section that has been copied leaves the merged segment alone.
theorem done_copied {after : Copy} (holds : Done file done c) (live : s.s_size ≠ 0) (sign : s.s_size.toInt = s.s_size.toNat)
    (copied : s.kind.isCopied = true) (other : s.kind.isBss = false) (fits : Fits file (40 + amount done) s)
    (body : after.body = c.body ++ s.contents file) (behind : after.inNoffFile.toInt = 40 + amount done + s.s_size.toInt)
    (uninitData : after.noffH.uninitData = c.noffH.uninitData)
    (code : Placed file after.body after.noffH.code (filled Kind.isText (done ++ [s])))
    (initData : Placed file after.body after.noffH.initData (filled Kind.isData (done ++ [s]))) :
    Done file (done ++ [s]) after := by
  have length : (after.body.length : Int) = amount done + s.s_size.toInt := by
    rw [body,List.length_append,contents_length fits.1,Nat.cast_add,holds.amount,sign]
  refine ⟨code,initData,?_,?_,?_⟩
  · rw [filled_skip done (.inr other),uninitData]
    exact holds.uninitData
  · rw [behind,length]
    omega
  · rw [length,amount_take done live copied]

theorem place_nat (holds : Done file done c) : c.inNoffFile.toNat = 40 + c.body.length := by
  have place := holds.place
  have nat := toInt_nonneg c.inNoffFile (by omega)
  omega

theorem copySection_empty (holds : Done file done c) (empty : s.s_size = 0) : Done file (done ++ [s]) c := by
  constructor
  · rw [filled_skip done (.inl empty)]
    exact holds.code
  · rw [filled_skip done (.inl empty)]
    exact holds.initData
  · rw [filled_skip done (.inl empty)]
    exact holds.uninitData
  · exact holds.place
  · rw [amount_skip done (.inl empty)]
    exact holds.amount

theorem copySection_text (input : Input (done ++ s :: rest)) (holds : Done file done c) (live : s.s_size ≠ 0)
    (kind : s.kind = .text) :
    (Fits file (40 + amount done) s → ∃ after, copySection file c s = .ok after ∧ Done file (done ++ [s]) after) ∧
    (¬Fits file (40 + amount done) s → ∃ why, copySection file c s = .error why) := by
  obtain ⟨positive,sign⟩ := filled_live input live
  have first := none_before input.text live (by rw [kind]; rfl)
  let c' : Copy := {c with noffH := {c.noffH with code := ⟨s.s_paddr,c.inNoffFile,s.s_size⟩}}
  have same : copySection file c s = transfer file s c' := by rw [copySection,if_neg live,kind]
  have pointer := input.pointers s (List.mem_append_right done List.mem_cons_self)
  obtain ⟨takes,refuses⟩ := transfer_spec file c' positive pointer holds.place
  rw [show ((c'.body.length : Int)) = amount done from holds.amount] at takes refuses
  rw [same]
  refine ⟨fun fits => ?_,refuses⟩
  obtain ⟨after,goes,noffH,body,behind⟩ := takes fits
  refine ⟨after,goes,done_copied holds live sign (by rw [kind]; rfl) (by rw [kind]; rfl) fits body behind (by rw [noffH]) ?_ ?_⟩
  · rw [filled_take done live (by rw [kind]; rfl),first,body,noffH]
    exact placed_new fits.1 _ (place_nat holds)
  · rw [filled_skip done (.inr (by rw [kind]; rfl)),body,noffH]
    exact holds.initData.more _

theorem copySection_data (input : Input (done ++ s :: rest)) (holds : Done file done c) (live : s.s_size ≠ 0)
    (kind : s.kind = .data ∨ s.kind = .rdata) :
    (Fits file (40 + amount done) s → ∃ after, copySection file c s = .ok after ∧ Done file (done ++ [s]) after) ∧
    (¬Fits file (40 + amount done) s → ∃ why, copySection file c s = .error why) := by
  obtain ⟨positive,sign⟩ := filled_live input live
  have isData : s.kind.isData = true := by rcases kind with kind | kind <;> rw [kind] <;> rfl
  have isText : s.kind.isText = false := by rcases kind with kind | kind <;> rw [kind] <;> rfl
  have isBss : s.kind.isBss = false := by rcases kind with kind | kind <;> rw [kind] <;> rfl
  have isCopied : s.kind.isCopied = true := by rw [Kind.isCopied,isData,Bool.or_true]
  have first := none_before input.data live isData
  let c' : Copy := {c with noffH := {c.noffH with initData := ⟨s.s_paddr,c.inNoffFile,s.s_size⟩}}
  have same : copySection file c s = transfer file s c' := by
    have zero : ¬c.noffH.initData.size ≠ 0 := not_not_intro (holds.initData.empty first)
    rcases kind with kind | kind <;> rw [copySection,if_neg live,kind] <;> exact if_neg zero
  have pointer := input.pointers s (List.mem_append_right done List.mem_cons_self)
  obtain ⟨takes,refuses⟩ := transfer_spec file c' positive pointer holds.place
  rw [show ((c'.body.length : Int)) = amount done from holds.amount] at takes refuses
  rw [same]
  refine ⟨fun fits => ?_,refuses⟩
  obtain ⟨after,goes,noffH,body,behind⟩ := takes fits
  refine ⟨after,goes,done_copied holds live sign isCopied isBss fits body behind (by rw [noffH]) ?_ ?_⟩
  · rw [filled_skip done (.inr isText),body,noffH]
    exact holds.code.more _
  · rw [filled_take done live isData,first,body,noffH]
    exact placed_new fits.1 _ (place_nat holds)

theorem copySection_bss (input : Input (done ++ s :: rest)) (holds : Done file done c) (live : s.s_size ≠ 0)
    (kind : s.kind = .bss ∨ s.kind = .sbss) :
    (PassesOne (filled Kind.isBss done) s → ∃ after, copySection file c s = .ok after ∧ Done file (done ++ [s]) after) ∧
    (¬PassesOne (filled Kind.isBss done) s → ∃ why, copySection file c s = .error why) := by
  obtain ⟨positive,_⟩ := filled_live input live
  have isBss : s.kind.isBss = true := by rcases kind with kind | kind <;> rw [kind] <;> rfl
  have isText : s.kind.isText = false := by rcases kind with kind | kind <;> rw [kind] <;> rfl
  have isData : s.kind.isData = false := by rcases kind with kind | kind <;> rw [kind] <;> rfl
  have isCopied : s.kind.isCopied = false := by rw [Kind.isCopied,isData,isText,Bool.or_false]
  have same : copySection file c s = (merge s c.noffH.uninitData).bind fun uninitData =>
      .ok {c with noffH := {c.noffH with uninitData}} := by
    rcases kind with kind | kind <;> rw [copySection,if_neg live,kind] <;> rfl
  have long : ∀ before ∈ filled Kind.isBss done, 0 < before.s_size.toInt := by
    intro before member
    obtain ⟨there,some_,_⟩ := mem_filled.mp member
    have sign := input.sizes before (List.mem_append_left _ there)
    have other : before.s_size.toInt ≠ 0 := fun zero => some_ (BitVec.eq_of_toInt_eq zero)
    omega
  obtain ⟨takes,refuses⟩ := merge_spec holds.uninitData long positive
  rw [same]
  constructor
  · intro passes
    obtain ⟨segment,merges,merged⟩ := takes passes
    rw [merges]
    refine ⟨_,rfl,?_⟩
    constructor
    · rw [filled_skip done (.inr isText)]
      exact holds.code
    · rw [filled_skip done (.inr isData)]
      exact holds.initData
    · rw [filled_take done live isBss]
      exact merged
    · exact holds.place
    · rw [amount_skip done (.inr isCopied)]
      exact holds.amount
  · intro stops
    obtain ⟨why,refused⟩ := refuses stops
    exact ⟨why,by rw [refused]; rfl⟩

-- One section is taken exactly when it is allowed, and then all goes on to hold.
theorem copySection_spec (input : Input (done ++ s :: rest)) (holds : Done file done c) :
    (Allowed file done s → ∃ after, copySection file c s = .ok after ∧ Done file (done ++ [s]) after) ∧
    (¬Allowed file done s → ∃ why, copySection file c s = .error why) := by
  by_cases empty : s.s_size = 0
  · refine ⟨fun _ => ⟨c,if_pos empty,copySection_empty holds empty⟩,fun fails => absurd ?_ fails⟩
    exact ⟨fun live => absurd empty live,fun live => absurd empty live⟩
  · cases kind : s.kind with
    | unknown => exact absurd kind (input.known s (List.mem_append_right done List.mem_cons_self) empty)
    | text =>
      obtain ⟨takes,refuses⟩ := copySection_text input holds empty kind
      refine ⟨fun allowed => takes (allowed.copied empty (by rw [kind]; rfl)),fun fails => refuses fun fits => fails ?_⟩
      exact ⟨fun _ _ => fits,by simp [kind,Kind.isBss]⟩
    | data =>
      obtain ⟨takes,refuses⟩ := copySection_data input holds empty (.inl kind)
      refine ⟨fun allowed => takes (allowed.copied empty (by rw [kind]; rfl)),fun fails => refuses fun fits => fails ?_⟩
      exact ⟨fun _ _ => fits,by simp [kind,Kind.isBss]⟩
    | rdata =>
      obtain ⟨takes,refuses⟩ := copySection_data input holds empty (.inr kind)
      refine ⟨fun allowed => takes (allowed.copied empty (by rw [kind]; rfl)),fun fails => refuses fun fits => fails ?_⟩
      exact ⟨fun _ _ => fits,by simp [kind,Kind.isBss]⟩
    | bss =>
      obtain ⟨takes,refuses⟩ := copySection_bss input holds empty (.inl kind)
      refine ⟨fun allowed => takes (allowed.merged empty (by rw [kind]; rfl)),fun fails => refuses fun passes => fails ?_⟩
      exact ⟨by simp [kind,Kind.isCopied,Kind.isText,Kind.isData],fun _ _ => passes⟩
    | sbss =>
      obtain ⟨takes,refuses⟩ := copySection_bss input holds empty (.inr kind)
      refine ⟨fun allowed => takes (allowed.merged empty (by rw [kind]; rfl)),fun fails => refuses fun passes => fails ?_⟩
      exact ⟨by simp [kind,Kind.isCopied,Kind.isText,Kind.isData],fun _ _ => passes⟩

def AllAllowed (file : List (BitVec 8)) (done : List Scnhdr) : List Scnhdr → Prop
  | [] => True
  | s :: rest => Allowed file done s ∧ AllAllowed file (done ++ [s]) rest

theorem copySections_spec (done rest : List Scnhdr) (input : Input (done ++ rest)) (holds : Done file done c) :
    (AllAllowed file done rest → ∃ after, copySections file c rest = .ok after ∧ Done file (done ++ rest) after) ∧
    (¬AllAllowed file done rest → ∃ why, copySections file c rest = .error why) := by
  induction rest generalizing done c with
  | nil =>
    rw [List.append_nil]
    exact ⟨fun _ => ⟨c,rfl,holds⟩,fun fails => absurd trivial fails⟩
  | cons s rest ih =>
    obtain ⟨takes,refuses⟩ := copySection_spec input holds
    by_cases allowed : Allowed file done s
    · obtain ⟨middle,goes,kept⟩ := takes allowed
      rw [List.append_cons] at input ⊢
      obtain ⟨takes',refuses'⟩ := ih (done ++ [s]) input kept
      simp only [copySections,goes,AllAllowed,allowed,true_and]
      exact ⟨takes',refuses'⟩
    · obtain ⟨why,refused⟩ := refuses allowed
      refine ⟨fun all => absurd all.1 allowed,fun _ => ⟨why,?_⟩⟩
      simp only [copySections,refused]
      rfl

theorem filled_long (sizes : ∀ s ∈ sections, 0 ≤ s.s_size.toInt) (p : Kind → Bool) : ∀ s ∈ filled p sections, 0 < s.s_size.toInt := by
  intro s member
  obtain ⟨there,some_,_⟩ := mem_filled.mp member
  have sign := sizes s there
  have other : s.s_size.toInt ≠ 0 := fun zero => some_ (BitVec.eq_of_toInt_eq zero)
  omega

theorem amount_append (done rest : List Scnhdr) : amount (done ++ rest) = amount done + amount rest := by
  rw [amount,filled_append,pieces_append,Tiling.total_append,amount,amount]

theorem amount_nonneg (sizes : ∀ s ∈ sections, 0 ≤ s.s_size.toInt) : 0 ≤ amount sections :=
  Tiling.total_nonneg (pieces_long (filled_long sizes _))

theorem filled_cons_skip (rest : List Scnhdr) (fails : s.s_size = 0 ∨ p s.kind = false) : filled p (s :: rest) = filled p rest := by
  rw [← List.singleton_append,filled_append,filled_none fails,List.nil_append]

theorem filled_cons_take (rest : List Scnhdr) (live : s.s_size ≠ 0) (holds : p s.kind = true) :
    filled p (s :: rest) = s :: filled p rest := by
  rw [← List.singleton_append,filled_append,filled_one live holds,List.singleton_append]

-- A section is copied, or it is merged.
theorem kind_cases (known : s.kind ≠ .unknown) :
    (s.kind.isCopied = true ∧ s.kind.isBss = false) ∨ (s.kind.isCopied = false ∧ s.kind.isBss = true) := by
  cases kind : s.kind with
  | unknown => exact absurd kind known
  | text => exact .inl ⟨rfl,rfl⟩
  | data => exact .inl ⟨rfl,rfl⟩
  | rdata => exact .inl ⟨rfl,rfl⟩
  | bss => exact .inr ⟨rfl,rfl⟩
  | sbss => exact .inr ⟨rfl,rfl⟩

theorem allAllowed_iff (done : List Scnhdr) (input : Input (done ++ rest)) (room : 40 + amount done ≤ 2147483647) :
    AllAllowed file done rest ↔
    (∀ s ∈ filled Kind.isCopied rest, s.s_scnptr.toNat + s.s_size.toNat ≤ file.length) ∧
    40 + amount (done ++ rest) ≤ 2147483647 ∧ Passes (filled Kind.isBss done) (filled Kind.isBss rest) := by
  induction rest generalizing done with
  | nil => simp [AllAllowed,filled,Passes,room]
  | cons s rest ih =>
    have later : Input (done ++ [s] ++ rest) := List.append_cons done s rest ▸ input
    rw [AllAllowed,List.append_cons done s rest]
    by_cases empty : s.s_size = 0
    · have allowed : Allowed file done s := ⟨fun live => absurd empty live,fun live => absurd empty live⟩
      rw [ih (done ++ [s]) later (by rw [amount_skip done (.inl empty)]; exact room),filled_cons_skip rest (.inl empty),
        filled_cons_skip rest (.inl empty),filled_skip done (.inl empty)]
      exact ⟨fun both => both.2,fun all => ⟨allowed,all⟩⟩
    · rcases kind_cases (input.known s (List.mem_append_right done List.mem_cons_self) empty) with
        ⟨copied,other⟩ | ⟨other,bss⟩
      · have sum := amount_take done empty copied
        have nonneg : 0 ≤ amount rest := amount_nonneg fun s member => later.sizes s (List.mem_append_right _ member)
        rw [filled_cons_take rest empty copied,filled_cons_skip rest (.inr other),amount_append]
        constructor
        · rintro ⟨allowed,others⟩
          obtain ⟨inside,small⟩ := allowed.copied empty copied
          rw [ih (done ++ [s]) later (by rw [sum]; omega),amount_append,filled_skip done (.inr other)] at others
          exact ⟨List.forall_mem_cons.mpr ⟨inside,others.1⟩,others.2⟩
        · rintro ⟨inside,small,passes⟩
          obtain ⟨here,others⟩ := List.forall_mem_cons.mp inside
          refine ⟨⟨fun _ _ => ⟨here,by omega⟩,fun _ bss => absurd (other.symm.trans bss) (by decide)⟩,?_⟩
          rw [ih (done ++ [s]) later (by omega),amount_append,filled_skip done (.inr other)]
          exact ⟨others,small,passes⟩
      · rw [ih (done ++ [s]) later (by rw [amount_skip done (.inr other)]; exact room),filled_cons_skip rest (.inr other),
          filled_cons_take rest empty bss,filled_take done empty bss,Passes]
        constructor
        · rintro ⟨allowed,inside,small,passes⟩
          exact ⟨inside,small,allowed.merged empty bss,passes⟩
        · rintro ⟨inside,small,one,passes⟩
          exact ⟨⟨fun _ copied => absurd (other.symm.trans copied) (by decide),fun _ _ => one⟩,inside,small,passes⟩

theorem start_done (file : List (BitVec 8)) (local_ : NoffHeader) (position : Nat) :
    Done file [] ⟨cleared local_,40,position,[]⟩ :=
  ⟨⟨fun _ => rfl,fun _ member => absurd member List.not_mem_nil⟩,⟨fun _ => rfl,fun _ member => absurd member List.not_mem_nil⟩,
    ⟨rfl,by simp [filled]⟩,rfl,rfl⟩

-- The conversion succeeds exactly on files that can be read and whose sections pass.
theorem coff2noff_spec (headers : sectionHeaders bigEndian file = .ok sections) (input : Input sections) (local_ : NoffHeader) :
    (Readable file sections ∧ Passes [] (filled Kind.isBss sections) →
      ∃ c, coff2noff bigEndian file local_ = .ok (NoffHeader.bytes bigEndian c.noffH ++ c.body) ∧ Done file sections c) ∧
    (¬(Readable file sections ∧ Passes [] (filled Kind.isBss sections)) →
      ∃ why, coff2noff bigEndian file local_ = .error why) := by
  have begins := start_done file local_ (76 + 40 * sections.length)
  obtain ⟨takes,refuses⟩ := copySections_spec [] sections input begins
  rw [allAllowed_iff [] input (by decide)] at takes refuses
  rw [coff2noff,headers]
  constructor
  · rintro ⟨⟨contents,room⟩,passes⟩
    obtain ⟨c,goes,holds⟩ := takes ⟨contents,room,passes⟩
    refine ⟨c,?_,holds⟩
    show (copySections file _ sections).bind _ = _
    rw [goes]
    rfl
  · intro fails
    obtain ⟨why,refused⟩ := refuses fun all => fails ⟨⟨all.1,all.2.1⟩,all.2.2⟩
    refine ⟨why,?_⟩
    show (copySections file _ sections).bind _ = _
    rw [refused]
    rfl

theorem bytes_length (bigEndian : Bool) (noffH : NoffHeader) : (NoffHeader.bytes bigEndian noffH).length = 40 := by
  cases bigEndian <;> rfl

-- The header is read back as it was written.
theorem header_bytes (bigEndian : Bool) (noffH : NoffHeader) (body : List (BitVec 8)) :
    header bigEndian (NoffHeader.bytes bigEndian noffH ++ body) = noffH := by
  obtain ⟨magic,⟨a,b,c⟩,⟨d,e,f⟩,⟨g,h,i⟩⟩ := noffH
  have word := nativeWord_wordBytes bigEndian
  have read : header bigEndian (NoffHeader.bytes bigEndian ⟨magic,⟨a,b,c⟩,⟨d,e,f⟩,⟨g,h,i⟩⟩ ++ body) =
      let back w := nativeWord bigEndian ((wordBytes bigEndian w).getD 0 0) ((wordBytes bigEndian w).getD 1 0)
        ((wordBytes bigEndian w).getD 2 0) ((wordBytes bigEndian w).getD 3 0)
      ⟨back magic,⟨back a,back b,back c⟩,⟨back d,back e,back f⟩,⟨back g,back h,back i⟩⟩ := by
    cases bigEndian <;> rfl
  rw [read]
  simp only [word]

theorem Placed.carries (placed : Placed file body segment sections) (noffH : NoffHeader) (member : s ∈ sections) :
    Carries file (NoffHeader.bytes bigEndian noffH ++ body) segment s := by
  obtain ⟨virtualAddr,size,k,place,bytes⟩ := placed.carried s member
  refine ⟨virtualAddr,size,?_⟩
  intro i inside
  obtain ⟨byte,there,here⟩ := bytes i inside
  refine ⟨byte,there,?_⟩
  rw [place,List.getElem?_append_right (by rw [bytes_length]; omega),bytes_length,
    show 40 + k + i - 40 = k + i by omega,here]

theorem merged_covers (merged : Merged segment uninit) (long : ∀ s ∈ uninit, 0 < s.s_size.toInt) :
    (∀ x, Tiling.Covers (pieces uninit) x ↔
      segment.virtualAddr.toInt ≤ x ∧ x < segment.virtualAddr.toInt + segment.size.toInt) ↔ Tiles uninit := by
  rw [merged.size]
  cases uninit with
  | nil =>
    refine ⟨fun _ first none => absurd none (by simp),fun _ x => ?_⟩
    simp only [pieces,List.map_nil,Tiling.covers_nil,Tiling.total_nil,false_iff]
    omega
  | cons u us =>
    rw [merged.first u rfl,Tiling.covers_iff_row (pieces_long long),Tiles]
    simp only [List.head?_cons,Option.mem_def,Option.some.injEq,forall_eq']

theorem Done.sameImage (holds : Done file sections c) (input : Input sections) :
    SameImage file (NoffHeader.bytes bigEndian c.noffH ++ c.body) sections c.noffH ↔ Tiles (filled Kind.isBss sections) := by
  rw [← merged_covers holds.uninitData (filled_long input.sizes _)]
  constructor
  · exact SameImage.uninitData
  · intro covers
    exact ⟨fun s member => holds.code.carries c.noffH member,holds.code.empty,
      fun s member => holds.initData.carries c.noffH member,holds.initData.empty,covers⟩

theorem short_tiles (few : uninit.length ≤ 1) : Tiles uninit ∧ Passes [] uninit := by
  match uninit,few with
  | [],_ => exact ⟨fun first none => absurd none (by simp),trivial⟩
  | [u],_ =>
    refine ⟨?_,fun first none => absurd none (by simp),trivial⟩
    intro first here
    cases Option.some.inj here
    exact ⟨pieces [u],List.Perm.refl _,rfl,trivial⟩

-- Sections in a row are what the check refuses.
theorem inOrder_stops (many : ¬uninit.length ≤ 1) (order : InOrder uninit) : ¬Passes [] uninit := by
  match uninit,many with
  | [],many => exact absurd (Nat.zero_le 1) many
  | [u],many => exact absurd (Nat.le_refl 1) many
  | u :: v :: rest,_ =>
    rintro ⟨_,passes,_⟩
    obtain ⟨_,begins,_⟩ := order.2 u rfl
    have apart := (passes u rfl).2.1
    simp only [pieces,List.nil_append,List.map_cons,List.map_nil,Tiling.total_cons,Tiling.total_nil,Scnhdr.piece] at apart begins
    omega

-- The image is kept, and what is contiguous is taken, exactly on files that cannot be read
-- or whose sections merge well in spite of the check.
theorem preserves_iff (headers : sectionHeaders bigEndian file = .ok sections) (input : Input sections) (local_ : NoffHeader) :
    Preserves bigEndian file sections local_ ↔ ¬Readable file sections ∨ Mergeable (filled Kind.isBss sections) := by
  obtain ⟨takes,refuses⟩ := coff2noff_spec headers input local_
  have image : (∀ noff, coff2noff bigEndian file local_ = .ok noff → SameImage file noff sections (header bigEndian noff)) ↔
      (Readable file sections ∧ Passes [] (filled Kind.isBss sections) → Tiles (filled Kind.isBss sections)) := by
    by_cases good : Readable file sections ∧ Passes [] (filled Kind.isBss sections)
    · obtain ⟨c,goes,holds⟩ := takes good
      rw [goes]
      simp only [Except.ok.injEq,forall_eq',header_bytes,good,and_self,true_imp_iff]
      exact holds.sameImage input
    · obtain ⟨why,fails⟩ := refuses good
      rw [fails]
      exact ⟨fun _ passes => absurd passes good,fun _ noff wrong => by cases wrong⟩
  have succeeds : (∃ noff, coff2noff bigEndian file local_ = .ok noff) ↔
      Readable file sections ∧ Passes [] (filled Kind.isBss sections) := by
    constructor
    · rintro ⟨noff,goes⟩
      by_contra bad
      obtain ⟨why,fails⟩ := refuses bad
      rw [goes] at fails
      cases fails
    · intro good
      obtain ⟨c,goes,_⟩ := takes good
      exact ⟨_,goes⟩
  constructor
  · rintro ⟨keeps,accepts⟩
    by_cases readable : Readable file sections
    · refine .inr ?_
      by_cases few : (filled Kind.isBss sections).length ≤ 1
      · exact .inl few
      · refine .inr ⟨?_,fun passes => image.mp keeps ⟨readable,passes⟩⟩
        intro order
        exact inOrder_stops few order (succeeds.mp (accepts readable order)).2
    · exact .inl readable
  · intro condition
    constructor
    · refine image.mpr ?_
      rintro ⟨readable,passes⟩
      rcases condition with unreadable | few | ⟨_,tiles⟩
      · exact absurd readable unreadable
      · exact (short_tiles few).1
      · exact tiles passes
    · intro readable order
      rcases condition with unreadable | few | ⟨unordered,_⟩
      · exact absurd readable unreadable
      · exact succeeds.mpr ⟨readable,(short_tiles few).2⟩
      · exact absurd order unordered

-- A little-endian file of headers and what follows them.
def coffFile (sections : List Scnhdr) (contents : List (BitVec 8)) : List (BitVec 8) :=
  [0x62,0x01,BitVec.ofNat 8 sections.length,0] ++ List.replicate 16 0 ++ [0x07,0x01] ++ List.replicate 54 0 ++
    sections.flatMap (fun s => s.s_name ++ wordBytes false s.s_paddr ++ wordBytes false s.s_paddr ++ wordBytes false s.s_size ++
      wordBytes false s.s_scnptr ++ List.replicate 16 0) ++ contents

def noNoff : NoffHeader := ⟨0,⟨0,0,0⟩,⟨0,0,0⟩,⟨0,0,0⟩⟩

-- Four bytes of .text, two of .data behind them, and a .bss.
def programSections : List Scnhdr :=
  [⟨[0x2e,0x74,0x65,0x78,0x74,0,0,0],0,4,196⟩,⟨[0x2e,0x64,0x61,0x74,0x61,0,0,0],4,2,200⟩,
    ⟨[0x2e,0x62,0x73,0x73,0,0,0,0],8,16,0⟩]

def program : List (BitVec 8) := coffFile programSections [1,2,3,4,5,6]

set_option maxRecDepth 4000 in
theorem preserves_iff_program : Preserves false program programSections noNoff := by
  have headers : sectionHeaders false program = .ok programSections := rfl
  have input : Input programSections := ⟨by decide,by decide,by decide,by decide,by decide⟩
  exact (preserves_iff headers input noNoff).mpr (.inr (.inl (by decide)))

-- A .bss and the .sbss behind it.
def bssSections : List Scnhdr :=
  [⟨[0x2e,0x62,0x73,0x73,0,0,0,0],0x100,0x10,0⟩,⟨[0x2e,0x73,0x62,0x73,0x73,0,0,0],0x110,0x10,0⟩]

set_option maxRecDepth 4000 in
theorem contiguous_refused : sectionHeaders false (coffFile bssSections []) = .ok bssSections ∧ Input bssSections ∧
    Readable (coffFile bssSections []) bssSections ∧ InOrder (filled Kind.isBss bssSections) ∧
    ¬Preserves false (coffFile bssSections []) bssSections noNoff := by
  have readable : Readable (coffFile bssSections []) bssSections := ⟨by decide,by decide⟩
  have order : InOrder (filled Kind.isBss bssSections) := by
    refine ⟨⟨bssSections.take 1,bssSections.drop 1,rfl,by decide,by decide⟩,?_⟩
    intro first here
    cases Option.some.inj here
    exact ⟨rfl,rfl,trivial⟩
  refine ⟨rfl,⟨by decide,by decide,by decide,by decide,by decide⟩,readable,order,?_⟩
  intro preserves
  obtain ⟨noff,goes⟩ := preserves.succeeds readable order
  have refused : coff2noff false (coffFile bssSections []) noNoff = .error .failed := rfl
  rw [refused] at goes
  cases goes

end Nachos.Coff
