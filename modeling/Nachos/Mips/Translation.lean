import Nachos.Mips.Memory

-- Translation through the TLB beside translation through the page table.
namespace Nachos.Mips
namespace Machine

def withTLB (m : Machine) (tlb : List TranslationEntry) : Machine := {m with tlb := some tlb, pageTable := none}
def withTable (m : Machine) (pageTable : List TranslationEntry) : Machine := {m with tlb := none, pageTable := some pageTable}

-- Every valid entry of the TLB is taken from the page table.
def Cached (tlb pageTable : List TranslationEntry) : Prop :=
  ∀ cached ∈ tlb, cached.valid = true → ∃ entry, pageTable[cached.virtualPage.toNat]? = some entry ∧ entry.valid = true ∧
    cached.physicalPage = entry.physicalPage ∧ cached.readOnly = entry.readOnly

-- What a translation tells, without the machine.
def told : Except Abort (Except ExceptionType (Nat × Machine)) → Except Abort (Except ExceptionType Nat)
  | .error why => .error why
  | .ok (.error which) => .ok (.error which)
  | .ok (.ok (physAddr,_)) => .ok (.ok physAddr)

def marked (entry : TranslationEntry) (writing : Bool) : TranslationEntry :=
  {entry with use := true, dirty := entry.dirty || writing}

abbrev Misaligned (virtAddr : BitVec 32) (size : Nat) : Prop :=
  (size = 4 ∧ virtAddr &&& 3 ≠ 0) ∨ (size = 2 ∧ virtAddr &&& 1 ≠ 0)

-- What both tables do from the entry on.
def throughEntry (entry : TranslationEntry) (put : TranslationEntry → Machine) (virtAddr : BitVec 32) (writing : Bool) :
    Except Abort (Except ExceptionType (Nat × Machine)) :=
  if entry.readOnly && writing then .ok (.error .ReadOnlyException)
  else if entry.physicalPage.toNat ≥ NumPhysPages then .ok (.error .BusErrorException)
  else .ok (.ok (entry.physicalPage.toNat * PageSize + virtAddr.toNat % PageSize,put (marked entry writing)))

variable {m after : Machine} {virtAddr : BitVec 32} {size : Nat} {tlb pageTable : List TranslationEntry}
  {entry : TranslationEntry} {put : TranslationEntry → Machine} {physAddr : Nat}

theorem translate_misaligned (wrong : Misaligned virtAddr size) (writing : Bool) :
    m.translate virtAddr size writing = .ok (.error .AddressErrorException) := if_pos wrong

theorem translate_refused (aligned : ¬Misaligned virtAddr size) (refused : m.lookup (virtAddr.toNat / PageSize) = .ok (.error which))
    (writing : Bool) : m.translate virtAddr size writing = .ok (.error which) := by
  unfold translate
  rw [if_neg aligned]
  simp only [refused]

theorem translate_entry (sizes : size = 1 ∨ size = 2 ∨ size = 4) (aligned : ¬Misaligned virtAddr size)
    (found : m.lookup (virtAddr.toNat / PageSize) = .ok (.ok (entry,put))) (writing : Bool) :
    m.translate virtAddr size writing = throughEntry entry put virtAddr writing := by
  unfold translate throughEntry
  rw [if_neg aligned]
  simp only [found]
  split
  · rfl
  · split
    · rfl
    · rename_i inside
      rw [if_pos (offset_fits virtAddr entry.physicalPage.toNat (by omega) sizes aligned)]
      rfl

-- Where the entry that leads to a page is.
theorem lookup_tlb (m : Machine) (tlb : List TranslationEntry) (vpn : Nat) :
    ((m.withTLB tlb).lookup vpn = .ok (.error .PageFaultException) ∧
      ∀ entry ∈ tlb, entry.valid = true → entry.virtualPage.toNat ≠ vpn) ∨
    ∃ i entry, tlb[i]? = some entry ∧ entry.valid = true ∧ entry.virtualPage.toNat = vpn ∧
      (m.withTLB tlb).lookup vpn = .ok (.ok (entry,fun changed => m.withTLB (tlb.set i changed))) := by
  cases found : tlb.findIdx? fun entry => entry.valid && entry.virtualPage.toNat == vpn with
  | none =>
    refine .inl ⟨by simp only [lookup,withTLB,found],?_⟩
    intro entry member valid same
    have none := List.findIdx?_eq_none_iff.mp found entry member
    simp [valid,same] at none
  | some i =>
    obtain ⟨inside,holds,_⟩ := List.findIdx?_eq_some_iff_getElem.mp found
    simp only [Bool.and_eq_true,beq_iff_eq] at holds
    have there : tlb[i]? = some tlb[i] := List.getElem?_eq_getElem inside
    exact .inr ⟨i,tlb[i],there,holds.1,holds.2,by simp only [lookup,withTLB,found,there]⟩

theorem lookup_table (m : Machine) (entry : TranslationEntry) (there : pageTable[vpn]? = some entry) (valid : entry.valid = true) :
    (m.withTable pageTable).lookup vpn = .ok (.ok (entry,fun changed => m.withTable (pageTable.set vpn changed))) := by
  simp [lookup,withTable,there,valid]

theorem throughEntry_told (entry entry' : TranslationEntry) (put put' : TranslationEntry → Machine) (virtAddr : BitVec 32)
    (writing : Bool) (frame : entry.physicalPage = entry'.physicalPage) (readOnly : entry.readOnly = entry'.readOnly) :
    told (throughEntry entry put virtAddr writing) = told (throughEntry entry' put' virtAddr writing) := by
  unfold throughEntry
  rw [frame,readOnly]
  split
  · rfl
  · split <;> rfl

theorem throughEntry_found (found : throughEntry entry put virtAddr writing = .ok (.ok (physAddr,after)))
    (sizes : size = 1 ∨ size = 2 ∨ size = 4) (aligned : ¬Misaligned virtAddr size) :
    physAddr + size ≤ MemorySize ∧ after = put (marked entry writing) := by
  unfold throughEntry at found
  split at found
  · cases found
  · split at found
    · cases found
    · rename_i inside
      cases found
      exact ⟨offset_fits virtAddr entry.physicalPage.toNat (by omega) sizes aligned,rfl⟩

theorem throughEntry_lives (entry : TranslationEntry) (put : TranslationEntry → Machine) (virtAddr : BitVec 32) (writing : Bool) :
    ∃ outcome, throughEntry entry put virtAddr writing = .ok outcome := by
  unfold throughEntry
  split
  · exact ⟨_,rfl⟩
  · split <;> exact ⟨_,rfl⟩

theorem throughEntry_good (writable : (entry.readOnly && writing) = false) (frame : entry.physicalPage.toNat < NumPhysPages) :
    throughEntry entry put virtAddr writing =
      .ok (.ok (entry.physicalPage.toNat * PageSize + virtAddr.toNat % PageSize,put (marked entry writing))) := by
  unfold throughEntry
  rw [if_neg (by rw [writable]; exact Bool.false_ne_true),if_neg (by omega)]

theorem throughEntry_present (entry : TranslationEntry) (put : TranslationEntry → Machine) (virtAddr : BitVec 32) (writing : Bool) :
    told (throughEntry entry put virtAddr writing) ≠ .ok (.error .PageFaultException) := by
  unfold throughEntry
  split
  · simp [told]
  · split <;> simp [told]

-- Entries of one page are copies of one entry.
theorem cached_same (cached : Cached tlb pageTable) {one two : TranslationEntry} (first : one ∈ tlb) (second : two ∈ tlb)
    (valid : one.valid = true ∧ two.valid = true) (page : one.virtualPage.toNat = two.virtualPage.toNat) :
    one.physicalPage = two.physicalPage ∧ one.readOnly = two.readOnly := by
  obtain ⟨original,listed,_,frame,readOnly⟩ := cached one first valid.1
  obtain ⟨original',listed',_,frame',readOnly'⟩ := cached two second valid.2
  rw [page,listed'] at listed
  cases listed
  exact ⟨frame.trans frame'.symm,readOnly.trans readOnly'.symm⟩

-- What a successful translation leaves: the entry of the page is marked, and nothing else changes.
structure Marks (before : List TranslationEntry) (virtAddr : BitVec 32) (size : Nat) (writing : Bool)
    (rebuild : List TranslationEntry → Machine) (page : Nat → TranslationEntry → Prop) (physAddr : Nat) (after : Machine) :
    Prop where
  inside : physAddr + size ≤ MemorySize
  entry : ∃ i entry, before[i]? = some entry ∧ entry.valid = true ∧ page i entry ∧
    after = rebuild (before.set i (marked entry writing))

-- The two ways of translating, for every address, size and table.
structure Agree (m : Machine) (tlb pageTable : List TranslationEntry) (virtAddr : BitVec 32) (size : Nat) (writing : Bool) :
    Prop where
  agrees : told ((m.withTLB tlb).translate virtAddr size writing) = told ((m.withTable pageTable).translate virtAddr size writing) ∨
    (told ((m.withTLB tlb).translate virtAddr size writing) = .ok (.error .PageFaultException) ∧
      ¬Misaligned virtAddr size ∧ ∀ entry ∈ tlb, entry.valid = true → entry.virtualPage.toNat ≠ virtAddr.toNat / PageSize)
  misaligned : Misaligned virtAddr size →
    told ((m.withTLB tlb).translate virtAddr size writing) = .ok (.error .AddressErrorException)
  tlbLives : ∃ outcome, (m.withTLB tlb).translate virtAddr size writing = .ok outcome
  tableLives : ∃ outcome, (m.withTable pageTable).translate virtAddr size writing = .ok outcome
  tlbMarks : ∀ physAddr after, (m.withTLB tlb).translate virtAddr size writing = .ok (.ok (physAddr,after)) →
    Marks tlb virtAddr size writing m.withTLB (fun _ entry => entry.virtualPage.toNat = virtAddr.toNat / PageSize) physAddr after
  tableMarks : ∀ physAddr after, (m.withTable pageTable).translate virtAddr size writing = .ok (.ok (physAddr,after)) →
    Marks pageTable virtAddr size writing m.withTable (fun i _ => i = virtAddr.toNat / PageSize) physAddr after
  -- A page fault is a page that the TLB does not have, and what it has can be used.
  faults : told ((m.withTLB tlb).translate virtAddr size writing) = .ok (.error .PageFaultException) →
    ∀ entry ∈ tlb, entry.valid = true → entry.virtualPage.toNat ≠ virtAddr.toNat / PageSize
  hits : ∀ entry ∈ tlb, entry.valid = true → entry.virtualPage.toNat = virtAddr.toNat / PageSize → ¬Misaligned virtAddr size →
    (entry.readOnly && writing) = false → entry.physicalPage.toNat < NumPhysPages →
    told ((m.withTLB tlb).translate virtAddr size writing) =
      .ok (.ok (entry.physicalPage.toNat * PageSize + virtAddr.toNat % PageSize))
  -- The exceptions of both kinds of access leave every entry as it was.
  fails : ∀ mode, mode = m.withTLB tlb ∨ mode = m.withTable pageTable → ∀ bigEndian value which entry,
    (mode.readMem bigEndian virtAddr size = .error (.raised which entry) ∨
      mode.writeMem bigEndian virtAddr size value = .error (.raised which entry)) →
    entry.tlb = mode.tlb ∧ entry.pageTable = mode.pageTable

theorem failing_keeps (m : Machine) (bigEndian : Bool) (value : BitVec 32) (which : ExceptionType) (entry : Machine)
    (failed : m.readMem bigEndian virtAddr size = .error (.raised which entry) ∨
      m.writeMem bigEndian virtAddr size value = .error (.raised which entry)) :
    entry.tlb = m.tlb ∧ entry.pageTable = m.pageTable := by
  rcases failed with read | write
  · exact (raiseException_frame (readMem_raised read)).2
  · exact (raiseException_frame (writeMem_raised write)).2

theorem lookup_table_cases (m : Machine) (pageTable : List TranslationEntry) (vpn : Nat) :
    (∃ which, (m.withTable pageTable).lookup vpn = .ok (.error which)) ∨
    ∃ entry, pageTable[vpn]? = some entry ∧ entry.valid = true := by
  cases there : pageTable[vpn]? with
  | none => exact .inl ⟨_,by simp [lookup,withTable,there]; rfl⟩
  | some entry =>
    cases valid : entry.valid with
    | false => exact .inl ⟨_,by simp [lookup,withTable,there,valid]; rfl⟩
    | true => exact .inr ⟨entry,rfl,valid⟩

-- What translating through an entry says of the tables.
theorem throughEntry_marks {before : List TranslationEntry} {rebuild : List TranslationEntry → Machine}
    {page : Nat → TranslationEntry → Prop} (there : before[i]? = some entry) (valid : entry.valid = true) (right : page i entry)
    (sizes : size = 1 ∨ size = 2 ∨ size = 4) (aligned : ¬Misaligned virtAddr size)
    (found : throughEntry entry (fun changed => rebuild (before.set i changed)) virtAddr writing = .ok (.ok (physAddr,after))) :
    Marks before virtAddr size writing rebuild page physAddr after := by
  obtain ⟨inside,same⟩ := throughEntry_found found sizes aligned
  exact ⟨inside,i,entry,there,valid,right,same⟩

theorem table_marks (m : Machine) (pageTable : List TranslationEntry) (virtAddr : BitVec 32)
    (sizes : size = 1 ∨ size = 2 ∨ size = 4) (aligned : ¬Misaligned virtAddr size) (writing : Bool) :
    (∃ outcome, (m.withTable pageTable).translate virtAddr size writing = .ok outcome) ∧
    ∀ physAddr after, (m.withTable pageTable).translate virtAddr size writing = .ok (.ok (physAddr,after)) →
      Marks pageTable virtAddr size writing m.withTable (fun i _ => i = virtAddr.toNat / PageSize) physAddr after := by
  rcases lookup_table_cases m pageTable (virtAddr.toNat / PageSize) with ⟨which,refused⟩ | ⟨entry,there,valid⟩
  · rw [translate_refused aligned refused]
    refine ⟨⟨_,rfl⟩,?_⟩
    intro physAddr after wrong
    cases wrong
  · rw [translate_entry sizes aligned (lookup_table m entry there valid)]
    refine ⟨throughEntry_lives _ _ _ _,?_⟩
    intro physAddr after found
    exact throughEntry_marks there valid rfl sizes aligned found

theorem tlb_agrees (m : Machine) (cached : Cached tlb pageTable) (virtAddr : BitVec 32)
    (sizes : size = 1 ∨ size = 2 ∨ size = 4) (writing : Bool) : Agree m tlb pageTable virtAddr size writing := by
  by_cases aligned : Misaligned virtAddr size
  · have one := translate_misaligned (m := m.withTLB tlb) aligned writing
    have two := translate_misaligned (m := m.withTable pageTable) aligned writing
    refine ⟨.inl (by rw [one,two]),fun _ => by rw [one]; rfl,⟨_,one⟩,⟨_,two⟩,?_,?_,?_,?_,fun mode _ => failing_keeps mode⟩
    · intro physAddr after wrong
      rw [one] at wrong
      cases wrong
    · intro physAddr after wrong
      rw [two] at wrong
      cases wrong
    · intro wrong
      rw [one] at wrong
      cases wrong
    · intro _ _ _ _ straight
      exact absurd aligned straight
  · obtain ⟨tableLives,tableMarks⟩ := table_marks m pageTable virtAddr sizes aligned writing
    rcases lookup_tlb m tlb (virtAddr.toNat / PageSize) with ⟨missing,none⟩ | ⟨i,entry,there,valid,page,found⟩
    · have fault := translate_refused aligned missing writing
      refine ⟨.inr ⟨by rw [fault]; rfl,aligned,none⟩,fun wrong => absurd wrong aligned,⟨_,fault⟩,tableLives,?_,tableMarks,
        fun _ => none,fun hit member valid page => absurd page (none hit member valid),fun mode _ => failing_keeps mode⟩
      intro physAddr after wrong
      rw [fault] at wrong
      cases wrong
    · have through := translate_entry sizes aligned found writing
      refine ⟨.inl ?_,fun wrong => absurd wrong aligned,by rw [through]; exact throughEntry_lives _ _ _ _,tableLives,?_,
        tableMarks,?_,?_,fun mode _ => failing_keeps mode⟩
      · obtain ⟨original,listed,used,frame,readOnly⟩ := cached entry (List.mem_of_getElem? there) valid
        rw [page] at listed
        rw [through,translate_entry sizes aligned (lookup_table m original listed used) writing]
        exact throughEntry_told _ _ _ _ _ _ frame readOnly
      · intro physAddr after success
        rw [through] at success
        exact throughEntry_marks there valid page sizes aligned success
      · intro fault
        rw [through] at fault
        exact absurd fault (throughEntry_present _ _ _ _)
      · intro hit member used same _ writable frame
        obtain ⟨sameFrame,sameAccess⟩ := cached_same cached (List.mem_of_getElem? there) member ⟨valid,used⟩ (page.trans same.symm)
        rw [← sameAccess] at writable
        rw [← sameFrame] at frame ⊢
        rw [through,throughEntry_good writable frame]
        rfl

end Machine

-- Page 3 is in frame 5, and the TLB has it; page 1 is only in the table.
def cachedTable : List TranslationEntry :=
  [⟨0,0,false,false,false,false⟩,⟨1,2,true,false,false,false⟩,⟨2,0,false,false,false,false⟩,⟨3,5,true,true,false,false⟩]

def cachedTLB : List TranslationEntry := [⟨9,9,false,false,false,false⟩,⟨3,5,true,true,true,false⟩]

theorem tlb_agrees_cached :
    Machine.Agree ⟨fun _ => 0,fun _ => 0,none,none⟩ cachedTLB cachedTable (3 * 128 + 4) 4 false ∧
    Machine.told ((Machine.withTLB ⟨fun _ => 0,fun _ => 0,none,none⟩ cachedTLB).translate (3 * 128 + 4) 4 false) =
      .ok (.ok (5 * 128 + 4)) := by
  have agree : Machine.Agree ⟨fun _ => 0,fun _ => 0,none,none⟩ cachedTLB cachedTable (3 * 128 + 4) 4 false := by
    refine Machine.tlb_agrees _ ?_ _ (by decide) false
    intro cached member valid
    rcases List.mem_cons.mp member with rfl | member
    · cases valid
    · cases List.mem_singleton.mp member
      exact ⟨⟨3,5,true,true,false,false⟩,rfl,rfl,rfl,rfl⟩
  exact ⟨agree,agree.hits ⟨3,5,true,true,true,false⟩ (by simp [cachedTLB]) rfl rfl (by decide) rfl (by decide)⟩

end Nachos.Mips
