import Nachos.Mips.Aborts

-- Delayed loads and interrupts. CheckIfDue and RaiseException do the pending load
-- at once; user code must not be able to tell.
namespace Nachos.Mips

-- The general registers an instruction reads and writes, the target of a load
-- apart. OR reads the same register twice.
def Instruction.reads (instr : Instruction) : List Nat :=
  match instr.opCode with
  | .ADD | .ADDU | .AND | .NOR | .SLT | .SLTU | .SUB | .SUBU | .XOR | .SLLV | .SRAV | .SRLV | .BEQ | .BNE
  | .DIV | .DIVU | .MULT | .MULTU | .SB | .SH | .SW | .SWL | .SWR => [instr.rs,instr.rt]
  | .ADDI | .ADDIU | .ANDI | .ORI | .XORI | .SLTI | .SLTIU | .OR | .BGEZ | .BGEZAL | .BGTZ | .BLEZ | .BLTZ | .BLTZAL
  | .JR | .JALR | .LB | .LBU | .LH | .LHU | .LW | .LWL | .LWR | .MTHI | .MTLO => [instr.rs]
  | .SLL | .SRA | .SRL => [instr.rt]
  | .J | .JAL | .LUI | .MFHI | .MFLO | .SYSCALL | .UNIMP | .RES | .RFE | .SPECIAL | .BCOND => []

def Instruction.writes (instr : Instruction) : List Nat :=
  match instr.opCode with
  | .ADD | .ADDU | .AND | .NOR | .OR | .SLT | .SLTU | .SUB | .SUBU | .XOR | .SLL | .SRA | .SRL | .SLLV | .SRAV | .SRLV
  | .MFHI | .MFLO | .JALR => [instr.rd]
  | .ADDI | .ADDIU | .ANDI | .ORI | .XORI | .SLTI | .SLTIU | .LUI => [instr.rt]
  | .BGEZAL | .BLTZAL | .JAL => [R31]
  | _ => []

-- The instruction may follow a load into the register.
def Instruction.Clear (instr : Instruction) (r : Nat) : Prop := r ∉ instr.reads ∧ r ∉ instr.writes

namespace Machine

def withRegisters (m : Machine) (registers : Nat → BitVec 32) : Machine := {m with registers}

-- Some registers replaced by given values.
def overlay (hidden : Nat → Option (BitVec 32)) (m : Machine) : Machine :=
  m.withRegisters fun i => (hidden i).getD (m.registers i)

variable {hidden : Nat → Option (BitVec 32)} {m after : Machine} {bigEndian : Bool} {i r : Nat} {loose : Prop}

theorem overlay_shows (visible : hidden i = none) : (m.overlay hidden).registers i = m.registers i := by
  simp [overlay,withRegisters,visible]

theorem overlay_set (visible : hidden i = none) (value : BitVec 32) :
    (m.overlay hidden).set i value = (m.set i value).overlay hidden := by
  simp only [overlay,withRegisters,set,Machine.mk.injEq,and_true]
  funext j
  by_cases same : j = i
  · subst same
    simp [visible]
  · simp [same]

theorem lookup_withRegisters (m : Machine) (registers : Nat → BitVec 32) (vpn : Nat) :
    (m.withRegisters registers).lookup vpn =
      (m.lookup vpn).map fun found => found.map fun (entry,put) =>
        (entry,fun changed => (put changed).withRegisters registers) := by
  unfold lookup
  simp only [withRegisters]
  split
  · rfl
  · rfl
  · split
    · rfl
    · split <;> rfl
  · split
    · rfl
    · split <;> rfl

theorem translate_withRegisters (m : Machine) (registers : Nat → BitVec 32) (virtAddr : BitVec 32) (size : Nat)
    (writing : Bool) :
    (m.withRegisters registers).translate virtAddr size writing =
      (m.translate virtAddr size writing).map fun found => found.map fun (physAddr,after) =>
        (physAddr,after.withRegisters registers) := by
  simp only [translate,lookup_withRegisters]
  split
  · rfl
  · rcases m.lookup (virtAddr.toNat / PageSize) with why | which | ⟨entry,put⟩
    · rfl
    · rfl
    · simp only [Except.map]
      split
      · rfl
      · split
        · rfl
        · split <;> rfl

-- The tables and the memory take no part in what is kept in registers.
theorem translate_registers (found : m.translate virtAddr size writing = .ok (.ok (physAddr,after))) :
    after.registers = m.registers := by
  have same := translate_withRegisters m m.registers virtAddr size writing
  rw [show m.withRegisters m.registers = m from rfl,found] at same
  simp only [Except.map,Except.ok.injEq,Prod.mk.injEq,true_and] at same
  rw [same]
  rfl

theorem fetch_withRegisters (bigEndian : Bool) (m : Machine) (registers : Nat → BitVec 32) (physAddr size : Nat) :
    (m.withRegisters registers).fetch bigEndian physAddr size = m.fetch bigEndian physAddr size := by
  unfold fetch
  split <;> rfl

theorem place_withRegisters (m : Machine) (registers : Nat → BitVec 32) (physAddr : Nat) (value : BitVec 32) (size : Nat) :
    (m.withRegisters registers).place bigEndian physAddr value size =
      (m.place bigEndian physAddr value size).map fun after => after.withRegisters registers := by
  unfold place
  split <;> rfl

theorem place_registers (placed : m.place bigEndian physAddr value size = .ok after) :
    after.registers = m.registers := by
  unfold place at placed
  split at placed <;> cases placed <;> rfl

theorem overlay_of_registers (same : after.registers = m.registers) :
    after.withRegisters (fun i => (hidden i).getD (m.registers i)) = after.overlay hidden := by
  rw [overlay,same]

-- Both ways of running agree on exceptions.
def Settles (hidden : Nat → Option (BitVec 32)) (m : Machine) : Prop :=
  ∀ nextReg nextValue, (m.overlay hidden).delayedLoad nextReg nextValue = m.delayedLoad nextReg nextValue

-- A pending load that the replaced registers stand for: what the machine looks like
-- after it, however it went on in between.
structure Hides (hidden : Nat → Option (BitVec 32)) (loadReg loadValue : BitVec 32) : Prop where
  settles : ∀ m : Machine, m.registers LoadReg = loadReg → m.registers LoadValueReg = loadValue → m.Settles hidden
  visible : ∀ i, NumGPRegs ≤ i → i ≠ LoadReg → i ≠ LoadValueReg → hidden i = none

-- The machine still has that load to do.
def Pends (m : Machine) (loadReg loadValue : BitVec 32) : Prop :=
  m.registers LoadReg = loadReg ∧ m.registers LoadValueReg = loadValue

theorem Pends.set (pends : m.Pends loadReg loadValue) (one : i ≠ LoadReg) (two : i ≠ LoadValueReg)
    (value : BitVec 32) : (m.set i value).Pends loadReg loadValue := by
  simpa [Pends,Ne.symm one,Ne.symm two] using pends

theorem raise_overlay (hides : Hides hidden loadReg loadValue) (pends : m.Pends loadReg loadValue)
    (which : ExceptionType) (badVAddr : BitVec 32) :
    (m.overlay hidden).raiseException which badVAddr = m.raiseException which badVAddr := by
  have visible := hides.visible BadVAddrReg (by decide) (by decide) (by decide)
  have after := pends.set (i := BadVAddrReg) (by decide) (by decide) badVAddr
  unfold raiseException
  rw [overlay_set visible,hides.settles _ after.1 after.2 0 0]

theorem readMem_overlay (bigEndian : Bool) (hides : Hides hidden loadReg loadValue) (pends : m.Pends loadReg loadValue)
    (addr : BitVec 32) (size : Nat) :
    (∃ stop, m.readMem bigEndian addr size = .error stop ∧ (m.overlay hidden).readMem bigEndian addr size = .error stop) ∨
    (∃ value after, m.readMem bigEndian addr size = .ok (value,after) ∧
      (m.overlay hidden).readMem bigEndian addr size = .ok (value,after.overlay hidden) ∧
      after.registers = m.registers) := by
  have moved : (m.overlay hidden).translate addr size false = _ := translate_withRegisters m _ addr size false
  have raised := raise_overlay hides pends
  unfold readMem
  rw [moved]
  rcases found : m.translate addr size false with why | which | ⟨physAddr,after⟩
  · exact Or.inl ⟨_,rfl,rfl⟩
  · exact Or.inl ⟨_,rfl,by simp only [Except.map,raised]⟩
  · have same := translate_registers found
    have fetched := fetch_withRegisters bigEndian after (fun i => (hidden i).getD (m.registers i)) physAddr size
    rw [overlay_of_registers same] at fetched
    simp only [Except.map,overlay_of_registers same,fetched]
    rcases after.fetch bigEndian physAddr size with why | value
    · exact Or.inl ⟨_,rfl,rfl⟩
    · exact Or.inr ⟨value,after,rfl,rfl,same⟩

theorem writeMem_overlay (bigEndian : Bool) (hides : Hides hidden loadReg loadValue) (pends : m.Pends loadReg loadValue)
    (addr : BitVec 32) (size : Nat) (value : BitVec 32) :
    (∃ stop, m.writeMem bigEndian addr size value = .error stop ∧
      (m.overlay hidden).writeMem bigEndian addr size value = .error stop) ∨
    (∃ after, m.writeMem bigEndian addr size value = .ok after ∧
      (m.overlay hidden).writeMem bigEndian addr size value = .ok (after.overlay hidden) ∧
      after.registers = m.registers) := by
  have moved : (m.overlay hidden).translate addr size true = _ := translate_withRegisters m _ addr size true
  have raised := raise_overlay hides pends
  unfold writeMem
  rw [moved]
  rcases found : m.translate addr size true with why | which | ⟨physAddr,middle⟩
  · exact Or.inl ⟨_,rfl,rfl⟩
  · exact Or.inl ⟨_,rfl,by simp only [Except.map,raised]⟩
  · have same := translate_registers found
    simp only [Except.map,overlay_of_registers same]
    rw [overlay,place_withRegisters]
    rcases placed : middle.place bigEndian physAddr value size with why | after
    · exact Or.inl ⟨_,rfl,rfl⟩
    · have kept := (place_registers placed).trans same
      refine Or.inr ⟨after,rfl,?_,kept⟩
      simp only [Except.map,place_registers placed,overlay]

-- Both ways of executing the switch: they stop alike, or the pending load is still
-- the only difference. If `loose`, the value of a load into r0 may differ as well.
inductive Transparent (loose : Prop) (hidden : Nat → Option (BitVec 32)) (loadReg loadValue : BitVec 32) :
    Except Stop Executed → Except Stop Executed → Prop where
  | stops (stop : Stop) : Transparent loose hidden loadReg loadValue (.error stop) (.error stop)
  | ends (value : BitVec 32) : e.machine.Pends loadReg loadValue →
      value = e.nextLoadValue ∨ (loose ∧ e.nextLoadReg = 0) →
      Transparent loose hidden loadReg loadValue (.ok e)
        (.ok {e with machine := e.machine.overlay hidden, nextLoadValue := value})

theorem ends_transparent (pends : m.Pends loadReg loadValue) (pcAfter nextLoadReg nextLoadValue : BitVec 32) :
    Transparent loose hidden loadReg loadValue (.ok ⟨m,pcAfter,nextLoadReg,nextLoadValue⟩)
      (.ok ⟨m.overlay hidden,pcAfter,nextLoadReg,nextLoadValue⟩) :=
  .ends (e := ⟨m,pcAfter,nextLoadReg,nextLoadValue⟩) nextLoadValue pends (.inl rfl)

theorem raise_transparent (hides : Hides hidden loadReg loadValue) (pends : m.Pends loadReg loadValue)
    (which : ExceptionType) (badVAddr : BitVec 32) :
    Transparent loose hidden loadReg loadValue (.error (m.raiseException which badVAddr))
      (.error ((m.overlay hidden).raiseException which badVAddr)) := by
  rw [raise_overlay hides pends]
  exact .stops _

theorem read_transparent (hides : Hides hidden loadReg loadValue) (pends : m.Pends loadReg loadValue) (addr : BitVec 32)
    (size : Nat) (next next' : BitVec 32 × Machine → Except Stop Executed)
    (same : ∀ value after, after.registers = m.registers →
      Transparent loose hidden loadReg loadValue (next (value,after)) (next' (value,after.overlay hidden))) :
    Transparent loose hidden loadReg loadValue (m.readMem bigEndian addr size >>= next)
      ((m.overlay hidden).readMem bigEndian addr size >>= next') := by
  rcases readMem_overlay bigEndian hides pends addr size with ⟨stop,one,two⟩ | ⟨value,after,one,two,kept⟩
  · rw [one,two]
    exact .stops stop
  · rw [one,two]
    exact same value after kept

theorem write_transparent (hides : Hides hidden loadReg loadValue) (pends : m.Pends loadReg loadValue)
    (addr : BitVec 32) (size : Nat) (value : BitVec 32) (next next' : Machine → Except Stop Executed)
    (same : ∀ after, after.registers = m.registers →
      Transparent loose hidden loadReg loadValue (next after) (next' (after.overlay hidden))) :
    Transparent loose hidden loadReg loadValue (m.writeMem bigEndian addr size value >>= next)
      ((m.overlay hidden).writeMem bigEndian addr size value >>= next') := by
  rcases writeMem_overlay bigEndian hides pends addr size value with ⟨stop,one,two⟩ | ⟨after,one,two,kept⟩
  · rw [one,two]
    exact .stops stop
  · rw [one,two]
    exact same after kept

theorem Pends.kept (pends : m.Pends loadReg loadValue) (same : after.registers = m.registers) :
    after.Pends loadReg loadValue := by
  rw [Pends,same]
  exact pends

-- The instruction does not look at the replaced registers. The merging of LWL and
-- LWR finds the pending value either way, or is for r0.
structure Blind (loose : Prop) (hidden : Nat → Option (BitVec 32)) (m : Machine) (instr : Instruction) : Prop where
  reads : ∀ i ∈ instr.reads, hidden i = none
  writes : ∀ i ∈ instr.writes, hidden i = none
  fields : instr.rs < NumGPRegs ∧ instr.rt < NumGPRegs ∧ instr.rd < NumGPRegs
  merges : ∀ after : Machine, after.registers = m.registers →
    (after.overlay hidden).pendingValue instr = after.pendingValue instr ∨ (loose ∧ instr.rt = 0)

theorem general_register (bound : i < NumGPRegs) : i ≠ LoadReg ∧ i ≠ LoadValueReg := by
  simp only [NumGPRegs,LoadReg,LoadValueReg] at *
  omega

-- One assignment to a register, and the end of the switch.
theorem set_transparent (pends : m.Pends loadReg loadValue)
    (visible : hidden i = none) (bound : i < NumGPRegs) (value pcAfter : BitVec 32) :
    Transparent loose hidden loadReg loadValue (.ok ⟨m.set i value,pcAfter,0,0⟩)
      (.ok ⟨(m.overlay hidden).set i value,pcAfter,0,0⟩) := by
  rw [overlay_set visible]
  obtain ⟨one,two⟩ := general_register bound
  exact ends_transparent (pends.set one two value) _ _ _

-- Two assignments to Hi and Lo.
theorem hilo_transparent (hides : Hides hidden loadReg loadValue) (pends : m.Pends loadReg loadValue)
    (one : i = HiReg ∨ i = LoReg) (two : j = HiReg ∨ j = LoReg) (first second pcAfter : BitVec 32) :
    Transparent loose hidden loadReg loadValue (.ok ⟨(m.set i first).set j second,pcAfter,0,0⟩)
      (.ok ⟨((m.overlay hidden).set i first).set j second,pcAfter,0,0⟩) := by
  have special : ∀ {k}, k = HiReg ∨ k = LoReg → hidden k = none ∧ k ≠ LoadReg ∧ k ≠ LoadValueReg := by
    intro k which
    have apart : k ≠ LoadReg ∧ k ≠ LoadValueReg := by rcases which with rfl | rfl <;> decide
    exact ⟨hides.visible k (by rcases which with rfl | rfl <;> decide) apart.1 apart.2,apart⟩
  obtain ⟨seen,a,b⟩ := special one
  obtain ⟨seen',c,d⟩ := special two
  rw [overlay_set seen,overlay_set seen']
  exact ends_transparent ((pends.set a b first).set c d second) _ _ _

-- A load, whose value is fixed or does not matter.
theorem loads_transparent (pends : m.Pends loadReg loadValue) (pcAfter : BitVec 32) (rt : Nat)
    (value value' : BitVec 32) (same : value' = value ∨ (loose ∧ rt = 0)) :
    Transparent loose hidden loadReg loadValue (.ok ⟨m,pcAfter,BitVec.ofNat 32 rt,value⟩)
      (.ok ⟨m.overlay hidden,pcAfter,BitVec.ofNat 32 rt,value'⟩) := by
  refine .ends (e := ⟨m,pcAfter,BitVec.ofNat 32 rt,value⟩) value' pends ?_
  rcases same with same | ⟨free,zero⟩
  · exact .inl same
  · exact .inr ⟨free,by rw [zero]; rfl⟩

theorem execute_transparent (hides : Hides hidden loadReg loadValue) (pends : m.Pends loadReg loadValue)
    (blind : Blind loose hidden m instr) :
    Transparent loose hidden loadReg loadValue (m.execute bigEndian instr) ((m.overlay hidden).execute bigEndian instr) := by
  have sees : ∀ i, i ∈ instr.reads → (m.overlay hidden).registers i = m.registers i :=
    fun i read => overlay_shows (blind.reads i read)
  have next : (m.overlay hidden).registers NextPCReg = m.registers NextPCReg :=
    overlay_shows (hides.visible NextPCReg (by decide) (by decide) (by decide))
  have hi : (m.overlay hidden).registers HiReg = m.registers HiReg :=
    overlay_shows (hides.visible HiReg (by decide) (by decide) (by decide))
  have lo : (m.overlay hidden).registers LoReg = m.registers LoReg :=
    overlay_shows (hides.visible LoReg (by decide) (by decide) (by decide))
  have sets : ∀ i, i ∈ instr.writes → i < NumGPRegs → ∀ value pcAfter,
      Transparent loose hidden loadReg loadValue (.ok ⟨m.set i value,pcAfter,0,0⟩)
        (.ok ⟨(m.overlay hidden).set i value,pcAfter,0,0⟩) :=
    fun i write bound => set_transparent pends (blind.writes i write) bound
  obtain ⟨boundRs,boundRt,boundRd⟩ := blind.fields
  cases code : instr.opCode with
  | ADD | SUB =>
    have rs := sees instr.rs (by simp [Instruction.reads,code])
    have rt := sees instr.rt (by simp [Instruction.reads,code])
    simp only [execute,code,rs,rt,next]
    split
    · exact raise_transparent hides pends _ _
    · exact sets instr.rd (by simp [Instruction.writes,code]) boundRd _ _
  | ADDI =>
    have rs := sees instr.rs (by simp [Instruction.reads,code])
    simp only [execute,code,rs,next]
    split
    · exact raise_transparent hides pends _ _
    · exact sets instr.rt (by simp [Instruction.writes,code]) boundRt _ _
  | ADDU | AND | NOR | SLT | SLTU | SUBU | XOR | SLLV | SRAV | SRLV =>
    have rs := sees instr.rs (by simp [Instruction.reads,code])
    have rt := sees instr.rt (by simp [Instruction.reads,code])
    simp only [execute,code,rs,rt,next]
    exact sets instr.rd (by simp [Instruction.writes,code]) boundRd _ _
  | OR =>
    have rs := sees instr.rs (by simp [Instruction.reads,code])
    simp only [execute,code,rs,next]
    exact sets instr.rd (by simp [Instruction.writes,code]) boundRd _ _
  | SLL | SRA | SRL =>
    have rt := sees instr.rt (by simp [Instruction.reads,code])
    simp only [execute,code,rt,next]
    exact sets instr.rd (by simp [Instruction.writes,code]) boundRd _ _
  | ADDIU | ANDI | ORI | XORI | SLTI | SLTIU =>
    have rs := sees instr.rs (by simp [Instruction.reads,code])
    simp only [execute,code,rs,next]
    exact sets instr.rt (by simp [Instruction.writes,code]) boundRt _ _
  | LUI =>
    simp only [execute,code,next]
    exact sets instr.rt (by simp [Instruction.writes,code]) boundRt _ _
  | MFHI | MFLO =>
    simp only [execute,code,hi,lo,next]
    exact sets instr.rd (by simp [Instruction.writes,code]) boundRd _ _
  | BEQ | BNE =>
    have rs := sees instr.rs (by simp [Instruction.reads,code])
    have rt := sees instr.rt (by simp [Instruction.reads,code])
    simp only [execute,code,rs,rt,next]
    split <;> exact ends_transparent pends _ _ _
  | BGEZ | BGTZ | BLEZ | BLTZ =>
    have rs := sees instr.rs (by simp [Instruction.reads,code])
    simp only [execute,code,rs,next]
    split <;> exact ends_transparent pends _ _ _
  | BGEZAL | BLTZAL =>
    have visible := blind.writes R31 (by simp [Instruction.writes,code])
    have linked := pends.set (i := R31) (by decide) (by decide) (m.registers NextPCReg + 4)
    simp only [execute,code,next,overlay_set visible]
    rw [overlay_shows (blind.reads instr.rs (by simp [Instruction.reads,code]))]
    split <;> exact ends_transparent linked _ _ _
  | JAL =>
    simp only [execute,code,next]
    exact sets R31 (by simp [Instruction.writes,code]) (by decide) _ _
  | J =>
    simp only [execute,code,next]
    exact ends_transparent pends _ _ _
  | JALR =>
    have visible := blind.writes instr.rd (by simp [Instruction.writes,code])
    obtain ⟨one,two⟩ := general_register boundRd
    simp only [execute,code,next,overlay_set visible]
    rw [overlay_shows (blind.reads instr.rs (by simp [Instruction.reads,code]))]
    exact ends_transparent (pends.set one two _) _ _ _
  | JR =>
    have rs := sees instr.rs (by simp [Instruction.reads,code])
    simp only [execute,code,rs]
    exact ends_transparent pends _ _ _
  | MTHI | MTLO =>
    have rs := sees instr.rs (by simp [Instruction.reads,code])
    simp only [execute,code,rs,next]
    rw [overlay_set (hides.visible _ (by decide) (by decide) (by decide))]
    exact ends_transparent (pends.set (by decide) (by decide) _) _ _ _
  | MULT | MULTU =>
    have rs := sees instr.rs (by simp [Instruction.reads,code])
    have rt := sees instr.rt (by simp [Instruction.reads,code])
    simp only [execute,code,rs,rt,next]
    exact hilo_transparent hides pends (by decide) (by decide) _ _ _
  | DIV =>
    have rs := sees instr.rs (by simp [Instruction.reads,code])
    have rt := sees instr.rt (by simp [Instruction.reads,code])
    simp only [execute,code,rs,rt,next]
    split
    · exact hilo_transparent hides pends (by decide) (by decide) _ _ _
    · split
      · exact .stops _
      · exact hilo_transparent hides pends (by decide) (by decide) _ _ _
  | DIVU =>
    have rs := sees instr.rs (by simp [Instruction.reads,code])
    have rt := sees instr.rt (by simp [Instruction.reads,code])
    simp only [execute,code,rs,rt,next]
    split <;> exact hilo_transparent hides pends (by decide) (by decide) _ _ _
  | LB | LBU =>
    have rs := sees instr.rs (by simp [Instruction.reads,code])
    simp only [execute,code,rs,next]
    refine read_transparent hides pends _ _ _ _ fun value after kept => ?_
    exact loads_transparent (pends.kept kept) _ _ _ _ (.inl rfl)
  | LH | LHU | LW =>
    have rs := sees instr.rs (by simp [Instruction.reads,code])
    simp only [execute,code,rs,next]
    split
    · exact raise_transparent hides pends _ _
    · refine read_transparent hides pends _ _ _ _ fun value after kept => ?_
      exact loads_transparent (pends.kept kept) _ _ _ _ (.inl rfl)
  | LWL | LWR =>
    have rs := sees instr.rs (by simp [Instruction.reads,code])
    simp only [execute,code,rs,next]
    split
    · exact .stops _
    · refine read_transparent hides pends _ _ _ _ fun value after kept => ?_
      refine loads_transparent (pends.kept kept) _ _ _ _ ?_
      exact (blind.merges after kept).imp (fun same => by rw [same]) id
  | SB | SH | SW =>
    have rs := sees instr.rs (by simp [Instruction.reads,code])
    have rt := sees instr.rt (by simp [Instruction.reads,code])
    simp only [execute,code,rs,rt,next]
    refine write_transparent hides pends _ _ _ _ _ fun after kept => ?_
    exact ends_transparent (pends.kept kept) _ _ _
  | SWL | SWR =>
    have rs := sees instr.rs (by simp [Instruction.reads,code])
    have rt := sees instr.rt (by simp [Instruction.reads,code])
    simp only [execute,code,rs,rt,next]
    split
    · exact .stops _
    · refine read_transparent hides pends _ _ _ _ fun value middle kept => ?_
      refine write_transparent hides (pends.kept kept) _ _ _ _ _ fun after kept' => ?_
      exact ends_transparent ((pends.kept kept).kept kept') _ _ _
  | SYSCALL | RES | UNIMP =>
    simp only [execute,code]
    exact raise_transparent hides pends _ _
  | RFE | SPECIAL | BCOND =>
    simp only [execute,code]
    exact .stops _

-- Two machines that differ at most, if `loose`, in the value of a load into r0.
def Near (loose : Prop) (m m' : Machine) : Prop :=
  m' = m ∨ (loose ∧ m.registers LoadReg = 0 ∧ ∃ value, m' = m.set LoadValueReg value)

theorem delayedLoad_value (m : Machine) (nextReg value value' : BitVec 32) :
    m.delayedLoad nextReg value' = (m.delayedLoad nextReg value).set LoadValueReg value' := by
  simp only [delayedLoad,set,Machine.mk.injEq,and_true]
  rw [Function.update_comm (show (0 : Nat) ≠ LoadValueReg by decide),Function.update_idem]

theorem finish_value (e : Executed) (value : BitVec 32) :
    ({e with nextLoadValue := value} : Executed).finish = e.finish.set LoadValueReg value := by
  have comm : ∀ (m : Machine) i (x : BitVec 32), i ≠ LoadValueReg →
      (m.set LoadValueReg value).set i x = (m.set i x).set LoadValueReg value := by
    intro m i x differs
    simp only [set]
    rw [Function.update_comm differs.symm]
  simp only [Executed.finish]
  rw [delayedLoad_value _ _ e.nextLoadValue value,comm _ _ _ (by decide),comm _ _ _ (by decide),comm _ _ _ (by decide)]
  rfl

theorem finish_loadReg (e : Executed) : e.finish.registers LoadReg = e.nextLoadReg := by
  simp [Executed.finish,delayedLoad,PCReg,NextPCReg,PrevPCReg,LoadReg,LoadValueReg]

theorem finish_overlay (hides : Hides hidden loadReg loadValue) (e : Executed)
    (pends : e.machine.Pends loadReg loadValue) :
    ({e with machine := e.machine.overlay hidden} : Executed).finish = e.finish := by
  simp only [Executed.finish]
  rw [hides.settles e.machine pends.1 pends.2]

-- Both ways of executing one instruction.
inductive Agrees (loose : Prop) : Except Stop Machine → Except Stop Machine → Prop where
  | stops (stop : Stop) : Agrees loose (.error stop) (.error stop)
  | ends {m m' : Machine} : Near loose m m' → Agrees loose (.ok m) (.ok m')

theorem finish_agrees (hides : Hides hidden loadReg loadValue)
    (transparent : Transparent loose hidden loadReg loadValue executed executed') :
    Agrees loose (executed >>= fun e => .ok e.finish) (executed' >>= fun e => .ok e.finish) := by
  cases transparent with
  | stops stop => exact .stops stop
  | @ends e value pends same =>
    refine .ends ?_
    have settled := finish_overlay hides {e with nextLoadValue := value} pends
    rcases same with rfl | ⟨free,zero⟩
    · exact .inl settled
    · refine .inr ⟨free,?_,value,?_⟩
      · rw [finish_loadReg,zero]
      · exact settled.trans (finish_value e value)

theorem Blind.kept (blind : Blind loose hidden m instr) (same : after.registers = m.registers) :
    Blind loose hidden after instr :=
  ⟨blind.reads,blind.writes,blind.fields,fun later kept => blind.merges later (kept.trans same)⟩

theorem one_agrees (hides : Hides hidden loadReg loadValue) (pends : m.Pends loadReg loadValue)
    (blind : ∀ raw after, m.readMem bigEndian (m.registers PCReg) 4 = .ok (raw,after) →
      Blind loose hidden m (.decode raw)) :
    Agrees loose (m.oneInstruction bigEndian) ((m.overlay hidden).oneInstruction bigEndian) := by
  have pc : (m.overlay hidden).registers PCReg = m.registers PCReg :=
    overlay_shows (hides.visible PCReg (by decide) (by decide) (by decide))
  unfold oneInstruction
  rw [pc]
  rcases readMem_overlay bigEndian hides pends (m.registers PCReg) 4 with ⟨stop,one,two⟩ | ⟨raw,after,one,two,kept⟩
  · rw [one,two]
    exact .stops stop
  · rw [one,two]
    exact finish_agrees hides (execute_transparent hides (pends.kept kept) ((blind raw after one).kept kept))

end Machine
end Nachos.Mips
