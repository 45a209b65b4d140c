import Nachos.Mips.Aborts

-- What the kernel finds when an instruction raises an exception.
namespace Nachos.Mips

-- The address that is put into BadVAddrReg once the instruction has been fetched.
def Instruction.accessed (instr : Instruction) (m : Machine) : BitVec 32 :=
  match instr.opCode with
  | .LB | .LBU | .LH | .LHU | .LW | .LWL | .LWR | .SB | .SH | .SW => m.registers instr.rs + instr.extra
  | .SWL | .SWR => (m.registers instr.rs + instr.extra) &&& ~~~3
  | _ => 0

namespace Machine
variable {m after entry : Machine} {instr : Instruction} {bigEndian : Bool} {which : ExceptionType} {addr value : BitVec 32}

-- The machine as ExceptionHandler finds it: nothing of the instruction has happened.
structure Precise (m entry : Machine) (badVAddr : BitVec 32) : Prop where
  registers : ∀ num, entry.registers num =
    if num = 0 ∨ num = LoadReg ∨ num = LoadValueReg then 0
    else if num = BadVAddrReg then badVAddr
    else if num = (m.registers LoadReg).toNat then m.registers LoadValueReg
    else m.registers num
  counters : entry.registers PCReg = m.registers PCReg ∧ entry.registers NextPCReg = m.registers NextPCReg ∧
    entry.registers PrevPCReg = m.registers PrevPCReg
  mainMemory : entry.mainMemory = m.mainMemory

theorem precise_raise (general : (m.registers LoadReg).toNat < NumGPRegs) (which : ExceptionType) (badVAddr : BitVec 32) :
    ∃ entry, m.raiseException which badVAddr = .raised which entry ∧ Precise m entry badVAddr := by
  have registers : ∀ num, ((m.set BadVAddrReg badVAddr).delayedLoad 0 0).registers num =
      if num = 0 ∨ num = LoadReg ∨ num = LoadValueReg then 0
      else if num = BadVAddrReg then badVAddr
      else if num = (m.registers LoadReg).toNat then m.registers LoadValueReg
      else m.registers num := by
    intro num
    simp only [delayedLoad,set_registers,Function.update_apply,LoadReg,LoadValueReg,BadVAddrReg,NumGPRegs] at *
    have apart : ¬39 = (m.registers 37).toNat := by omega
    by_cases zero : num = 0
    · simp [zero]
    · by_cases value : num = 38
      · simp [value]
      · by_cases load : num = 37
        · simp [load]
        · by_cases bad : num = 39
          · simp [bad,apart]
          · simp [zero,value,load,bad]
            rfl
  have counter : ∀ num, 34 ≤ num → num ≤ 36 → ((m.set BadVAddrReg badVAddr).delayedLoad 0 0).registers num = m.registers num := by
    intro num low high
    simp only [LoadReg,NumGPRegs] at general
    rw [registers,if_neg (by simp only [LoadReg,LoadValueReg]; omega),if_neg (by simp only [BadVAddrReg]; omega),
      if_neg (by simp only [LoadReg]; omega)]
  exact ⟨_,rfl,registers,⟨counter PCReg (by decide) (by decide),counter NextPCReg (by decide) (by decide),
    counter PrevPCReg (by decide) (by decide)⟩,rfl⟩

theorem Precise.alike (precise : Precise after entry addr) (alike : Alike m after)
    (memory : after.mainMemory = m.mainMemory) : Precise m entry addr := by
  obtain ⟨registers,counters,unchanged⟩ := precise
  rw [alike.registers] at registers counters
  exact ⟨registers,counters,unchanged.trans memory⟩

-- Whatever is raised, it is raised in front of any change.
def RaisesAt (m : Machine) (addr : BitVec 32) (result : Except Stop α) : Prop :=
  ∀ which entry, result = .error (.raised which entry) → Precise m entry addr

theorem raisesAt_ok (value : α) : RaisesAt m addr (.ok value : Except Stop α) := by
  intro which entry wrong
  cases wrong

theorem raisesAt_aborted (why : Abort) : RaisesAt m addr (.error (.aborted why) : Except Stop α) := by
  intro which entry wrong
  cases wrong

theorem raisesAt_raise (general : (m.registers LoadReg).toNat < NumGPRegs) (which : ExceptionType) (addr : BitVec 32) :
    RaisesAt m addr (.error (m.raiseException which addr) : Except Stop α) := by
  intro which' entry raised
  obtain ⟨entry',entered,precise⟩ := precise_raise general which addr
  rw [entered] at raised
  cases raised
  exact precise

theorem raisesAt_read (general : (m.registers LoadReg).toNat < NumGPRegs) (sizes : size = 1 ∨ size = 2 ∨ size = 4)
    (next : BitVec 32 × Machine → Except Stop α)
    (rest : ∀ value after, Alike m after → after.mainMemory = m.mainMemory → RaisesAt m addr (next (value,after))) :
    RaisesAt m addr (m.readMem bigEndian addr size >>= next) := by
  cases found : m.readMem bigEndian addr size with
  | ok pair =>
    obtain ⟨value,after⟩ := pair
    obtain ⟨alike,memory⟩ := readMem_found sizes found
    exact rest value after alike memory
  | error stop =>
    cases stop with
    | aborted why => exact raisesAt_aborted why
    | raised which entry =>
      rw [readMem_raised found]
      exact raisesAt_raise general which addr

theorem raisesAt_write (general : (m.registers LoadReg).toNat < NumGPRegs) (alike : Alike m after)
    (memory : after.mainMemory = m.mainMemory) (next : Machine → Except Stop α)
    (rest : ∀ stored, RaisesAt m addr (next stored)) :
    RaisesAt m addr (after.writeMem bigEndian addr size value >>= next) := by
  cases found : after.writeMem bigEndian addr size value with
  | ok stored => exact rest stored
  | error stop =>
    cases stop with
    | aborted why => exact raisesAt_aborted why
    | raised which entry =>
      rw [writeMem_raised found]
      intro which' entry' raised
      rw [← alike.registers] at general
      exact (raisesAt_raise general which addr which' entry' raised).alike alike memory

theorem alike_refl (m : Machine) : Alike m m := ⟨rfl,rfl,rfl⟩

theorem execute_precise (general : (m.registers LoadReg).toNat < NumGPRegs) (instr : Instruction) (bigEndian : Bool) :
    RaisesAt m (instr.accessed m) (m.execute bigEndian instr) := by
  cases code : instr.opCode with
  | LB | LBU =>
    simp only [execute,code,Instruction.accessed]
    exact raisesAt_read general (by decide) _ fun _ _ _ _ => raisesAt_ok _
  | LH | LHU | LW =>
    simp only [execute,code,Instruction.accessed]
    split
    · exact raisesAt_raise general _ _
    · exact raisesAt_read general (by decide) _ fun _ _ _ _ => raisesAt_ok _
  | LWL | LWR =>
    simp only [execute,code,Instruction.accessed]
    split
    · exact raisesAt_aborted _
    · exact raisesAt_read general (by decide) _ fun _ _ _ _ => raisesAt_ok _
  | SB | SH | SW =>
    simp only [execute,code,Instruction.accessed]
    exact raisesAt_write general (alike_refl m) rfl _ fun _ => raisesAt_ok _
  | SWL | SWR =>
    simp only [execute,code,Instruction.accessed]
    split
    · exact raisesAt_aborted _
    · refine raisesAt_read general (by decide) _ fun _ after alike memory => ?_
      exact raisesAt_write general alike memory _ fun _ => raisesAt_ok _
  | ADD | ADDI | SUB =>
    simp only [execute,code,Instruction.accessed]
    split
    · exact raisesAt_raise general _ _
    · exact raisesAt_ok _
  | SYSCALL | RES | UNIMP =>
    simp only [execute,code,Instruction.accessed]
    exact raisesAt_raise general _ _
  | DIV =>
    simp only [execute,code]
    split
    · exact raisesAt_ok _
    · split
      · exact raisesAt_aborted _
      · exact raisesAt_ok _
  | RFE | SPECIAL | BCOND =>
    simp only [execute,code]
    exact raisesAt_aborted _
  | BEQ | BNE | BGEZ | BGTZ | BLEZ | BLTZ | BGEZAL | BLTZAL | DIVU =>
    simp only [execute,code]
    split <;> exact raisesAt_ok _
  | _ =>
    simp only [execute,code]
    exact raisesAt_ok _

-- An exception of an instruction, at its fetch or later.
theorem exceptions_precise (general : (m.registers LoadReg).toNat < NumGPRegs)
    (raised : m.oneInstruction bigEndian = .error (.raised which entry)) :
    (m.readMem bigEndian (m.registers PCReg) 4 = .error (.raised which entry) ∧ Precise m entry (m.registers PCReg)) ∨
    ∃ raw after, m.readMem bigEndian (m.registers PCReg) 4 = .ok (raw,after) ∧
      Precise m entry ((Instruction.decode raw).accessed m) := by
  unfold oneInstruction at raised
  cases fetched : m.readMem bigEndian (m.registers PCReg) 4 with
  | error stop =>
    rw [fetched] at raised
    cases raised
    refine .inl ⟨rfl,?_⟩
    have fetch : RaisesAt m (m.registers PCReg)
        (m.readMem bigEndian (m.registers PCReg) 4 >>= fun pair => (.ok pair : Except Stop (BitVec 32 × Machine))) :=
      raisesAt_read general (by decide) _ fun _ _ _ _ => raisesAt_ok _
    exact fetch which entry (by rw [fetched]; rfl)
  | ok pair =>
    obtain ⟨raw,after⟩ := pair
    obtain ⟨alike,memory⟩ := readMem_found (by decide) fetched
    refine .inr ⟨raw,after,rfl,?_⟩
    rw [fetched] at raised
    have general' : (after.registers LoadReg).toNat < NumGPRegs := by rwa [alike.registers]
    have stopped : after.execute bigEndian (.decode raw) = .error (.raised which entry) := by
      cases executed : after.execute bigEndian (.decode raw) with
      | ok value => simp [executed,bind,Except.bind] at raised
      | error stop => simpa [executed,bind,Except.bind] using raised
    have precise := execute_precise general' (.decode raw) bigEndian which entry stopped
    have address : (Instruction.decode raw).accessed after = (Instruction.decode raw).accessed m := by
      simp only [Instruction.accessed,alike.registers]
    rw [address] at precise
    exact precise.alike alike memory

end Machine

-- lw r2,1(r0) with a load into r3 under way.
def loadingMachine : Machine :=
  loaded 0x8c020001 fun num => if num = LoadReg then 3 else if num = LoadValueReg then 7 else 0

theorem exceptions_precise_loading : ∃ entry raw after,
    loadingMachine.oneInstruction false = .error (.raised .AddressErrorException entry) ∧
      loadingMachine.readMem false (loadingMachine.registers PCReg) 4 = .ok (raw,after) ∧
      Machine.Precise loadingMachine entry ((Instruction.decode raw).accessed loadingMachine) := by
  have general : (loadingMachine.registers LoadReg).toNat < NumGPRegs := by decide
  have raises : ∃ entry, loadingMachine.oneInstruction false = .error (.raised .AddressErrorException entry) := ⟨_,rfl⟩
  have fetches : ∃ raw after, loadingMachine.readMem false (loadingMachine.registers PCReg) 4 = .ok (raw,after) := ⟨_,_,rfl⟩
  obtain ⟨entry,raised⟩ := raises
  obtain ⟨raw,after,fetched⟩ := fetches
  rcases Machine.exceptions_precise general raised with ⟨failed,_⟩ | ⟨raw',after',fetched',precise⟩
  · rw [fetched] at failed
    cases failed
  · exact ⟨entry,raw',after',raised,fetched',precise⟩

end Nachos.Mips
