import Mathlib.Algebra.Ring.Int.Defs
import Nachos.Mips.Delay

-- The results of the arithmetic, logical, shift and set instructions, against the
-- R2000 manual.
namespace Nachos.Mips

def registerCodes : List OpCode :=
  [.ADD,.ADDU,.SUB,.SUBU,.AND,.OR,.XOR,.NOR,.SLL,.SLLV,.SRL,.SRLV,.SRA,.SRAV,.SLT,.SLTU]

def immediateCodes : List OpCode := [.ADDI,.ADDIU,.ANDI,.ORI,.XORI,.LUI,.SLTI,.SLTIU]

-- The instruction set as the manual has it: fields of the word by their position,
-- numbers as integers, `none` for an overflow trap.
namespace Manual

def rs (word : BitVec 32) : Nat := (word.extractLsb' 21 5).toNat
def rt (word : BitVec 32) : Nat := (word.extractLsb' 16 5).toNat
def rd (word : BitVec 32) : Nat := (word.extractLsb' 11 5).toNat
def shamt (word : BitVec 32) : Nat := (word.extractLsb' 6 5).toNat
def immediate (word : BitVec 32) : BitVec 16 := word.extractLsb' 0 16

def trapping (exact : Int) : Option (BitVec 32) :=
  if -2 ^ 31 ≤ exact ∧ exact < 2 ^ 31 then some (BitVec.ofInt 32 exact) else none

def flag (holds : Bool) : BitVec 32 := if holds then 1 else 0

-- The result for register contents `s` and `t`.
def result (opCode : OpCode) (word s t : BitVec 32) : Option (BitVec 32) :=
  match opCode with
  | .ADD => trapping (s.toInt + t.toInt)
  | .ADDI => trapping (s.toInt + (immediate word).toInt)
  | .SUB => trapping (s.toInt - t.toInt)
  | .ADDU => some (BitVec.ofNat 32 (s.toNat + t.toNat))
  | .ADDIU => some (BitVec.ofInt 32 (s.toInt + (immediate word).toInt))
  | .SUBU => some (BitVec.ofInt 32 (s.toNat - t.toNat))
  | .AND => some (s &&& t)
  | .ANDI => some (s &&& (immediate word).zeroExtend 32)
  | .OR => some (s ||| t)
  | .ORI => some (s ||| (immediate word).zeroExtend 32)
  | .XOR => some (s ^^^ t)
  | .XORI => some (s ^^^ (immediate word).zeroExtend 32)
  | .NOR => some (~~~(s ||| t))
  | .LUI => some (immediate word ++ 0#16)
  | .SLL => some (t <<< shamt word)
  | .SLLV => some (t <<< (s.toNat % 32))
  | .SRL => some (t >>> shamt word)
  | .SRLV => some (t >>> (s.toNat % 32))
  | .SRA => some (t.sshiftRight (shamt word))
  | .SRAV => some (t.sshiftRight (s.toNat % 32))
  | .SLT => some (flag (s.toInt < t.toInt))
  | .SLTI => some (flag (s.toInt < (immediate word).toInt))
  | .SLTU => some (flag (s.toNat < t.toNat))
  | .SLTIU => some (flag (s.toNat < ((immediate word).signExtend 32).toNat))
  | _ => none

def destination (opCode : OpCode) (word : BitVec 32) : Nat :=
  if opCode ∈ registerCodes then rd word else rt word

end Manual

namespace Machine
variable (bigEndian : Bool)

-- The general registers, where `num` is to get the value.
def Receives (before : Nat → BitVec 32) (num : Nat) (value : BitVec 32) (after : Nat → BitVec 32) : Prop :=
  ∀ i < NumGPRegs, after i = if i = 0 then 0 else if i = num then value else before i

-- The instruction does what the manual says.
def Obeys (m : Machine) (opCode : OpCode) (word : BitVec 32) : Prop :=
  match Manual.result opCode word (m.registers (Manual.rs word)) (m.registers (Manual.rt word)) with
  | none => ∃ entry, m.oneInstruction bigEndian = .error (.raised .OverflowException entry) ∧
      ∀ i < NumGPRegs, entry.registers i = m.registers i
  | some value => ∃ after, m.oneInstruction bigEndian = .ok after ∧
      Receives m.registers (Manual.destination opCode word) value after.registers

end Machine

-- What the switch computes for these codes, and where it puts it.
def Instruction.computed (instr : Instruction) (s t : BitVec 32) : Option (BitVec 32) :=
  let extra := instr.extra
  match instr.opCode with
  | .ADD => if (s ^^^ t) &&& SIGN_BIT = 0 ∧ (s ^^^ (s + t)) &&& SIGN_BIT ≠ 0 then none else some (s + t)
  | .ADDI => if (s ^^^ extra) &&& SIGN_BIT = 0 ∧ (extra ^^^ (s + extra)) &&& SIGN_BIT ≠ 0 then none else some (s + extra)
  | .SUB => if (s ^^^ t) &&& SIGN_BIT ≠ 0 ∧ (s ^^^ (s - t)) &&& SIGN_BIT ≠ 0 then none else some (s - t)
  | .ADDIU => some (s + extra)
  | .ADDU => some (s + t)
  | .SUBU => some (s - t)
  | .AND => some (s &&& t)
  | .ANDI => some (s &&& (extra &&& 0xffff))
  | .OR => some (s ||| s)
  | .ORI => some (s ||| (extra &&& 0xffff))
  | .XOR => some (s ^^^ t)
  | .XORI => some (s ^^^ (extra &&& 0xffff))
  | .NOR => some (~~~(s ||| t))
  | .LUI => some (extra <<< 16)
  | .SLL => some (t <<< extra.toNat)
  | .SLLV => some (t <<< (s &&& 0x1f).toNat)
  | .SRA | .SRL => some (t.sshiftRight extra.toNat)
  | .SRAV | .SRLV => some (t.sshiftRight (s &&& 0x1f).toNat)
  | .SLT => some (if s.slt t then 1 else 0)
  | .SLTI => some (if s.slt extra then 1 else 0)
  | .SLTU => some (if s.ult t then 1 else 0)
  | .SLTIU => some (if s.ult extra then 1 else 0)
  | _ => none

def Instruction.target (instr : Instruction) : Nat :=
  if instr.opCode ∈ registerCodes then instr.rd else instr.rt

-- How the bits of the host relate to the numbers of the manual.
theorem sign_clear (a : BitVec 32) : a &&& SIGN_BIT = 0 ↔ a.msb = false := by
  rw [show SIGN_BIT = BitVec.twoPow 32 31 from rfl,BitVec.and_twoPow,BitVec.msb_eq_getLsbD_last]
  cases a.getLsbD 31 with
  | false => simp
  | true => decide

theorem low_five (word : BitVec 32) : (word &&& 0x1f).toNat = word.toNat % 32 := by
  rw [BitVec.toNat_and,show (0x1f : BitVec 32).toNat = 2 ^ 5 - 1 from rfl,Nat.and_two_pow_sub_one_eq_mod]

theorem field_five (word : BitVec 32) (start : Nat) :
    ((word >>> start) &&& 0x1f).toNat = (word.extractLsb' start 5).toNat := by
  rw [low_five,BitVec.extractLsb'_toNat,BitVec.toNat_ushiftRight]

theorem getLsbD_low (i : Nat) (bound : i < 32) : (0xffff : BitVec 32).getLsbD i = decide (i < 16) := by
  have all : ∀ i : Fin 32, (0xffff : BitVec 32).getLsbD i = decide (i.val < 16) := by decide
  exact all ⟨i,bound⟩

theorem getLsbD_high (i : Nat) (bound : i < 32) : (0xffff0000 : BitVec 32).getLsbD i = decide (16 ≤ i) := by
  have all : ∀ i : Fin 32, (0xffff0000 : BitVec 32).getLsbD i = decide (16 ≤ i.val) := by decide
  exact all ⟨i,bound⟩

theorem half_sign (word : BitVec 32) : (word &&& 0xffff) &&& 0x8000 = 0 ↔ word.getLsbD 15 = false := by
  rw [BitVec.and_assoc,show (0xffff : BitVec 32) &&& 0x8000 = BitVec.twoPow 32 15 from rfl,BitVec.and_twoPow]
  cases word.getLsbD 15 with
  | false => simp
  | true => decide

theorem sign_extended (word : BitVec 32) :
    (if (word &&& 0xffff) &&& 0x8000 ≠ 0 then word &&& 0xffff ||| 0xffff0000 else word &&& 0xffff) =
      (word.extractLsb' 0 16).signExtend 32 := by
  have msb : (word.extractLsb' 0 16).msb = word.getLsbD 15 := by
    simp [BitVec.msb_eq_getLsbD_last]
  apply BitVec.eq_of_getLsbD_eq
  intro i bound
  rw [BitVec.getLsbD_signExtend,msb]
  cases top : word.getLsbD 15 with
  | false =>
    rw [if_neg (by simpa using (half_sign word).mpr top)]
    simp only [BitVec.getLsbD_and,getLsbD_low i bound,BitVec.getLsbD_extractLsb']
    by_cases low : i < 16
    · simp [low,bound]
    · simp [low]
  | true =>
    rw [if_pos (fun clear => Bool.false_ne_true (((half_sign word).mp clear).symm.trans top))]
    simp only [BitVec.getLsbD_or,BitVec.getLsbD_and,getLsbD_low i bound,getLsbD_high i bound,BitVec.getLsbD_extractLsb']
    by_cases low : i < 16
    · simp [low,bound,show ¬16 ≤ i by omega]
    · simp [low,bound,show 16 ≤ i by omega]

theorem zero_extended (half : BitVec 16) : half.signExtend 32 &&& 0xffff = half.zeroExtend 32 := by
  apply BitVec.eq_of_getLsbD_eq
  intro i bound
  simp only [BitVec.getLsbD_and,BitVec.getLsbD_signExtend,getLsbD_low i bound,BitVec.truncate_eq_setWidth,BitVec.getLsbD_setWidth]
  by_cases low : i < 16
  · simp [low,bound]
  · simp [low,bound,BitVec.getLsbD_of_ge half i (by omega)]

theorem upper_half (half : BitVec 16) : half.signExtend 32 <<< 16 = half ++ 0#16 := by
  apply BitVec.eq_of_getLsbD_eq
  intro i bound
  simp only [BitVec.getLsbD_shiftLeft,BitVec.getLsbD_signExtend,BitVec.getLsbD_append]
  by_cases low : i < 16
  · simp [low]
  · have inside : i - 16 < 16 := by omega
    have small : i - 16 < 32 := by omega
    simp [low,bound,inside,small]

theorem add_traps (a b : BitVec 32) :
    ((a ^^^ b).msb = false ∧ (a ^^^ (a + b)).msb = true) ↔ ¬(-2 ^ 31 ≤ a.toInt + b.toInt ∧ a.toInt + b.toInt < 2 ^ 31) := by
  have overflow := BitVec.saddOverflow_eq a b
  have exact : a.saddOverflow b = true ↔ ¬(-2 ^ 31 ≤ a.toInt + b.toInt ∧ a.toInt + b.toInt < 2 ^ 31) := by
    simp [BitVec.saddOverflow]
    omega
  rw [← exact,overflow,BitVec.msb_xor,BitVec.msb_xor]
  cases a.msb <;> cases b.msb <;> cases (a + b).msb <;> decide

theorem sub_traps (a b : BitVec 32) :
    ((a ^^^ b).msb = true ∧ (a ^^^ (a - b)).msb = true) ↔ ¬(-2 ^ 31 ≤ a.toInt - b.toInt ∧ a.toInt - b.toInt < 2 ^ 31) := by
  have overflow := BitVec.ssubOverflow_eq a b
  have exact : a.ssubOverflow b = true ↔ ¬(-2 ^ 31 ≤ a.toInt - b.toInt ∧ a.toInt - b.toInt < 2 ^ 31) := by
    simp [BitVec.ssubOverflow]
    omega
  rw [← exact,overflow,BitVec.msb_xor,BitVec.msb_xor]
  cases a.msb <;> cases b.msb <;> cases (a - b).msb <;> decide

-- Decode takes the shift amount or the sign-extended half, as the code needs.
theorem decode_extra (raw : BitVec 32) :
    ((Instruction.decode raw).opCode ∈ registerCodes → (Instruction.decode raw).extra = (raw >>> 6) &&& 0x1f) ∧
    ((Instruction.decode raw).opCode ∈ immediateCodes →
      (Instruction.decode raw).extra = (Manual.immediate raw).signExtend 32) := by
  have formats : ∀ entry ∈ opTable, (entry.1 = .SPECIAL → entry.2 = .RFMT) ∧ entry.1 ∉ registerCodes ∧
      (entry.1 ∈ immediateCodes → entry.2 = .IFMT) := by decide
  have special : ∀ code ∈ specialTable, code ∉ immediateCodes := by decide
  have found : opTable.getD ((raw >>> 26) &&& 0x3f).toNat (.RES,.IFMT) ∈ opTable := by
    rcases getD_mem opTable ((raw >>> 26) &&& 0x3f).toNat (.RES,.IFMT) with member | default
    · exact member
    · rw [default]
      decide
  have listed : specialTable.getD (raw &&& 0x3f).toNat .RES ∉ immediateCodes := by
    rcases getD_mem specialTable (raw &&& 0x3f).toNat .RES with member | default
    · exact special _ member
    · rw [default]
      decide
  unfold Instruction.decode
  generalize opTable.getD ((raw >>> 26) &&& 0x3f).toNat (.RES,.IFMT) = entry at found
  obtain ⟨shifts,other,halves⟩ := formats entry found
  obtain ⟨opCode,format⟩ := entry
  dsimp only at shifts other halves ⊢
  cases opCode with
  | SPECIAL =>
    obtain rfl := shifts rfl
    exact ⟨fun _ => rfl,fun wrong => (listed wrong).elim⟩
  | BCOND =>
    dsimp only
    have branch : ∀ i : BitVec 32, (if i = 0 then OpCode.BLTZ else if i = 0x10000 then .BGEZ
        else if i = 0x100000 then .BLTZAL else if i = 0x110000 then .BGEZAL else .UNIMP) ∉
        registerCodes ++ immediateCodes := by
      intro i
      split
      · decide
      · split
        · decide
        · split
          · decide
          · split <;> decide
    have none := branch (raw &&& 0x1f0000)
    rw [List.mem_append,not_or] at none
    exact ⟨fun wrong => (none.1 wrong).elim,fun wrong => (none.2 wrong).elim⟩
  | _ =>
    refine ⟨fun wrong => (other wrong).elim,fun member => ?_⟩
    obtain rfl := halves member
    exact sign_extended raw

namespace Machine
variable {m middle : Machine} {bigEndian : Bool} {instr : Instruction} {raw s t : BitVec 32}

def deliver (m : Machine) (instr : Instruction) : Option (BitVec 32) → Except Stop Executed
  | none => .error (m.raiseException .OverflowException 0)
  | some value => .ok ⟨m.set instr.target value,m.registers NextPCReg + 4,0,0⟩

theorem deliver_if (m : Machine) (instr : Instruction) (traps : Prop) [Decidable traps] (value : BitVec 32)
    (target : instr.target = num) :
    m.deliver instr (if traps then none else some value) =
      if traps then .error (m.raiseException .OverflowException 0)
      else .ok ⟨m.set num value,m.registers NextPCReg + 4,0,0⟩ := by
  subst target
  split <;> rfl

theorem execute_computed (arithmetic : instr.opCode ∈ registerCodes ∨ instr.opCode ∈ immediateCodes) :
    m.execute bigEndian instr =
      m.deliver instr (instr.computed (m.registers instr.rs) (m.registers instr.rt)) := by
  cases code : instr.opCode with
  | ADD | SUB | ADDI =>
    simp only [execute,Instruction.computed,code]
    rw [deliver_if]
    simp [Instruction.target,code,registerCodes]
  | ADDU | SUBU | AND | OR | XOR | NOR | SLL | SLLV | SRL | SRLV | SRA | SRAV | SLT | SLTU =>
    simp [execute,Instruction.computed,deliver,Instruction.target,code,registerCodes]
  | ADDIU | ANDI | ORI | XORI | LUI | SLTI | SLTIU =>
    simp [execute,Instruction.computed,deliver,Instruction.target,code,registerCodes]
  | _ => simp [code,registerCodes,immediateCodes] at arithmetic

theorem decode_manual (raw : BitVec 32) :
    (Instruction.decode raw).rs = Manual.rs raw ∧ (Instruction.decode raw).rt = Manual.rt raw ∧
      (Instruction.decode raw).target = Manual.destination (Instruction.decode raw).opCode raw := by
  refine ⟨field_five raw 21,field_five raw 16,?_⟩
  unfold Instruction.target Manual.destination
  rw [show (Instruction.decode raw).rd = Manual.rd raw from field_five raw 11,
    show (Instruction.decode raw).rt = Manual.rt raw from field_five raw 16]

theorem add_trapping (a b : BitVec 32) :
    (if (a ^^^ b) &&& SIGN_BIT = 0 ∧ (a ^^^ (a + b)) &&& SIGN_BIT ≠ 0 then none else some (a + b)) =
      Manual.trapping (a.toInt + b.toInt) := by
  have same := add_traps a b
  rw [← sign_clear,← Bool.not_eq_false,← sign_clear] at same
  unfold Manual.trapping
  rw [BitVec.ofInt_add,BitVec.ofInt_toInt,BitVec.ofInt_toInt]
  by_cases fits : -2 ^ 31 ≤ a.toInt + b.toInt ∧ a.toInt + b.toInt < 2 ^ 31
  · rw [if_pos fits,if_neg (fun traps => same.mp traps fits)]
  · rw [if_neg fits,if_pos (same.mpr fits)]

theorem sub_trapping (a b : BitVec 32) :
    (if (a ^^^ b) &&& SIGN_BIT ≠ 0 ∧ (a ^^^ (a - b)) &&& SIGN_BIT ≠ 0 then none else some (a - b)) =
      Manual.trapping (a.toInt - b.toInt) := by
  have same := sub_traps a b
  rw [← Bool.not_eq_false,← sign_clear,← Bool.not_eq_false,← sign_clear] at same
  have value : BitVec.ofInt 32 (a.toInt - b.toInt) = a - b := by
    rw [← BitVec.toInt_inj,BitVec.toInt_ofInt,BitVec.toInt_sub]
  unfold Manual.trapping
  rw [value]
  by_cases fits : -2 ^ 31 ≤ a.toInt - b.toInt ∧ a.toInt - b.toInt < 2 ^ 31
  · rw [if_pos fits,if_neg (fun traps => same.mp traps fits)]
  · rw [if_neg fits,if_pos (same.mpr fits)]

theorem half_toInt (half : BitVec 16) : (half.signExtend 32).toInt = half.toInt := by
  rw [BitVec.toInt_signExtend]
  have low := half.le_toInt
  have high := half.toInt_lt
  exact Int.bmod_eq_of_le (by simp at *; omega) (by simp at *; omega)

-- All the codes but three.
theorem computed_manual (arithmetic : (Instruction.decode raw).opCode ∈ registerCodes ∨
      (Instruction.decode raw).opCode ∈ immediateCodes)
    (others : (Instruction.decode raw).opCode ∉ [OpCode.OR,OpCode.SRL,OpCode.SRLV]) :
    (Instruction.decode raw).computed s t = Manual.result (Instruction.decode raw).opCode raw s t := by
  obtain ⟨shifts,halves⟩ := decode_extra raw
  generalize Instruction.decode raw = instr at *
  cases code : instr.opCode with
  | ADD =>
    simp only [Instruction.computed,code,Manual.result]
    exact add_trapping s t
  | SUB =>
    simp only [Instruction.computed,code,Manual.result]
    exact sub_trapping s t
  | ADDI =>
    -- The source compares the sum with the other operand.
    have extra := halves (by simp [code,immediateCodes])
    have swapped := add_trapping ((Manual.immediate raw).signExtend 32) s
    rw [BitVec.xor_comm _ s,BitVec.add_comm _ s,Int.add_comm,half_toInt] at swapped
    simp only [Instruction.computed,code,Manual.result,extra]
    exact swapped
  | ADDU =>
    simp only [Instruction.computed,code,Manual.result]
    rw [BitVec.ofNat_add,BitVec.ofNat_toNat,BitVec.ofNat_toNat,BitVec.setWidth_eq,BitVec.setWidth_eq]
  | ADDIU =>
    have extra := halves (by simp [code,immediateCodes])
    simp only [Instruction.computed,code,Manual.result,extra]
    rw [← half_toInt,BitVec.ofInt_add,BitVec.ofInt_toInt,BitVec.ofInt_toInt]
  | SUBU =>
    simp only [Instruction.computed,code,Manual.result]
    rw [Int.sub_eq_add_neg,BitVec.ofInt_add,BitVec.ofInt_neg,BitVec.ofInt_natCast,BitVec.ofInt_natCast,
      BitVec.ofNat_toNat,BitVec.ofNat_toNat,BitVec.setWidth_eq,BitVec.setWidth_eq,BitVec.sub_eq_add_neg]
  | AND | XOR | NOR => simp only [Instruction.computed,code,Manual.result]
  | ANDI | ORI | XORI =>
    have extra := halves (by simp [code,immediateCodes])
    simp only [Instruction.computed,code,Manual.result,extra,zero_extended]
  | LUI =>
    have extra := halves (by simp [code,immediateCodes])
    simp only [Instruction.computed,code,Manual.result,extra,upper_half]
  | SLL | SRA =>
    have extra := shifts (by simp [code,registerCodes])
    simp only [Instruction.computed,code,Manual.result,extra,field_five,Manual.shamt]
  | SLLV | SRAV => simp only [Instruction.computed,code,Manual.result,low_five]
  | SLT => simp only [Instruction.computed,code,Manual.result,Manual.flag,BitVec.slt]
  | SLTU => simp only [Instruction.computed,code,Manual.result,Manual.flag,BitVec.ult]
  | SLTI =>
    have extra := halves (by simp [code,immediateCodes])
    simp only [Instruction.computed,code,Manual.result,extra,Manual.flag,BitVec.slt,half_toInt]
  | SLTIU =>
    have extra := halves (by simp [code,immediateCodes])
    simp only [Instruction.computed,code,Manual.result,extra,Manual.flag,BitVec.ult]
  | OR | SRL | SRLV => simp [code] at others
  | _ => simp [code,registerCodes,immediateCodes] at arithmetic

theorem readMem_registers (found : m.readMem bigEndian addr size = .ok (value,after)) : after.registers = m.registers := by
  unfold readMem at found
  split at found
  · cases found
  · cases found
  · rename_i physAddr middle translated
    split at found
    · cases found
    · cases found
      exact translate_registers translated

theorem raise_receives (idle : m.registers LoadReg = 0) (base : m.registers 0 = 0) (i : Nat) (bound : i < NumGPRegs) :
    ((m.set BadVAddrReg 0).delayedLoad 0 0).registers i = m.registers i := by
  obtain ⟨one,two⟩ := general_register bound
  have three : i ≠ BadVAddrReg := by
    simp only [NumGPRegs,BadVAddrReg] at *
    omega
  have pending : (m.set BadVAddrReg 0).registers LoadReg = 0 := by
    simp [LoadReg,BadVAddrReg] at idle ⊢
    exact idle
  simp only [delayedLoad,pending,set_registers,Function.update_apply]
  by_cases first : i = 0
  · simp [first,base]
  · simp [first,one,two,three]

theorem finish_receives (idle : m.registers LoadReg = 0) (target : num < NumGPRegs) (value pcAfter : BitVec 32) :
    Receives m.registers num value (Executed.finish ⟨m.set num value,pcAfter,0,0⟩).registers := by
  intro i bound
  obtain ⟨one,two⟩ := general_register bound
  obtain ⟨three,four⟩ := general_register target
  have specials : i ≠ PCReg ∧ i ≠ NextPCReg ∧ i ≠ PrevPCReg := by
    simp only [NumGPRegs,PCReg,NextPCReg,PrevPCReg] at *
    omega
  have pending : (m.set num value).registers LoadReg = 0 := by
    simp [Ne.symm three,idle]
  simp only [Executed.finish,delayedLoad,pending,set_registers,Function.update_apply]
  simp only [specials,one,two,if_false]
  by_cases first : i = 0
  · simp [first]
  · simp [first]

-- An instruction of these, as far as the manual is concerned.
theorem obeys_iff (idle : m.registers LoadReg = 0)
    (fetched : m.readMem bigEndian (m.registers PCReg) 4 = .ok (raw,middle))
    (arithmetic : (Instruction.decode raw).opCode ∈ registerCodes ∨ (Instruction.decode raw).opCode ∈ immediateCodes)
    (computed : (Instruction.decode raw).computed (m.registers (Manual.rs raw)) (m.registers (Manual.rt raw)) = some got)
    (result : Manual.result (Instruction.decode raw).opCode raw (m.registers (Manual.rs raw)) (m.registers (Manual.rt raw)) =
      some wanted) :
    m.Obeys bigEndian (Instruction.decode raw).opCode raw ↔
      Manual.destination (Instruction.decode raw).opCode raw = 0 ∨ got = wanted := by
  obtain ⟨rs,rt,target⟩ := decode_manual raw
  have bound : Manual.destination (Instruction.decode raw).opCode raw < NumGPRegs := by
    unfold Manual.destination
    split <;> exact BitVec.isLt _
  have same := readMem_registers fetched
  have executed : m.oneInstruction bigEndian =
      .ok (Executed.finish ⟨middle.set (Manual.destination (Instruction.decode raw).opCode raw) got,
        m.registers NextPCReg + 4,0,0⟩) := by
    unfold oneInstruction
    rw [fetched]
    change (middle.execute bigEndian (.decode raw) >>= fun e => .ok e.finish) = _
    rw [execute_computed arithmetic,same,rs,rt,computed,← target,← same]
    rfl
  have receives := finish_receives (same ▸ idle) bound got (m.registers NextPCReg + 4)
  rw [same] at receives
  unfold Obeys
  rw [result,executed]
  constructor
  · rintro ⟨after,ends,wants⟩
    cases ends
    by_cases zero : Manual.destination (Instruction.decode raw).opCode raw = 0
    · exact .inl zero
    · right
      have one := receives _ bound
      have two := wants _ bound
      rw [one] at two
      simpa [zero] using two
  · rintro (zero | rfl)
    · refine ⟨_,rfl,?_⟩
      intro i inside
      rw [receives i inside,zero]
      by_cases first : i = 0
      · simp [first]
      · simp [first]
    · exact ⟨_,rfl,receives⟩

theorem obeys_same (base : m.registers 0 = 0) (idle : m.registers LoadReg = 0)
    (fetched : m.readMem bigEndian (m.registers PCReg) 4 = .ok (raw,middle))
    (arithmetic : (Instruction.decode raw).opCode ∈ registerCodes ∨ (Instruction.decode raw).opCode ∈ immediateCodes)
    (same : (Instruction.decode raw).computed (m.registers (Manual.rs raw)) (m.registers (Manual.rt raw)) =
      Manual.result (Instruction.decode raw).opCode raw (m.registers (Manual.rs raw)) (m.registers (Manual.rt raw))) :
    m.Obeys bigEndian (Instruction.decode raw).opCode raw := by
  cases result : Manual.result (Instruction.decode raw).opCode raw (m.registers (Manual.rs raw)) (m.registers (Manual.rt raw)) with
  | some value => exact (obeys_iff idle fetched arithmetic (same.trans result) result).mpr (.inr rfl)
  | none =>
    obtain ⟨rs,rt,_⟩ := decode_manual raw
    have kept := readMem_registers fetched
    unfold Obeys
    rw [result]
    refine ⟨(middle.set BadVAddrReg 0).delayedLoad 0 0,?_,?_⟩
    · unfold oneInstruction
      rw [fetched]
      change (middle.execute bigEndian (.decode raw) >>= fun e => .ok e.finish) = _
      rw [execute_computed arithmetic,kept,rs,rt,same.trans result]
      rfl
    · intro i bound
      rw [raise_receives (kept ▸ idle) (kept ▸ base) i bound,kept]

-- The states in which the three codes that compute something else do not show it.
def Spared (m : Machine) (opCode : OpCode) (word : BitVec 32) : Prop :=
  match opCode with
  | .OR => Manual.rd word = 0 ∨ m.registers (Manual.rt word) &&& ~~~(m.registers (Manual.rs word)) = 0
  | .SRL => Manual.rd word = 0 ∨ Manual.shamt word = 0 ∨ (m.registers (Manual.rt word)).msb = false
  | .SRLV =>
    Manual.rd word = 0 ∨ (m.registers (Manual.rs word)).toNat % 32 = 0 ∨ (m.registers (Manual.rt word)).msb = false
  | _ => True

theorem or_same (a b : BitVec 32) : a ||| a = a ||| b ↔ b &&& ~~~a = 0 := by
  constructor
  · intro same
    apply BitVec.eq_of_getLsbD_eq
    intro i bound
    have bit := congrArg (fun word => word.getLsbD i) same
    simp only [BitVec.getLsbD_or] at bit
    simp only [BitVec.getLsbD_and,BitVec.getLsbD_not]
    revert bit
    cases a.getLsbD i <;> cases b.getLsbD i <;> simp
  · intro clear
    apply BitVec.eq_of_getLsbD_eq
    intro i bound
    have bit := congrArg (fun word => word.getLsbD i) clear
    simp only [BitVec.getLsbD_and,BitVec.getLsbD_not,bound] at bit
    simp only [BitVec.getLsbD_or]
    revert bit
    cases a.getLsbD i <;> cases b.getLsbD i <;> simp

theorem shift_same (a : BitVec 32) (amount : Nat) :
    a.sshiftRight amount = a >>> amount ↔ amount = 0 ∨ a.msb = false := by
  constructor
  · intro same
    by_cases zero : amount = 0
    · exact .inl zero
    · right
      have top := congrArg BitVec.msb same
      rw [BitVec.msb_sshiftRight,BitVec.msb_ushiftRight] at top
      simpa [zero] using top
  · rintro (rfl | clear)
    · simp
    · exact BitVec.sshiftRight_eq_of_msb_false clear

-- OR takes its first operand twice, and the two logical right shifts are made on an
-- int. All else is as in the manual.
theorem arithmetic_as_manual (base : m.registers 0 = 0) (idle : m.registers LoadReg = 0)
    (fetched : m.readMem bigEndian (m.registers PCReg) 4 = .ok (raw,middle))
    (arithmetic : (Instruction.decode raw).opCode ∈ registerCodes ∨ (Instruction.decode raw).opCode ∈ immediateCodes) :
    m.Obeys bigEndian (Instruction.decode raw).opCode raw ↔ m.Spared (Instruction.decode raw).opCode raw := by
  have general : ∀ got wanted,
      (Instruction.decode raw).computed (m.registers (Manual.rs raw)) (m.registers (Manual.rt raw)) = some got →
      Manual.result (Instruction.decode raw).opCode raw (m.registers (Manual.rs raw)) (m.registers (Manual.rt raw)) =
        some wanted →
      (m.Obeys bigEndian (Instruction.decode raw).opCode raw ↔
        Manual.destination (Instruction.decode raw).opCode raw = 0 ∨ got = wanted) :=
    fun got wanted computed result => obeys_iff idle fetched arithmetic computed result
  have shifts := (decode_extra raw).1
  by_cases others : (Instruction.decode raw).opCode ∉ [OpCode.OR,OpCode.SRL,OpCode.SRLV]
  · refine iff_of_true (obeys_same base idle fetched arithmetic (computed_manual arithmetic others)) ?_
    unfold Spared
    split <;> simp_all
  · generalize Instruction.decode raw = instr at *
    cases code : instr.opCode with
    | OR =>
      rw [code] at general
      rw [general _ _ (by simp only [Instruction.computed,code]; rfl) rfl]
      simp only [Manual.destination,Spared,or_same]
      rfl
    | SRL =>
      have extra := shifts (by simp [code,registerCodes])
      rw [code] at general
      rw [general _ _ (by simp only [Instruction.computed,code,extra,field_five]; rfl) rfl]
      simp only [Manual.destination,Spared,Manual.shamt,shift_same]
      rfl
    | SRLV =>
      rw [code] at general
      rw [general _ _ (by simp only [Instruction.computed,code,low_five]; rfl) rfl]
      simp only [Manual.destination,Spared,shift_same]
      rfl
    | _ => simp [code] at others

end Machine

-- Given contents of r1 and r2.
def operands (one two : BitVec 32) : Nat → BitVec 32
  | 1 => one
  | 2 => two
  | _ => 0

-- or r3,r1,r2 leaves 0 for 0 and 1; srl r3,r2,1 keeps the sign.
theorem arithmetic_differs :
    ((loaded 0x00221825 (operands 0 1)).registers 0 = 0 ∧ (loaded 0x00221825 (operands 0 1)).registers LoadReg = 0 ∧
      ((loaded 0x00221825 (operands 0 1)).readMem false ((loaded 0x00221825 (operands 0 1)).registers PCReg) 4).map
        Prod.fst = .ok 0x00221825 ∧
      (Instruction.decode 0x00221825).opCode = .OR ∧ ¬(loaded 0x00221825 (operands 0 1)).Obeys false .OR 0x00221825) ∧
    (Instruction.decode 0x00021842).opCode = .SRL ∧
      ¬(loaded 0x00021842 (operands 0 0x80000000)).Obeys false .SRL 0x00021842 := by
  refine ⟨⟨rfl,rfl,rfl,by decide,?_⟩,by decide,?_⟩
  · rintro ⟨after,ends,receives⟩
    have value : ((loaded 0x00221825 (operands 0 1)).oneInstruction false).map (fun m => m.registers 3) = .ok 0 := rfl
    rw [ends] at value
    have wanted : after.registers 3 = 1 := receives 3 (by decide)
    cases value.symm.trans (congrArg Except.ok wanted)
  · rintro ⟨after,ends,receives⟩
    have value : ((loaded 0x00021842 (operands 0 0x80000000)).oneInstruction false).map (fun m => m.registers 3) =
        .ok 0xc0000000 := rfl
    rw [ends] at value
    have wanted : after.registers 3 = 0x40000000 := receives 3 (by decide)
    cases value.symm.trans (congrArg Except.ok wanted)

-- or r3,r1,r2 with every bit of r2 in r1.
theorem arithmetic_as_manual_or : (loaded 0x00221825 (operands 3 1)).Obeys false .OR 0x00221825 := by
  have fetched : (loaded 0x00221825 (operands 3 1)).readMem false ((loaded 0x00221825 (operands 3 1)).registers PCReg) 4 =
      .ok (0x00221825,{loaded 0x00221825 (operands 3 1) with pageTable := some [⟨0,0,true,false,true,false⟩]}) := rfl
  have code : (Instruction.decode 0x00221825).opCode = .OR := by decide
  have obeys := Machine.arithmetic_as_manual rfl rfl fetched (.inl (by decide))
  rw [code] at obeys
  exact obeys.mpr (.inr (by decide))

end Nachos.Mips
