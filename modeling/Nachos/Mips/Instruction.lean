import Nachos.Mips.Memory

-- The interpreter of mipssim.cc.
namespace Nachos.Mips

inductive OpCode where
  | ADD | ADDI | ADDIU | ADDU | AND | ANDI | BEQ | BGEZ | BGEZAL | BGTZ | BLEZ | BLTZ | BLTZAL | BNE
  | DIV | DIVU | J | JAL | JALR | JR | LB | LBU | LH | LHU | LUI | LW | LWL | LWR | MFHI | MFLO | MTHI | MTLO
  | MULT | MULTU | NOR | OR | ORI | RFE | SB | SH | SLL | SLLV | SLT | SLTI | SLTIU | SLTU | SRA | SRAV | SRL | SRLV
  | SUB | SUBU | SW | SWL | SWR | XOR | XORI | SYSCALL | UNIMP | RES | SPECIAL | BCOND
  deriving DecidableEq, Repr

inductive Format where
  | IFMT
  | JFMT
  | RFMT
  deriving DecidableEq, Repr

def opTable : List (OpCode × Format) :=
  [(.SPECIAL,.RFMT),(.BCOND,.IFMT),(.J,.JFMT),(.JAL,.JFMT),
    (.BEQ,.IFMT),(.BNE,.IFMT),(.BLEZ,.IFMT),(.BGTZ,.IFMT),
    (.ADDI,.IFMT),(.ADDIU,.IFMT),(.SLTI,.IFMT),(.SLTIU,.IFMT),
    (.ANDI,.IFMT),(.ORI,.IFMT),(.XORI,.IFMT),(.LUI,.IFMT),
    (.UNIMP,.IFMT),(.UNIMP,.IFMT),(.UNIMP,.IFMT),(.UNIMP,.IFMT),
    (.RES,.IFMT),(.RES,.IFMT),(.RES,.IFMT),(.RES,.IFMT),
    (.RES,.IFMT),(.RES,.IFMT),(.RES,.IFMT),(.RES,.IFMT),
    (.RES,.IFMT),(.RES,.IFMT),(.RES,.IFMT),(.RES,.IFMT),
    (.LB,.IFMT),(.LH,.IFMT),(.LWL,.IFMT),(.LW,.IFMT),
    (.LBU,.IFMT),(.LHU,.IFMT),(.LWR,.IFMT),(.RES,.IFMT),
    (.SB,.IFMT),(.SH,.IFMT),(.SWL,.IFMT),(.SW,.IFMT),
    (.RES,.IFMT),(.RES,.IFMT),(.SWR,.IFMT),(.RES,.IFMT),
    (.UNIMP,.IFMT),(.UNIMP,.IFMT),(.UNIMP,.IFMT),(.UNIMP,.IFMT),
    (.RES,.IFMT),(.RES,.IFMT),(.RES,.IFMT),(.RES,.IFMT),
    (.UNIMP,.IFMT),(.UNIMP,.IFMT),(.UNIMP,.IFMT),(.UNIMP,.IFMT),
    (.RES,.IFMT),(.RES,.IFMT),(.RES,.IFMT),(.RES,.IFMT)]

def specialTable : List OpCode :=
  [.SLL,.RES,.SRL,.SRA,.SLLV,.RES,.SRLV,.SRAV,
    .JR,.JALR,.RES,.RES,.SYSCALL,.UNIMP,.RES,.RES,
    .MFHI,.MTHI,.MFLO,.MTLO,.RES,.RES,.RES,.RES,
    .MULT,.MULTU,.DIV,.DIVU,.RES,.RES,.RES,.RES,
    .ADD,.ADDU,.SUB,.SUBU,.AND,.OR,.XOR,.NOR,
    .RES,.RES,.SLT,.SLTU,.RES,.RES,.RES,.RES,
    .RES,.RES,.RES,.RES,.RES,.RES,.RES,.RES,
    .RES,.RES,.RES,.RES,.RES,.RES,.RES,.RES]

structure Instruction where
  value : BitVec 32
  opCode : OpCode
  rs : Nat
  rt : Nat
  rd : Nat
  extra : BitVec 32
  deriving DecidableEq, Repr

def Instruction.decode (value : BitVec 32) : Instruction :=
  let rs := ((value >>> 21) &&& 0x1f).toNat
  let rt := ((value >>> 16) &&& 0x1f).toNat
  let rd := ((value >>> 11) &&& 0x1f).toNat
  let (opCode,format) := opTable.getD ((value >>> 26) &&& 0x3f).toNat (.RES,.IFMT)
  let extra := match format with
    | .IFMT =>
      let extra := value &&& 0xffff
      if extra &&& 0x8000 ≠ 0 then extra ||| 0xffff0000 else extra
    | .RFMT => (value >>> 6) &&& 0x1f
    | .JFMT => value &&& 0x3ffffff
  let opCode := match opCode with
    | .SPECIAL => specialTable.getD (value &&& 0x3f).toNat .RES
    | .BCOND =>
      let i := value &&& 0x1f0000
      if i = 0 then .BLTZ
      else if i = 0x10000 then .BGEZ
      else if i = 0x100000 then .BLTZAL
      else if i = 0x110000 then .BGEZAL
      else .UNIMP
    | opCode => opCode
  ⟨value,opCode,rs,rt,rd,extra⟩

def IndexToAddr (x : BitVec 32) : BitVec 32 := x <<< 2
def SIGN_BIT : BitVec 32 := 0x80000000
def R31 : Nat := 31

-- The loop of Mult: the bits of `a` from the lowest on, at most `left` of them.
def multLoop (a bLo bHi lo hi : BitVec 32) : Nat → BitVec 32 × BitVec 32
  | 0 => (hi,lo)
  | left + 1 =>
    if a &&& 1 ≠ 0 then
      let lo := lo + bLo
      let hi := if lo < bLo then hi + 1 else hi
      let hi := hi + bHi
      if a &&& 0xfffffffe = 0 then (hi,lo)
      else
        multLoop (a.sshiftRight 1) (bLo <<< 1) (if bLo &&& 0x80000000 ≠ 0 then bHi <<< 1 ||| 1 else bHi <<< 1) lo hi left
    else
      multLoop (a.sshiftRight 1) (bLo <<< 1) (if bLo &&& 0x80000000 ≠ 0 then bHi <<< 1 ||| 1 else bHi <<< 1) lo hi left

-- The words for *hiPtr and *loPtr.
def mult (a b : BitVec 32) (signedArith : Bool) : BitVec 32 × BitVec 32 :=
  if a = 0 ∨ b = 0 then (0,0)
  else
    let negative := signedArith && (a.slt 0 ^^ b.slt 0)
    let a := if signedArith && a.slt 0 then -a else a
    let b := if signedArith && b.slt 0 then -b else b
    let (hi,lo) := multLoop a b 0 0 0 32
    if negative then
      let hi := ~~~hi
      let lo := ~~~lo + 1
      if lo = 0 then (hi + 1,lo) else (hi,lo)
    else (hi,lo)

-- Where the switch of OneInstruction leaves the machine and its local variables.
structure Executed where
  machine : Machine
  pcAfter : BitVec 32
  nextLoadReg : BitVec 32
  nextLoadValue : BitVec 32

-- What follows the switch: the delayed load and the program counters.
def Executed.finish (executed : Executed) : Machine :=
  let m := executed.machine.delayedLoad executed.nextLoadReg executed.nextLoadValue
  let m := m.set PrevPCReg (m.registers PCReg)
  let m := m.set PCReg (m.registers NextPCReg)
  m.set NextPCReg executed.pcAfter

namespace Machine
variable (bigEndian : Bool)

-- The merging that LWL and LWR do with what the target register holds or is about to.
def pendingValue (m : Machine) (instr : Instruction) : BitVec 32 :=
  if m.registers LoadReg = BitVec.ofNat 32 instr.rt then m.registers LoadValueReg else m.registers instr.rt

def lwl (place : BitVec 32) (nextLoadValue value : BitVec 32) : BitVec 32 :=
  if place = 0 then value
  else if place = 1 then (nextLoadValue &&& 0xff) ||| (value <<< 8)
  else if place = 2 then (nextLoadValue &&& 0xffff) ||| (value <<< 16)
  else (nextLoadValue &&& 0xffffff) ||| (value <<< 24)

def lwr (place : BitVec 32) (nextLoadValue value : BitVec 32) : BitVec 32 :=
  if place = 0 then (nextLoadValue &&& 0xffffff00) ||| ((value.sshiftRight 24) &&& 0xff)
  else if place = 1 then (nextLoadValue &&& 0xffff0000) ||| ((value.sshiftRight 16) &&& 0xffff)
  else if place = 2 then (nextLoadValue &&& 0xff000000) ||| ((value.sshiftRight 8) &&& 0xffffff)
  else value

def swl (place : BitVec 32) (register value : BitVec 32) : BitVec 32 :=
  if place = 0 then register
  else if place = 1 then (value &&& 0xff000000) ||| ((register.sshiftRight 8) &&& 0xffffff)
  else if place = 2 then (value &&& 0xffff0000) ||| ((register.sshiftRight 16) &&& 0xffff)
  else (value &&& 0xffffff00) ||| ((register.sshiftRight 24) &&& 0xff)

def swr (place : BitVec 32) (register value : BitVec 32) : BitVec 32 :=
  if place = 0 then (value &&& 0xffffff) ||| (register <<< 24)
  else if place = 1 then (value &&& 0xffff) ||| (register <<< 16)
  else if place = 2 then (value &&& 0xff) ||| (register <<< 8)
  else register

-- The switch of OneInstruction, one case for each case of the source.
def execute (m : Machine) (instr : Instruction) : Except Stop Executed :=
  let pcAfter := m.registers NextPCReg + 4
  let rs := m.registers instr.rs
  let rt := m.registers instr.rt
  let extra := instr.extra
  let branch : Executed := ⟨m,m.registers NextPCReg + IndexToAddr extra,0,0⟩
  let ends (m : Machine) : Except Stop Executed := .ok ⟨m,pcAfter,0,0⟩
  let loads (m : Machine) (value : BitVec 32) : Except Stop Executed :=
    .ok ⟨m,pcAfter,BitVec.ofNat 32 instr.rt,value⟩
  match instr.opCode with
  | .ADD =>
    let sum := rs + rt
    if (rs ^^^ rt) &&& SIGN_BIT = 0 ∧ (rs ^^^ sum) &&& SIGN_BIT ≠ 0 then .error (m.raiseException .OverflowException 0)
    else ends (m.set instr.rd sum)
  | .ADDI =>
    let sum := rs + extra
    if (rs ^^^ extra) &&& SIGN_BIT = 0 ∧ (extra ^^^ sum) &&& SIGN_BIT ≠ 0 then
      .error (m.raiseException .OverflowException 0)
    else ends (m.set instr.rt sum)
  | .ADDIU => ends (m.set instr.rt (rs + extra))
  | .ADDU => ends (m.set instr.rd (rs + rt))
  | .AND => ends (m.set instr.rd (rs &&& rt))
  | .ANDI => ends (m.set instr.rt (rs &&& (extra &&& 0xffff)))
  | .BEQ => if rs = rt then .ok branch else ends m
  | .BGEZAL =>
    let m := m.set R31 pcAfter
    if m.registers instr.rs &&& SIGN_BIT = 0 then .ok {branch with machine := m} else ends m
  | .BGEZ => if rs &&& SIGN_BIT = 0 then .ok branch else ends m
  | .BGTZ => if (0#32).slt rs then .ok branch else ends m
  | .BLEZ => if rs.sle 0 then .ok branch else ends m
  | .BLTZAL =>
    let m := m.set R31 pcAfter
    if m.registers instr.rs &&& SIGN_BIT ≠ 0 then .ok {branch with machine := m} else ends m
  | .BLTZ => if rs &&& SIGN_BIT ≠ 0 then .ok branch else ends m
  | .BNE => if rs ≠ rt then .ok branch else ends m
  | .DIV =>
    if rt = 0 then ends ((m.set LoReg 0).set HiReg 0)
    -- The quotient of the most negative number and -1 is no int: the host traps.
    else if rs = SIGN_BIT ∧ rt = -1 then .error (.aborted .division)
    else ends ((m.set LoReg (rs.sdiv rt)).set HiReg (rs.srem rt))
  | .DIVU =>
    if rt = 0 then ends ((m.set LoReg 0).set HiReg 0)
    else ends ((m.set LoReg (rs / rt)).set HiReg (rs % rt))
  | .JAL => .ok ⟨m.set R31 pcAfter,(pcAfter &&& 0xf0000000) ||| IndexToAddr extra,0,0⟩
  | .J => .ok ⟨m,(pcAfter &&& 0xf0000000) ||| IndexToAddr extra,0,0⟩
  | .JALR =>
    let m := m.set instr.rd pcAfter
    .ok ⟨m,m.registers instr.rs,0,0⟩
  | .JR => .ok ⟨m,rs,0,0⟩
  | .LB | .LBU => do
    let (value,m) ← m.readMem bigEndian (rs + extra) 1
    loads m (if value &&& 0x80 ≠ 0 ∧ instr.opCode = .LB then value ||| 0xffffff00 else value &&& 0xff)
  | .LH | .LHU =>
    if (rs + extra) &&& 1 ≠ 0 then .error (m.raiseException .AddressErrorException (rs + extra))
    else do
      let (value,m) ← m.readMem bigEndian (rs + extra) 2
      loads m (if value &&& 0x8000 ≠ 0 ∧ instr.opCode = .LH then value ||| 0xffff0000 else value &&& 0xffff)
  | .LUI => ends (m.set instr.rt (extra <<< 16))
  | .LW =>
    if (rs + extra) &&& 3 ≠ 0 then .error (m.raiseException .AddressErrorException (rs + extra))
    else do
      let (value,m) ← m.readMem bigEndian (rs + extra) 4
      loads m value
  | .LWL =>
    if (rs + extra) &&& 3 ≠ 0 then .error (.aborted .assertion)
    else do
      let (value,m) ← m.readMem bigEndian (rs + extra) 4
      loads m (lwl ((rs + extra) &&& 3) (m.pendingValue instr) value)
  | .LWR =>
    if (rs + extra) &&& 3 ≠ 0 then .error (.aborted .assertion)
    else do
      let (value,m) ← m.readMem bigEndian (rs + extra) 4
      loads m (lwr ((rs + extra) &&& 3) (m.pendingValue instr) value)
  | .MFHI => ends (m.set instr.rd (m.registers HiReg))
  | .MFLO => ends (m.set instr.rd (m.registers LoReg))
  | .MTHI => ends (m.set HiReg rs)
  | .MTLO => ends (m.set LoReg rs)
  | .MULT => ends ((m.set HiReg (mult rs rt true).1).set LoReg (mult rs rt true).2)
  | .MULTU => ends ((m.set HiReg (mult rs rt false).1).set LoReg (mult rs rt false).2)
  | .NOR => ends (m.set instr.rd (~~~(rs ||| rt)))
  | .OR => ends (m.set instr.rd (rs ||| rs))
  | .ORI => ends (m.set instr.rt (rs ||| (extra &&& 0xffff)))
  | .SB => do ends (← m.writeMem bigEndian (rs + extra) 1 rt)
  | .SH => do ends (← m.writeMem bigEndian (rs + extra) 2 rt)
  | .SLL => ends (m.set instr.rd (rt <<< extra.toNat))
  | .SLLV => ends (m.set instr.rd (rt <<< (rs &&& 0x1f).toNat))
  | .SLT => ends (m.set instr.rd (if rs.slt rt then 1 else 0))
  | .SLTI => ends (m.set instr.rt (if rs.slt extra then 1 else 0))
  | .SLTIU => ends (m.set instr.rt (if rs.ult extra then 1 else 0))
  | .SLTU => ends (m.set instr.rd (if rs.ult rt then 1 else 0))
  | .SRA => ends (m.set instr.rd (rt.sshiftRight extra.toNat))
  | .SRAV => ends (m.set instr.rd (rt.sshiftRight (rs &&& 0x1f).toNat))
  -- `tmp` is an int, so these two shift the sign in as well.
  | .SRL => ends (m.set instr.rd (rt.sshiftRight extra.toNat))
  | .SRLV => ends (m.set instr.rd (rt.sshiftRight (rs &&& 0x1f).toNat))
  | .SUB =>
    let diff := rs - rt
    if (rs ^^^ rt) &&& SIGN_BIT ≠ 0 ∧ (rs ^^^ diff) &&& SIGN_BIT ≠ 0 then .error (m.raiseException .OverflowException 0)
    else ends (m.set instr.rd diff)
  | .SUBU => ends (m.set instr.rd (rs - rt))
  | .SW => do ends (← m.writeMem bigEndian (rs + extra) 4 rt)
  | .SWL =>
    if (rs + extra) &&& 3 ≠ 0 then .error (.aborted .assertion)
    else do
      let (value,m) ← m.readMem bigEndian ((rs + extra) &&& ~~~3) 4
      ends (← m.writeMem bigEndian ((rs + extra) &&& ~~~3) 4 (swl ((rs + extra) &&& 3) rt value))
  | .SWR =>
    if (rs + extra) &&& 3 ≠ 0 then .error (.aborted .assertion)
    else do
      let (value,m) ← m.readMem bigEndian ((rs + extra) &&& ~~~3) 4
      ends (← m.writeMem bigEndian ((rs + extra) &&& ~~~3) 4 (swr ((rs + extra) &&& 3) rt value))
  | .SYSCALL => .error (m.raiseException .SyscallException 0)
  | .XOR => ends (m.set instr.rd (rs ^^^ rt))
  | .XORI => ends (m.set instr.rt (rs ^^^ (extra &&& 0xffff)))
  | .RES | .UNIMP => .error (m.raiseException .IllegalInstrException 0)
  -- ASSERT(FALSE)
  | .RFE | .SPECIAL | .BCOND => .error (.aborted .assertion)

def oneInstruction (m : Machine) : Except Stop Machine := do
  let (raw,m) ← m.readMem bigEndian (m.registers PCReg) 4
  let executed ← m.execute bigEndian (.decode raw)
  .ok executed.finish

end Machine
end Nachos.Mips
