import Nachos.Mips.Instruction

-- Which instructions bring the simulator itself down.
namespace Nachos.Mips

theorem getD_mem (list : List α) (i : Nat) (default : α) : list.getD i default ∈ list ∨ list.getD i default = default := by
  rw [List.getD_eq_getElem?_getD]
  cases there : list[i]? with
  | none => exact Or.inr rfl
  | some a => exact Or.inl (List.mem_of_getElem? there)

-- The codes that the switch of OneInstruction has no case for.
def OpCode.unknown : OpCode → Bool
  | .RFE | .SPECIAL | .BCOND => true
  | _ => false

theorem decode_known (value : BitVec 32) : (Instruction.decode value).opCode.unknown = false := by
  have first : ∀ entry ∈ opTable, entry.1 = .SPECIAL ∨ entry.1 = .BCOND ∨ entry.1.unknown = false := by decide
  have second : ∀ opCode ∈ specialTable, opCode.unknown = false := by decide
  have special : (specialTable.getD (value &&& 0x3f).toNat .RES).unknown = false := by
    rcases getD_mem specialTable (value &&& 0x3f).toNat .RES with member | default
    · exact second _ member
    · rw [default]
      rfl
  have code : ∀ entry : OpCode × Format, entry = opTable.getD ((value >>> 26) &&& 0x3f).toNat (.RES,.IFMT) →
      entry.1 = .SPECIAL ∨ entry.1 = .BCOND ∨ entry.1.unknown = false := by
    rintro entry rfl
    rcases getD_mem opTable ((value >>> 26) &&& 0x3f).toNat (.RES,.IFMT) with member | default
    · exact first _ member
    · rw [default]
      exact Or.inr (Or.inr rfl)
  unfold Instruction.decode
  generalize found : opTable.getD ((value >>> 26) &&& 0x3f).toNat (.RES,.IFMT) = entry
  obtain ⟨opCode,format⟩ := entry
  have known := code (opCode,format) found.symm
  dsimp only
  cases opCode with
  | SPECIAL => exact special
  | BCOND =>
    dsimp only
    split
    · rfl
    · split
      · rfl
      · split
        · rfl
        · split <;> rfl
  | _ => simpa using known

namespace Machine
variable {m : Machine} {instr : Instruction} {bigEndian : Bool}

-- An unaligned partial-word access, or the quotient that is no int.
def Fatal (m : Machine) (instr : Instruction) : Prop :=
  (instr.opCode ∈ [OpCode.LWL,OpCode.LWR,OpCode.SWL,OpCode.SWR] ∧
    (m.registers instr.rs + instr.extra) &&& 3 ≠ 0) ∨
  (instr.opCode = .DIV ∧ m.registers instr.rs = SIGN_BIT ∧ m.registers instr.rt = -1)

def Aborts (result : Except Stop α) : Prop := ∃ why, result = .error (.aborted why)

theorem raise_lives (m : Machine) (which : ExceptionType) (badVAddr : BitVec 32) :
    ¬Aborts (.error (m.raiseException which badVAddr) : Except Stop α) := by
  rintro ⟨why,wrong⟩
  cases wrong

theorem ok_lives (value : α) : ¬Aborts (.ok value : Except Stop α) := by
  rintro ⟨why,wrong⟩
  cases wrong

-- What comes after a memory access decides.
theorem read_lives (mapped : m.Mapped) (addr : BitVec 32) (sizes : size = 1 ∨ size = 2 ∨ size = 4)
    (next : BitVec 32 × Machine → Except Stop α)
    (lives : ∀ value after, Alike m after → ¬Aborts (next (value,after))) :
    ¬Aborts (m.readMem bigEndian addr size >>= next) := by
  rcases readMem_mapped mapped bigEndian addr sizes with ⟨which,raised⟩ | ⟨value,after,found,alike,_⟩
  · rw [raised]
    exact raise_lives m which addr
  · rw [found]
    exact lives value after alike

theorem write_lives (mapped : m.Mapped) (addr value : BitVec 32) (sizes : size = 1 ∨ size = 2 ∨ size = 4)
    (next : Machine → Except Stop α) (lives : ∀ after, ¬Aborts (next after)) :
    ¬Aborts (m.writeMem bigEndian addr size value >>= next) := by
  rcases writeMem_mapped mapped bigEndian addr value sizes with ⟨which,raised⟩ | ⟨after,found,_⟩
  · rw [raised]
    exact raise_lives m which addr
  · rw [found]
    exact lives after

theorem aborted_aborts (why : Abort) : Aborts (.error (.aborted why) : Except Stop α) := ⟨why,rfl⟩

-- The test that LWL, LWR, SWL and SWR put before everything else.
theorem asserted_aborts (fails : Prop) [Decidable fails] (next : Except Stop α) (lives : ¬fails → ¬Aborts next) :
    Aborts (if fails then .error (.aborted .assertion) else next) ↔ fails := by
  split
  · rename_i failed
    exact iff_of_true (aborted_aborts _) failed
  · rename_i passed
    exact iff_of_false (lives passed) passed

theorem partial_fatal (code : instr.opCode ∈ [OpCode.LWL,OpCode.LWR,OpCode.SWL,OpCode.SWR]) :
    m.Fatal instr ↔ (m.registers instr.rs + instr.extra) &&& 3 ≠ 0 := by
  have differs : instr.opCode ≠ .DIV := by
    intro wrong
    rw [wrong] at code
    revert code
    decide
  simp only [Fatal,code,differs,true_and,false_and,or_false]

theorem other_lives (code : instr.opCode ∉ [OpCode.LWL,OpCode.LWR,OpCode.SWL,OpCode.SWR,OpCode.DIV]) :
    ¬m.Fatal instr := by
  simp only [List.mem_cons,List.not_mem_nil,not_or,or_false] at code
  simp [Fatal,code]

theorem execute_aborts (mapped : m.Mapped) (known : instr.opCode.unknown = false) :
    Aborts (m.execute bigEndian instr) ↔ m.Fatal instr := by
  cases code : instr.opCode with
  | RFE | SPECIAL | BCOND => simp [code,OpCode.unknown] at known
  | LWL | LWR =>
    rw [partial_fatal (by simp [code])]
    simp only [execute,code]
    refine asserted_aborts _ _ fun _ => ?_
    exact read_lives mapped _ (by decide) _ fun _ _ _ => ok_lives _
  | SWL | SWR =>
    rw [partial_fatal (by simp [code])]
    simp only [execute,code]
    refine asserted_aborts _ _ fun _ => ?_
    refine read_lives mapped _ (by decide) _ fun _ _ alike => ?_
    exact write_lives (alike.mapped mapped) _ _ (by decide) _ fun _ => ok_lives _
  | DIV =>
    simp only [execute,code]
    split
    · rename_i zero
      refine iff_of_false (ok_lives _) ?_
      simp [Fatal,code,zero]
    · split
      · rename_i overflow
        exact iff_of_true (aborted_aborts _) (Or.inr ⟨code,overflow⟩)
      · rename_i fits
        refine iff_of_false (ok_lives _) ?_
        simpa [Fatal,code] using fits
  | LB | LBU =>
    refine iff_of_false ?_ (other_lives (by simp [code]))
    simp only [execute,code]
    exact read_lives mapped _ (by decide) _ fun _ _ _ => ok_lives _
  | LH | LHU | LW =>
    refine iff_of_false ?_ (other_lives (by simp [code]))
    simp only [execute,code]
    split
    · exact raise_lives m _ _
    · exact read_lives mapped _ (by decide) _ fun _ _ _ => ok_lives _
  | SB | SH | SW =>
    refine iff_of_false ?_ (other_lives (by simp [code]))
    simp only [execute,code]
    exact write_lives mapped _ _ (by decide) _ fun _ => ok_lives _
  | SYSCALL | RES | UNIMP =>
    refine iff_of_false ?_ (other_lives (by simp [code]))
    simp only [execute,code]
    exact raise_lives m _ _
  | ADD | ADDI | SUB =>
    refine iff_of_false ?_ (other_lives (by simp [code]))
    simp only [execute,code]
    split
    · exact raise_lives m _ _
    · exact ok_lives _
  | BEQ | BNE | BGEZ | BGTZ | BLEZ | BLTZ | BGEZAL | BLTZAL | DIVU =>
    refine iff_of_false ?_ (other_lives (by simp [code]))
    simp only [execute,code]
    split <;> exact ok_lives _
  | _ =>
    refine iff_of_false ?_ (other_lives (by simp [code]))
    simp only [execute,code]
    exact ok_lives _

theorem finish_aborts (executed : Except Stop α) (next : α → β) :
    Aborts (executed >>= fun value => .ok (next value)) ↔ Aborts executed := by
  cases executed with
  | ok value => exact iff_of_false (ok_lives _) (ok_lives _)
  | error stop =>
    constructor
    · rintro ⟨why,same⟩
      cases same
      exact ⟨why,rfl⟩
    · rintro ⟨why,same⟩
      cases same
      exact ⟨why,rfl⟩

-- The state a user program can be in: one kind of table, and a load register that
-- is a general one.
structure Runnable (m : Machine) : Prop where
  mapped : m.Mapped
  loadReg : (m.registers LoadReg).toNat < NumGPRegs

theorem Fatal.alike (alike : Alike m after) : after.Fatal instr ↔ m.Fatal instr := by
  simp only [Fatal,alike.registers]

-- One instruction brings the simulator down exactly when it can be fetched and is
-- one of the two fatal kinds.
theorem simulator_survives (runnable : m.Runnable) :
    ¬Aborts (m.oneInstruction bigEndian) ↔
      ∀ raw after, m.readMem bigEndian (m.registers PCReg) 4 = .ok (raw,after) → ¬m.Fatal (.decode raw) := by
  unfold oneInstruction
  rcases readMem_mapped runnable.mapped bigEndian (m.registers PCReg) (show 4 = 1 ∨ 4 = 2 ∨ 4 = 4 by decide) with
    ⟨which,raised⟩ | ⟨raw,after,found,alike,_⟩
  · rw [raised]
    refine iff_of_true (raise_lives m which _) ?_
    intro raw after wrong
    cases wrong
  · rw [found]
    have survives : ¬Aborts (do
        let executed ← after.execute bigEndian (.decode raw)
        .ok executed.finish : Except Stop Machine) ↔ ¬m.Fatal (.decode raw) := by
      rw [finish_aborts,execute_aborts (alike.mapped runnable.mapped) (decode_known raw),Fatal.alike alike]
    refine survives.trans ⟨?_,?_⟩
    · rintro mild raw' after' same
      cases same
      exact mild
    · intro mild
      exact mild raw after rfl

end Machine

-- A machine with one page, with the instruction at its beginning.
def loaded (instruction : BitVec 32) (registers : Nat → BitVec 32) : Machine :=
  ⟨registers,storeBytes (fun _ => 0) 0 (wordBytes false instruction),none,some [⟨0,0,true,false,false,false⟩]⟩

theorem loaded_mapped (instruction : BitVec 32) (registers : Nat → BitVec 32) :
    (loaded instruction registers).Mapped := by
  simp [Machine.Mapped,loaded]

-- The most negative number in r1 and a divisor in r2.
def mostNegative (divisor : BitVec 32) : Nat → BitVec 32
  | 1 => 0x80000000
  | 2 => divisor
  | _ => 0

-- div r1,r2 by -1, and lwl r2,1(r0).
theorem simulator_dies :
    ((loaded 0x0022001a (mostNegative (-1))).Runnable ∧
      Machine.Aborts ((loaded 0x0022001a (mostNegative (-1))).oneInstruction false)) ∧
    (loaded 0x88020001 fun _ => 0).Runnable ∧
      Machine.Aborts ((loaded 0x88020001 fun _ => 0).oneInstruction false) := by
  refine ⟨⟨⟨loaded_mapped _ _,by decide⟩,.division,rfl⟩,⟨loaded_mapped _ _,by decide⟩,.assertion,rfl⟩

-- div r1,r2 by 2.
theorem simulator_survives_halving :
    (loaded 0x0022001a (mostNegative 2)).Runnable ∧
      ¬Machine.Aborts ((loaded 0x0022001a (mostNegative 2)).oneInstruction false) := by
  have runnable : (loaded 0x0022001a (mostNegative 2)).Runnable := ⟨loaded_mapped _ _,by decide⟩
  refine ⟨runnable,(Machine.simulator_survives runnable).mpr ?_⟩
  intro raw after found
  have value : ((loaded 0x0022001a (mostNegative 2)).readMem false 0 4).map Prod.fst = .ok 0x0022001a := rfl
  rw [show (loaded 0x0022001a (mostNegative 2)).registers PCReg = 0 from rfl] at found
  rw [found] at value
  cases value
  rintro (⟨code,_⟩ | ⟨_,_,divisor⟩)
  · revert code
    decide
  · revert divisor
    decide

end Nachos.Mips
