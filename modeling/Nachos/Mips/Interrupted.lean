import Nachos.Mips.Delay

-- Running a user program with interrupts taken between its instructions, and the
-- kernel behind its exceptions.
namespace Nachos.Mips

theorem field_bound (value : BitVec 32) (shift : Nat) : ((value >>> shift) &&& 0x1f).toNat < NumGPRegs := by
  rw [BitVec.toNat_and,show (0x1f : BitVec 32).toNat = 2 ^ 5 - 1 from rfl,Nat.and_two_pow_sub_one_eq_mod]
  exact Nat.mod_lt _ (by decide)

theorem decode_fields (value : BitVec 32) :
    (Instruction.decode value).rs < NumGPRegs ∧ (Instruction.decode value).rt < NumGPRegs ∧
      (Instruction.decode value).rd < NumGPRegs :=
  ⟨field_bound value 21,field_bound value 16,field_bound value 11⟩

theorem reads_general (fields : instr.rs < NumGPRegs ∧ instr.rt < NumGPRegs ∧ instr.rd < NumGPRegs) :
    ∀ i ∈ Instruction.reads instr, i < NumGPRegs := by
  intro i read
  have operand : i = instr.rs ∨ i = instr.rt := by
    unfold Instruction.reads at read
    split at read <;> simp_all
  rcases operand with rfl | rfl
  · exact fields.1
  · exact fields.2.1

theorem writes_general (fields : instr.rs < NumGPRegs ∧ instr.rt < NumGPRegs ∧ instr.rd < NumGPRegs) :
    ∀ i ∈ Instruction.writes instr, i < NumGPRegs := by
  intro i write
  have target : i = instr.rd ∨ i = instr.rt ∨ i = R31 := by
    unfold Instruction.writes at write
    split at write <;> simp_all
  rcases target with rfl | rfl | rfl
  · exact fields.2.2
  · exact fields.2.1
  · decide

namespace Machine
variable {m m' after : Machine} {bigEndian : Bool} {i r : Nat} {value : BitVec 32}

-- The registers that doing a load into `r` early changes.
def early (r : Nat) (value : BitVec 32) (i : Nat) : Option (BitVec 32) :=
  if i = r then some value else if i = LoadReg ∨ i = LoadValueReg then some 0 else none

theorem early_general (bound : i < NumGPRegs) (differs : i ≠ r) : early r value i = none := by
  obtain ⟨one,two⟩ := general_register bound
  simp [early,differs,one,two]

theorem ofNat_general (bound : i < NumGPRegs) : (BitVec.ofNat 32 i).toNat = i := by
  simp only [NumGPRegs] at bound
  rw [BitVec.toNat_ofNat]
  omega

theorem ofNat_zero_iff (bound : i < NumGPRegs) : BitVec.ofNat 32 i = 0 ↔ i = 0 := by
  constructor
  · intro zero
    have nat := congrArg BitVec.toNat zero
    rwa [ofNat_general bound] at nat
  · rintro rfl
    rfl

theorem early_delayedLoad (bound : r < NumGPRegs) (loadReg : m.registers LoadReg = BitVec.ofNat 32 r)
    (zero : r ≠ 0) (nextReg nextValue : BitVec 32) :
    (m.overlay (early r (m.registers LoadValueReg))).delayedLoad nextReg nextValue = m.delayedLoad nextReg nextValue := by
  obtain ⟨one,two⟩ := general_register bound
  have pending : (m.overlay (early r (m.registers LoadValueReg))).registers LoadReg = 0 := by
    simp [overlay,withRegisters,early,Ne.symm one]
  simp only [delayedLoad,pending,loadReg,ofNat_general bound]
  simp only [overlay,withRegisters,set,Machine.mk.injEq,and_true]
  funext j
  simp only [Function.update_apply,early]
  by_cases first : j = 0
  · simp [first]
  · by_cases second : j = LoadValueReg
    · simp [second,LoadValueReg]
    · by_cases third : j = LoadReg
      · simp [third,LoadReg,LoadValueReg]
      · by_cases same : j = r
        · simp [same,zero,one,two]
        · simp [first,second,third,same]

theorem early_hides (bound : r < NumGPRegs) (zero : r ≠ 0) : Hides (early r value) (BitVec.ofNat 32 r) value := by
  constructor
  · intro m loadReg loadValue nextReg nextValue
    rw [← loadValue]
    exact early_delayedLoad bound loadReg zero nextReg nextValue
  · intro i special one two
    have differs : i ≠ r := by omega
    simp [early,differs,one,two]

-- With r0 = 0 that is just what DelayedLoad(0,0) does.
theorem overlay_early (bound : r < NumGPRegs) (loadReg : m.registers LoadReg = BitVec.ofNat 32 r) (zero : r ≠ 0)
    (base : m.registers 0 = 0) : m.overlay (early r (m.registers LoadValueReg)) = m.delayedLoad 0 0 := by
  obtain ⟨one,two⟩ := general_register bound
  simp only [delayedLoad,loadReg,ofNat_general bound,overlay,withRegisters,set,Machine.mk.injEq,and_true]
  funext j
  simp only [Function.update_apply,early]
  by_cases first : j = 0
  · simp [first,Ne.symm zero,LoadReg,LoadValueReg,base]
  · by_cases second : j = LoadValueReg
    · simp [second,Ne.symm two]
    · by_cases third : j = LoadReg
      · simp [third,Ne.symm one]
      · by_cases same : j = r
        · simp [same,zero,one,two]
        · simp [first,second,third,same]

theorem early_blind (bound : r < NumGPRegs) (loadReg : m.registers LoadReg = BitVec.ofNat 32 r) (zero : r ≠ 0)
    (base : m.registers 0 = 0) (clear : (Instruction.decode raw).Clear r) :
    Blind False (early r (m.registers LoadValueReg)) m (.decode raw) := by
  have fields := decode_fields raw
  refine ⟨?_,?_,fields,?_⟩
  · intro i read
    refine early_general (reads_general fields i read) ?_
    rintro rfl
    exact clear.1 read
  · intro i write
    refine early_general (writes_general fields i write) ?_
    rintro rfl
    exact clear.2 write
  · intro after kept
    left
    obtain ⟨one,two⟩ := general_register bound
    obtain ⟨three,four⟩ := general_register fields.2.1
    have target : BitVec.ofNat 32 r = BitVec.ofNat 32 (Instruction.decode raw).rt ↔ (Instruction.decode raw).rt = r := by
      constructor
      · intro same
        have nat := congrArg BitVec.toNat same
        rw [ofNat_general bound,ofNat_general fields.2.1] at nat
        exact nat.symm
      · intro same
        rw [same]
    have idle : (after.overlay (early r (m.registers LoadValueReg))).registers LoadReg = 0 := by
      simp [overlay,withRegisters,early,Ne.symm one]
    have none : (0 : BitVec 32) = BitVec.ofNat 32 (Instruction.decode raw).rt ↔ (Instruction.decode raw).rt = 0 := by
      rw [eq_comm]
      exact ofNat_zero_iff fields.2.1
    simp only [pendingValue,idle,kept,loadReg,target,none]
    generalize (Instruction.decode raw).rt = rt at *
    by_cases same : rt = r
    · simp [same,zero,overlay,withRegisters,early]
    · by_cases first : rt = 0
      · simp [first,Ne.symm zero,overlay,withRegisters,early,Ne.symm two,base]
      · simp [same,first,overlay,withRegisters,early,three,four,kept]

-- The value register of a load into r0.
def spare (value : BitVec 32) (i : Nat) : Option (BitVec 32) := if i = LoadValueReg then some value else none

theorem spare_hides (pending : BitVec 32) : Hides (spare value) 0 pending := by
  constructor
  · intro m loadReg loadValue nextReg nextValue
    have same : (m.overlay (spare value)).registers LoadReg = 0 := by
      rw [overlay_shows (by simp [spare,LoadReg,LoadValueReg]),loadReg]
    simp only [delayedLoad,same,loadReg]
    simp only [overlay,withRegisters,set,Machine.mk.injEq,and_true]
    funext j
    simp only [Function.update_apply,spare]
    by_cases first : j = 0
    · simp [first]
    · by_cases second : j = LoadValueReg
      · simp [second,LoadValueReg]
      · simp [first,second]
  · intro i special one two
    simp [spare,two]

theorem overlay_spare (m : Machine) (value : BitVec 32) : m.overlay (spare value) = m.set LoadValueReg value := by
  simp only [overlay,withRegisters,set,Machine.mk.injEq,and_true]
  funext j
  by_cases same : j = LoadValueReg
  · simp [spare,same]
  · simp [spare,same]

theorem spare_blind (loadReg : m.registers LoadReg = 0) (raw : BitVec 32) :
    Blind True (spare value) m (.decode raw) := by
  have fields := decode_fields raw
  have general : ∀ i, i < NumGPRegs → spare value i = none := by
    intro i bound
    simp [spare,(general_register bound).2]
  refine ⟨fun i read => general i (reads_general fields i read),
    fun i write => general i (writes_general fields i write),fields,?_⟩
  intro after kept
  by_cases first : (Instruction.decode raw).rt = 0
  · exact .inr ⟨trivial,first⟩
  · left
    have idle : after.registers LoadReg = 0 := by rw [kept,loadReg]
    have differs : ¬(0 : BitVec 32) = BitVec.ofNat 32 (Instruction.decode raw).rt := by
      intro same
      exact first ((ofNat_zero_iff fields.2.1).mp same.symm)
    simp only [pendingValue,overlay_shows (show spare value LoadReg = none by simp [spare,LoadReg,LoadValueReg]),idle,
      differs,if_false,overlay_shows (general _ fields.2.1)]

-- The pending load is done early, and the instruction does not touch its register.
theorem early_same (bound : r < NumGPRegs) (loadReg : m.registers LoadReg = BitVec.ofNat 32 r) (zero : r ≠ 0)
    (base : m.registers 0 = 0)
    (clear : ∀ raw after, m.readMem bigEndian (m.registers PCReg) 4 = .ok (raw,after) →
      (Instruction.decode raw).Clear r) :
    (m.delayedLoad 0 0).oneInstruction bigEndian = m.oneInstruction bigEndian := by
  have agrees := one_agrees (m := m) (early_hides bound zero) ⟨loadReg,rfl⟩
    fun raw after fetched => early_blind bound loadReg zero base (clear raw after fetched)
  rw [overlay_early bound loadReg zero base] at agrees
  generalize (m.delayedLoad 0 0).oneInstruction bigEndian = early at agrees
  generalize m.oneInstruction bigEndian = late at agrees
  cases agrees with
  | stops stop => rfl
  | ends near =>
    rcases near with same | ⟨wrong,_⟩
    · rw [same]
    · exact wrong.elim

-- What a user program's registers always satisfy.
structure Sound (m : Machine) : Prop where
  base : m.registers 0 = 0
  loadReg : (m.registers LoadReg).toNat < NumGPRegs

theorem delayedLoad_sound (m : Machine) : (m.delayedLoad 0 0).Sound := by
  constructor
  · simp [delayedLoad]
  · simp [delayedLoad,LoadReg,LoadValueReg,NumGPRegs]

-- ExceptionHandler is entered with nothing pending.
def Settled (result : Except Stop α) : Prop := ∀ which entry, result = .error (.raised which entry) → entry.Sound

theorem raise_settled (m : Machine) (which : ExceptionType) (badVAddr : BitVec 32) :
    Settled (.error (m.raiseException which badVAddr) : Except Stop α) := by
  intro which' entry same
  cases same
  exact delayedLoad_sound _

theorem abort_settled (why : Abort) : Settled (.error (.aborted why) : Except Stop α) := by
  intro which entry wrong
  cases wrong

theorem ok_settled (a : α) : Settled (.ok a : Except Stop α) := by
  intro which entry wrong
  cases wrong

theorem readMem_settled (m : Machine) (addr : BitVec 32) (size : Nat) : Settled (m.readMem bigEndian addr size) := by
  unfold readMem
  split
  · exact abort_settled _
  · exact raise_settled _ _ _
  · split
    · exact abort_settled _
    · exact ok_settled _

theorem writeMem_settled (m : Machine) (addr : BitVec 32) (size : Nat) (value : BitVec 32) :
    Settled (m.writeMem bigEndian addr size value) := by
  unfold writeMem
  split
  · exact abort_settled _
  · exact raise_settled _ _ _
  · split
    · exact abort_settled _
    · exact ok_settled _

-- The load that an instruction leaves pending is into r0 or its own target.
structure Leaves (instr : Instruction) (executed : Except Stop Executed) : Prop where
  target : ∀ e, executed = .ok e → e.nextLoadReg = 0 ∨ e.nextLoadReg = BitVec.ofNat 32 instr.rt
  settled : Settled executed

theorem stop_leaves (settled : Settled (.error stop : Except Stop Executed)) : Leaves instr (.error stop) := by
  refine ⟨?_,settled⟩
  intro e wrong
  cases wrong

theorem ok_leaves (e : Executed) (none : e.nextLoadReg = 0) : Leaves instr (.ok e) := by
  refine ⟨?_,ok_settled e⟩
  intro e' same
  cases same
  exact .inl none

theorem load_leaves (m : Machine) (pcAfter value : BitVec 32) :
    Leaves instr (.ok ⟨m,pcAfter,BitVec.ofNat 32 instr.rt,value⟩) := by
  refine ⟨?_,ok_settled _⟩
  intro e same
  cases same
  exact .inr rfl

theorem bind_leaves (first : Except Stop α) (next : α → Except Stop Executed) (settled : Settled first)
    (leaves : ∀ a, Leaves instr (next a)) : Leaves instr (first >>= next) := by
  cases first with
  | error stop =>
    refine stop_leaves ?_
    intro which entry same
    cases same
    exact settled which entry rfl
  | ok a => exact leaves a

theorem execute_leaves (bigEndian : Bool) (m : Machine) (instr : Instruction) : Leaves instr (m.execute bigEndian instr) := by
  cases code : instr.opCode with
  | LB | LBU =>
    simp only [execute,code]
    exact bind_leaves _ _ (readMem_settled _ _ _) fun _ => load_leaves _ _ _
  | LH | LHU | LW =>
    simp only [execute,code]
    split
    · exact stop_leaves (raise_settled _ _ _)
    · exact bind_leaves _ _ (readMem_settled _ _ _) fun _ => load_leaves _ _ _
  | LWL | LWR =>
    simp only [execute,code]
    split
    · exact stop_leaves (abort_settled _)
    · exact bind_leaves _ _ (readMem_settled _ _ _) fun _ => load_leaves _ _ _
  | SB | SH | SW =>
    simp only [execute,code]
    exact bind_leaves _ _ (writeMem_settled _ _ _ _) fun _ => ok_leaves _ rfl
  | SWL | SWR =>
    simp only [execute,code]
    split
    · exact stop_leaves (abort_settled _)
    · refine bind_leaves _ _ (readMem_settled _ _ _) fun _ => ?_
      exact bind_leaves _ _ (writeMem_settled _ _ _ _) fun _ => ok_leaves _ rfl
  | DIV =>
    simp only [execute,code]
    split
    · exact ok_leaves _ rfl
    · split
      · exact stop_leaves (abort_settled _)
      · exact ok_leaves _ rfl
  | ADD | ADDI | SUB =>
    simp only [execute,code]
    split
    · exact stop_leaves (raise_settled _ _ _)
    · exact ok_leaves _ rfl
  | BEQ | BNE | BGEZ | BGTZ | BLEZ | BLTZ | BGEZAL | BLTZAL | DIVU =>
    simp only [execute,code]
    split <;> exact ok_leaves _ rfl
  | SYSCALL | RES | UNIMP =>
    simp only [execute,code]
    exact stop_leaves (raise_settled _ _ _)
  | RFE | SPECIAL | BCOND =>
    simp only [execute,code]
    exact stop_leaves (abort_settled _)
  | _ =>
    simp only [execute,code]
    exact ok_leaves _ rfl

theorem finish_base (e : Executed) : e.finish.registers 0 = 0 := by
  simp [Executed.finish,delayedLoad,PCReg,NextPCReg,PrevPCReg,LoadReg,LoadValueReg]

theorem finish_sound (e : Executed) (target : e.nextLoadReg = 0 ∨ e.nextLoadReg = BitVec.ofNat 32 i)
    (bound : i < NumGPRegs) : e.finish.Sound := by
  refine ⟨finish_base e,?_⟩
  rw [finish_loadReg]
  rcases target with zero | target
  · rw [zero]
    decide
  · rw [target,ofNat_general bound]
    exact bound

-- However an instruction goes, the registers are sound afterwards.
theorem one_sound (bigEndian : Bool) (m : Machine) :
    (∀ after, m.oneInstruction bigEndian = .ok after → after.Sound) ∧ Settled (m.oneInstruction bigEndian) := by
  unfold oneInstruction
  cases fetched : m.readMem bigEndian (m.registers PCReg) 4 with
  | error stop =>
    refine ⟨fun after wrong => (by cases wrong),?_⟩
    intro which entry same
    cases same
    exact readMem_settled m _ _ which entry fetched
  | ok found =>
    obtain ⟨raw,middle⟩ := found
    have leaves := execute_leaves bigEndian middle (.decode raw)
    change (∀ after, (middle.execute bigEndian (.decode raw) >>= fun e => .ok e.finish) = .ok after → after.Sound) ∧
      Settled (middle.execute bigEndian (.decode raw) >>= fun e => .ok e.finish)
    cases executed : middle.execute bigEndian (.decode raw) with
    | error stop =>
      refine ⟨fun after wrong => (by cases wrong),?_⟩
      intro which entry same
      cases same
      exact leaves.settled which entry executed
    | ok e =>
      refine ⟨?_,ok_settled _⟩
      intro after same
      cases same
      exact finish_sound e (leaves.target e executed) (decode_fields raw).2.1

theorem idle_delayedLoad (sound : m.Sound) (idle : m.registers LoadReg = 0) :
    m.delayedLoad 0 0 = m.set LoadValueReg 0 := by
  simp only [delayedLoad,idle,set,Machine.mk.injEq,and_true]
  funext j
  simp only [Function.update_apply]
  by_cases first : j = 0
  · simp [first,LoadValueReg,sound.base]
  · by_cases second : j = LoadValueReg
    · simp [second,LoadValueReg]
    · by_cases third : j = LoadReg
      · simp [third,LoadReg,LoadValueReg,← idle]
      · simp [first,second,third]

-- One instruction from machines that are alike to user code.
theorem near_agrees (idle : m.registers LoadReg = 0) (value : BitVec 32) :
    Agrees True (m.oneInstruction bigEndian) ((m.set LoadValueReg value).oneInstruction bigEndian) := by
  rw [← overlay_spare]
  exact one_agrees (spare_hides _) ⟨idle,rfl⟩ fun raw after _ => spare_blind idle raw

theorem Near.settled (near : Near True m m') : m'.delayedLoad 0 0 = m.delayedLoad 0 0 := by
  rcases near with rfl | ⟨_,idle,value,rfl⟩
  · rfl
  · rw [← overlay_spare]
    exact (spare_hides _).settles m idle rfl 0 0

theorem Agrees.refl (result : Except Stop Machine) : Agrees True result result := by
  cases result with
  | error stop => exact .stops stop
  | ok m => exact .ends (.inl rfl)

end Machine

-- What is behind RaiseException: the rest of the kernel with its own state. It puts
-- an end to the run, or returns to the program.
structure Handler (κ : Type) where
  handle : κ → ExceptionType → Machine → Except κ (κ × Machine)
  sound : ∀ k which entry, entry.Sound → ∀ k' m, handle k which entry = .ok (k',m) → m.Sound

inductive Halt (κ : Type) where
  | halted (k : κ)
  | aborted (why : Abort)

section
variable {κ : Type} (bigEndian : Bool) (handler : Handler κ)

-- One turn of the loop in Machine::Run.
def turn (k : κ) (m : Machine) : Except (Halt κ) (κ × Machine) :=
  match m.oneInstruction bigEndian with
  | .ok m => .ok (k,m)
  | .error (.raised which entry) => match handler.handle k which entry with
    | .ok (k,m) => .ok (k,m)
    | .error k => .error (.halted k)
  | .error (.aborted why) => .error (.aborted why)

-- The instructions of a run, with whether an interrupt is taken before each: then
-- CheckIfDue does the pending load.
def run : List Bool → κ → Machine → Except (Halt κ) (κ × Machine)
  | [],k,m => .ok (k,m)
  | taken :: later,k,m =>
    match turn bigEndian handler k (if taken then m.delayedLoad 0 0 else m) with
    | .ok (k,m) => run later k m
    | .error halt => .error halt

-- No instruction among the next `left` touches a register that a load is pending for.
def HazardFree : Nat → κ → Machine → Prop
  | 0,_,_ => True
  | left + 1,k,m =>
    (m.registers LoadReg ≠ 0 → ∀ raw after, m.readMem bigEndian (m.registers PCReg) 4 = .ok (raw,after) →
      (Instruction.decode raw).Clear (m.registers LoadReg).toNat) ∧
    ∀ k' m', turn bigEndian handler k m = .ok (k',m') → HazardFree left k' m'

-- How two runs compare: they end in one way, or go on with the same state once the
-- pending load is done.
inductive SameResult : Except (Halt κ) (κ × Machine) → Except (Halt κ) (κ × Machine) → Prop where
  | halts (halt : Halt κ) : SameResult (.error halt) (.error halt)
  | goes {k : κ} {m m' : Machine} : m'.delayedLoad 0 0 = m.delayedLoad 0 0 → SameResult (.ok (k,m)) (.ok (k,m'))

end

section
variable {κ : Type} {bigEndian : Bool} {handler : Handler κ} {k k' : κ} {m m' : Machine}
open Machine

theorem turn_sound (goes : turn bigEndian handler k m = .ok (k',m')) : m'.Sound := by
  obtain ⟨ends,raises⟩ := one_sound bigEndian m
  unfold turn at goes
  split at goes
  · rename_i after one
    cases goes
    exact ends _ one
  · rename_i which entry one
    split at goes
    · rename_i k'' after handled
      cases goes
      exact handler.sound k which entry (raises which entry one) _ _ handled
    · cases goes
  · cases goes

-- Whether an interrupt is taken before an instruction does not show after it.
theorem taken_agrees (sound : m.Sound) (near : Near True m m') (taken : Bool)
    (clear : m.registers LoadReg ≠ 0 → ∀ raw after, m.readMem bigEndian (m.registers PCReg) 4 = .ok (raw,after) →
      (Instruction.decode raw).Clear (m.registers LoadReg).toNat) :
    Agrees True (m.oneInstruction bigEndian)
      ((if taken then m'.delayedLoad 0 0 else m').oneInstruction bigEndian) := by
  cases taken with
  | false =>
    rcases near with rfl | ⟨_,idle,value,rfl⟩
    · exact Agrees.refl _
    · exact near_agrees idle value
  | true =>
    simp only [if_true,near.settled]
    by_cases idle : m.registers LoadReg = 0
    · rw [idle_delayedLoad sound idle]
      exact near_agrees idle 0
    · have pending : m.registers LoadReg = BitVec.ofNat 32 (m.registers LoadReg).toNat := by
        simp
      have zero : (m.registers LoadReg).toNat ≠ 0 := by
        intro wrong
        rw [wrong] at pending
        exact idle pending
      rw [early_same sound.loadReg pending zero sound.base (clear idle)]
      exact Agrees.refl _

theorem turn_agrees (handler : Handler κ) (agrees : Agrees True (m.oneInstruction bigEndian) (m'.oneInstruction bigEndian)) (k : κ) :
    (∃ halt, turn bigEndian handler k m = .error halt ∧ turn bigEndian handler k m' = .error halt) ∨
    (∃ k' after after', turn bigEndian handler k m = .ok (k',after) ∧ turn bigEndian handler k m' = .ok (k',after') ∧
      Near True after after') := by
  unfold turn
  generalize m.oneInstruction bigEndian = one at agrees
  generalize m'.oneInstruction bigEndian = two at agrees
  cases agrees with
  | ends near => exact .inr ⟨k,_,_,rfl,rfl,near⟩
  | stops stop =>
    cases stop with
    | aborted why => exact .inl ⟨_,rfl,rfl⟩
    | raised which entry =>
      cases handled : handler.handle k which entry with
      | error k => exact .inl ⟨.halted k,by simp only [handled],by simp only [handled]⟩
      | ok result =>
        exact .inr ⟨result.1,result.2,result.2,by simp only [handled],by simp only [handled],.inl rfl⟩

-- Two runs of the same length, one with no interrupts.
theorem run_agrees (flags : List Bool) (sound : m.Sound) (near : Near True m m')
    (free : HazardFree bigEndian handler flags.length k m) :
    SameResult (run bigEndian handler (List.replicate flags.length false) k m) (run bigEndian handler flags k m') := by
  induction flags generalizing k m m' with
  | nil => exact .goes near.settled
  | cons taken later ih =>
    obtain ⟨clear,rest⟩ := free
    simp only [List.length_cons,List.replicate_succ,run,Bool.false_eq_true,if_false]
    rcases turn_agrees handler (taken_agrees sound near taken clear) k with
      ⟨halt,one,two⟩ | ⟨k',after,after',one,two,near'⟩
    · rw [one,two]
      exact .halts halt
    · rw [one,two]
      exact ih (turn_sound one) near' (rest k' after one)

-- Interrupts are transparent to user code: for one instruction with a load pending,
-- and for any run that is free of load-delay hazards.
theorem interrupts_transparent :
    (∀ (m : Machine) (r : Nat), m.registers 0 = 0 → 1 ≤ r → r ≤ 31 → m.registers LoadReg = BitVec.ofNat 32 r →
      (∀ raw after, m.readMem bigEndian (m.registers PCReg) 4 = .ok (raw,after) → (Instruction.decode raw).Clear r) →
      (m.delayedLoad 0 0).oneInstruction bigEndian = m.oneInstruction bigEndian) ∧
    (∀ {κ : Type} (handler : Handler κ) (flags : List Bool) (k : κ) (m : Machine), m.Sound →
      HazardFree bigEndian handler flags.length k m →
      SameResult (run bigEndian handler (List.replicate flags.length false) k m) (run bigEndian handler flags k m)) := by
  constructor
  · intro m r base low high loadReg clear
    exact early_same (by simp only [NumGPRegs]; omega) loadReg (by omega) base clear
  · intro κ handler flags k m sound free
    exact run_agrees flags sound (.inl rfl) free

end

-- addu r3,r0,r0 with a load into r1 pending, in a state that no program can reach:
-- r0 is not zero before the load, and is afterwards.
def baseless : Nat → BitVec 32
  | 0 => 5
  | 37 => 1
  | _ => 0

theorem baseless_not_transparent :
    (loaded 0x00001821 baseless).registers LoadReg = BitVec.ofNat 32 1 ∧
    ((loaded 0x00001821 baseless).readMem false ((loaded 0x00001821 baseless).registers PCReg) 4).map Prod.fst =
      .ok 0x00001821 ∧
    (Instruction.decode 0x00001821).Clear 1 ∧
    ((loaded 0x00001821 baseless).oneInstruction false).map (fun m => m.registers 3) = .ok 10 ∧
    (((loaded 0x00001821 baseless).delayedLoad 0 0).oneInstruction false).map (fun m => m.registers 3) = .ok 0 := by
  refine ⟨rfl,rfl,?_,rfl,rfl⟩
  unfold Instruction.Clear
  decide

-- A kernel that ends every run at its first exception.
def haltAll : Handler Unit :=
  ⟨fun k _ _ => .error k,fun _ _ _ _ _ _ wrong => by cases wrong⟩

-- lw r1,4(r0) and addu r3,r2,r2.
def loading : Machine :=
  {loaded 0x8c010004 (Function.update (fun _ => 0) NextPCReg 4) with
    mainMemory := storeBytes (fun _ => 0) 0 (wordBytes false 0x8c010004 ++ wordBytes false 0x00421821)}

-- addu r3,r2,r2 with a load of 7 into r1 pending.
def pendingSeven : Nat → BitVec 32
  | 37 => 1
  | 38 => 7
  | _ => 0

theorem addu_clear : (Instruction.decode 0x00421821).Clear 1 := by
  unfold Instruction.Clear
  decide

theorem interrupts_transparent_loading :
    ((loaded 0x00421821 pendingSeven).delayedLoad 0 0).oneInstruction false =
      (loaded 0x00421821 pendingSeven).oneInstruction false ∧
    SameResult (run false haltAll [false,false] () loading) (run false haltAll [false,true] () loading) := by
  constructor
  · refine interrupts_transparent.1 _ 1 rfl (by decide) (by decide) rfl ?_
    intro raw after fetched
    have value : ((loaded 0x00421821 pendingSeven).readMem false 0 4).map Prod.fst = .ok 0x00421821 := rfl
    rw [show (loaded 0x00421821 pendingSeven).registers PCReg = 0 from rfl] at fetched
    rw [fetched] at value
    cases value
    exact addu_clear
  · refine interrupts_transparent.2 haltAll [false,true] () loading ⟨rfl,by decide⟩ ?_
    refine ⟨fun wrong => (wrong rfl).elim,?_⟩
    intro k m goes
    have value : (turn false haltAll () loading).map
        (fun result => (result.2.registers LoadReg,(result.2.readMem false (result.2.registers PCReg) 4).map Prod.fst)) =
        .ok (1,.ok 0x00421821) := rfl
    rw [goes] at value
    simp only [Except.map,Except.ok.injEq,Prod.mk.injEq] at value
    obtain ⟨target,fetched⟩ := value
    refine ⟨?_,fun _ _ _ => trivial⟩
    intro _ raw after same
    rw [same] at fetched
    cases fetched
    rw [target]
    exact addu_clear

end Nachos.Mips
