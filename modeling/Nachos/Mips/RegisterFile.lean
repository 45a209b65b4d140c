import Nachos.Mips.AddrSpace
import Nachos.Mips.Interrupted
import Nachos.Mips.Precise

-- The registers of the machine while user programs run, are interrupted, call the
-- kernel and are switched.
namespace Nachos.Mips

def ResultReg : Nat := 2

namespace Machine

-- The end of ExceptionHandler for a system call that gives `rv`.
def returns (m : Machine) (rv : BitVec 32) : Machine :=
  let m := m.set ResultReg rv
  let m := m.set PrevPCReg (m.registers PCReg)
  let m := m.set PCReg (m.registers NextPCReg)
  m.set NextPCReg (m.registers PCReg + 4)

-- Thread::SaveUserState and RestoreUserState.
def save (m : Machine) : Nat → BitVec 32 := fun i => if i < NumTotalRegs then m.registers i else 0

def restore (m : Machine) (userRegisters : Nat → BitVec 32) : Machine :=
  m.withRegisters fun i => if i < NumTotalRegs then userRegisters i else m.registers i

end Machine

-- The machine and the registers that the threads have saved.
structure Processor (T : Type) where
  machine : Machine
  userRegisters : T → Option (Nat → BitVec 32)

variable {T : Type} [DecidableEq T]

-- What happens to them. The kernel may change memory and the table of pages at any
-- time, and its own accesses to user memory may fail.
inductive Event (bigEndian : Bool) : Processor T → Processor T → Prop where
  | instruction (one : s.machine.oneInstruction bigEndian = .ok m) : Event bigEndian s {s with machine := m}
  | exception (raised : s.machine.oneInstruction bigEndian = .error (.raised which entry)) :
      Event bigEndian s {s with machine := entry}
  | kernel (same : m.registers = s.machine.registers) : Event bigEndian s {s with machine := m}
  | readFault (raised : s.machine.readMem bigEndian addr size = .error (.raised which entry)) :
      Event bigEndian s {s with machine := entry}
  | writeFault (raised : s.machine.writeMem bigEndian addr size value = .error (.raised which entry)) :
      Event bigEndian s {s with machine := entry}
  | syscall (rv : BitVec 32) : Event bigEndian s {s with machine := s.machine.returns rv}
  | interrupt : Event bigEndian s {s with machine := s.machine.delayedLoad 0 0}
  | save (thread : T) :
      Event bigEndian s {s with userRegisters := Function.update s.userRegisters thread (some s.machine.save)}
  | restore (thread : T) (saved : s.userRegisters thread = some registers) :
      Event bigEndian s {s with machine := s.machine.restore registers}
  | start (space : AddrSpace) : Event bigEndian s {s with machine := s.machine.withRegisters space.initRegisters}

-- From InitRegisters on.
inductive Reached (bigEndian : Bool) (m : Machine) (space : AddrSpace) : Processor T → Prop where
  | start : Reached bigEndian m space ⟨m.withRegisters space.initRegisters,fun _ => none⟩
  | step (before : Reached bigEndian m space s) (event : Event bigEndian s t) : Reached bigEndian m space t

namespace Machine
variable {m entry after : Machine} {bigEndian : Bool} {space : AddrSpace} {s t : Processor T} {instr : Instruction}
  {num : Nat} {e : Executed} {which : ExceptionType}

theorem Sound.same (sound : m.Sound) (zero : after.registers 0 = m.registers 0)
    (load : after.registers LoadReg = m.registers LoadReg) : after.Sound :=
  ⟨zero.trans sound.base,by rw [load]; exact sound.loadReg⟩

theorem returns_sound (sound : m.Sound) (rv : BitVec 32) : (m.returns rv).Sound := by
  refine sound.same ?_ ?_
  · simp [returns,ResultReg,PrevPCReg,PCReg,NextPCReg]
  · simp [returns,ResultReg,PrevPCReg,PCReg,NextPCReg,LoadReg]

theorem init_sound (m : Machine) (space : AddrSpace) : (m.withRegisters space.initRegisters).Sound := by
  constructor <;> simp [withRegisters,AddrSpace.initRegisters,LoadReg,NumGPRegs,NextPCReg,StackReg]

theorem save_sound (sound : m.Sound) : (entry.restore m.save).Sound := by
  refine sound.same ?_ ?_ <;> simp [restore,save,withRegisters,NumTotalRegs,LoadReg]

-- The running machine is sound, and so is any other once the registers are back.
structure Intact (s : Processor T) : Prop where
  running : s.machine.Sound
  saved : ∀ thread registers, s.userRegisters thread = some registers → ∀ m : Machine, (m.restore registers).Sound

theorem event_intact (intact : Intact s) (event : Event bigEndian s t) : Intact t := by
  cases event with
  | instruction one => exact ⟨(one_sound bigEndian s.machine).1 _ one,intact.saved⟩
  | exception raised => exact ⟨(one_sound bigEndian s.machine).2 _ _ raised,intact.saved⟩
  | kernel same => exact ⟨intact.running.same (by rw [same]) (by rw [same]),intact.saved⟩
  | readFault raised => exact ⟨readMem_settled _ _ _ _ _ raised,intact.saved⟩
  | writeFault raised => exact ⟨writeMem_settled _ _ _ _ _ _ raised,intact.saved⟩
  | syscall rv => exact ⟨returns_sound intact.running rv,intact.saved⟩
  | interrupt => exact ⟨delayedLoad_sound _,intact.saved⟩
  | save thread =>
    refine ⟨intact.running,fun other registers found m => ?_⟩
    by_cases same : other = thread
    · subst same
      have this : s.machine.save = registers := by simpa using found
      exact this ▸ save_sound intact.running
    · exact intact.saved other registers (by simpa [same] using found) m
  | restore thread saved => exact ⟨intact.saved thread _ saved _,intact.saved⟩
  | start space => exact ⟨init_sound _ _,intact.saved⟩

theorem reached_intact (reached : Reached bigEndian m space s) : Intact s := by
  induction reached with
  | start => exact ⟨init_sound m space,fun _ _ wrong => by cases wrong⟩
  | step _ event ih => exact event_intact ih event

-- The registers behind the general ones that DelayedLoad is not to touch.
def Special (num : Nat) : Prop := NumGPRegs ≤ num ∧ num ≠ LoadReg ∧ num ≠ LoadValueReg

theorem delayedLoad_special (general : (m.registers LoadReg).toNat < NumGPRegs) (special : Special num)
    (nextReg nextValue : BitVec 32) : (m.delayedLoad nextReg nextValue).registers num = m.registers num := by
  obtain ⟨behind,one,two⟩ := special
  have apart : num ≠ (m.registers LoadReg).toNat := by omega
  have positive : num ≠ 0 := by
    rintro rfl
    exact absurd behind (by decide)
  simp [delayedLoad,one,two,apart,positive]

-- The switch leaves the pending load alone.
theorem execute_loadReg (fields : instr.rs < NumGPRegs ∧ instr.rt < NumGPRegs ∧ instr.rd < NumGPRegs)
    (executed : m.execute bigEndian instr = .ok e) : e.machine.registers LoadReg = m.registers LoadReg := by
  have hides : Hides (fun _ => none) (m.registers LoadReg) (m.registers LoadValueReg) :=
    ⟨fun _ _ _ _ _ => rfl,fun _ _ _ _ => rfl⟩
  have blind : Blind False (fun _ => none) m instr := ⟨fun _ _ => rfl,fun _ _ => rfl,fields,fun _ _ => .inl rfl⟩
  have transparent : Transparent False (fun _ => none) (m.registers LoadReg) (m.registers LoadValueReg)
      (m.execute bigEndian instr) ((m.overlay fun _ => none).execute bigEndian instr) :=
    execute_transparent hides ⟨rfl,rfl⟩ blind
  rw [executed] at transparent
  generalize (overlay (fun _ => none) m).execute bigEndian instr = other at transparent
  cases transparent with
  | ends value pends => exact pends.1

theorem precise_special (general : (m.registers LoadReg).toNat < NumGPRegs) (precise : Precise m entry addr)
    (special : Special num) (other : num ≠ BadVAddrReg) : entry.registers num = m.registers num := by
  obtain ⟨behind,one,two⟩ := special
  have apart : num ≠ (m.registers LoadReg).toNat := by omega
  have positive : num ≠ 0 := by
    rintro rfl
    exact absurd behind (by decide)
  rw [precise.registers,if_neg (by simp [positive,one,two]),if_neg other,if_neg apart]

-- r0 is 0 and a load is pending for a general register, and so the store of
-- DelayedLoad goes to one of those: at an interrupt, at the end of an instruction and
-- in front of ExceptionHandler.
structure Guarded (bigEndian : Bool) (m : Machine) : Prop where
  base : m.registers 0 = 0
  loadReg : (m.registers LoadReg).toNat < NumGPRegs
  interrupt : ∀ num, Special num → (m.delayedLoad 0 0).registers num = m.registers num
  finish : ∀ (raw : BitVec 32) (after : Machine) (e : Executed),
    m.readMem bigEndian (m.registers PCReg) 4 = .ok (raw,after) → after.execute bigEndian (.decode raw) = .ok e →
      (e.machine.registers LoadReg).toNat < NumGPRegs ∧ ∀ num, Special num →
        (e.machine.delayedLoad e.nextLoadReg e.nextLoadValue).registers num = e.machine.registers num
  exception : ∀ (which : ExceptionType) (entry : Machine), m.oneInstruction bigEndian = .error (.raised which entry) →
    ∀ num, Special num → num ≠ BadVAddrReg → entry.registers num = m.registers num

theorem Sound.guarded (sound : m.Sound) : Guarded bigEndian m := by
  refine ⟨sound.base,sound.loadReg,?_,?_,?_⟩
  · intro num special
    exact delayedLoad_special sound.loadReg special 0 0
  · intro raw after e fetched executed
    have same := (readMem_found (.inr (.inr rfl)) fetched).1.registers
    have general : (e.machine.registers LoadReg).toNat < NumGPRegs := by
      rw [execute_loadReg (decode_fields raw) executed,same]
      exact sound.loadReg
    exact ⟨general,fun num special => delayedLoad_special general special _ _⟩
  · intro which entry raised num special other
    rcases exceptions_precise sound.loadReg raised with ⟨_,precise⟩ | ⟨_,_,_,precise⟩
    · exact precise_special sound.loadReg precise special other
    · exact precise_special sound.loadReg precise special other

end Machine

-- However user code, interrupts, the kernel and switches follow one another.
theorem register_file {m : Machine} {bigEndian : Bool} {space : AddrSpace} {s : Processor T}
    (reached : Reached bigEndian m space s) : s.machine.Guarded bigEndian :=
  (Machine.reached_intact reached).running.guarded

-- lw $0,0($0), and behind it a system call.
def loadCall : Machine :=
  let m := loaded 0x8c000000 fun _ => 7
  {m with mainMemory := storeBytes m.mainMemory 4 (wordBytes false 0x0000000c)}

theorem loadCall_traps : ∃ m entry, (loadCall.withRegisters (AddrSpace.initRegisters ⟨[],1⟩)).oneInstruction false = .ok m ∧
    m.oneInstruction false = .error (.raised .SyscallException entry) ∧ (entry.returns 5).registers PCReg = 8 ∧
    (entry.returns 5).registers ResultReg = 5 ∧ (entry.returns 5).registers 0 = 0 :=
  ⟨_,_,rfl,rfl,rfl,rfl,rfl⟩

-- The load and the call are executed, and behind the return the thread is switched out, and
-- in again at an interrupt.
theorem register_file_called : ∃ s : Processor Bool, Reached false loadCall ⟨[],1⟩ s ∧ s.machine.registers ResultReg = 5 ∧
    s.machine.registers PCReg = 8 ∧ s.machine.registers 0 = 0 ∧ s.machine.Guarded false := by
  obtain ⟨m,entry,loads,traps,pc,result,base⟩ := loadCall_traps
  have called : Reached (T := Bool) false loadCall ⟨[],1⟩ ⟨entry.returns 5,fun _ => none⟩ :=
    ((Reached.start.step (.instruction loads)).step (.exception traps)).step (.syscall 5)
  have switched := ((called.step (.save true)).step .interrupt).step (.restore true rfl)
  exact ⟨_,switched,result,pc,base,register_file switched⟩

end Nachos.Mips
