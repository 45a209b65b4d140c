import Mathlib.Tactic.IntervalCases
import Nachos.Mips.Memory

-- Words, shorts and their bytes, on hosts of either kind.
namespace Nachos.Mips
variable (bigEndian : Bool)

theorem nativeWord_wordBytes (word : BitVec 32) :
    nativeWord bigEndian ((wordBytes bigEndian word).getD 0 0) ((wordBytes bigEndian word).getD 1 0)
      ((wordBytes bigEndian word).getD 2 0) ((wordBytes bigEndian word).getD 3 0) = word := by
  have whole : word.extractLsb' 24 8 ++ word.extractLsb' 16 8 ++ word.extractLsb' 8 8 ++ word.extractLsb' 0 8 = word := by
    apply BitVec.eq_of_getLsbD_eq
    intro i bound
    simp only [BitVec.getLsbD_append,BitVec.getLsbD_extractLsb']
    by_cases one : i < 8
    · simp [one]
    · by_cases two : i < 16
      · simp [one,show i - 8 < 8 by omega,show 8 + (i - 8) = i by omega]
      · by_cases three : i < 24
        · simp [one,show ¬i - 8 < 8 by omega,show i - 8 - 8 < 8 by omega,show 16 + (i - 8 - 8) = i by omega]
        · simp [one,show ¬i - 8 < 8 by omega,show ¬i - 8 - 8 < 8 by omega,show i - 8 - 8 - 8 < 8 by omega,
            show 24 + (i - 8 - 8 - 8) = i by omega]
  cases bigEndian with
  | false => exact whole
  | true => exact whole

theorem append_parts (b0 b1 b2 b3 : BitVec 8) :
    (b3 ++ b2 ++ b1 ++ b0 : BitVec 32).extractLsb' 0 8 = b0 ∧ (b3 ++ b2 ++ b1 ++ b0 : BitVec 32).extractLsb' 8 8 = b1 ∧
    (b3 ++ b2 ++ b1 ++ b0 : BitVec 32).extractLsb' 16 8 = b2 ∧ (b3 ++ b2 ++ b1 ++ b0 : BitVec 32).extractLsb' 24 8 = b3 := by
  refine ⟨?_,?_,?_,?_⟩
  all_goals
    apply BitVec.eq_of_getLsbD_eq
    intro i bound
    simp only [BitVec.getLsbD_append,BitVec.getLsbD_extractLsb',bound]
  · simp [bound]
  · simp [show ¬8 + i < 8 by omega,bound]
  · simp [show ¬16 + i < 8 by omega,show ¬16 + i - 8 < 8 by omega,show 16 + i - 8 - 8 = i by omega,bound]
  · simp [show ¬24 + i < 8 by omega,show ¬24 + i - 8 < 8 by omega,show ¬24 + i - 8 - 8 < 8 by omega,
      show 24 + i - 8 - 8 - 8 = i by omega]

theorem wordBytes_nativeWord (b0 b1 b2 b3 : BitVec 8) :
    wordBytes bigEndian (nativeWord bigEndian b0 b1 b2 b3) = [b0,b1,b2,b3] := by
  cases bigEndian with
  | false =>
    obtain ⟨one,two,three,four⟩ := append_parts b0 b1 b2 b3
    simp only [wordBytes,nativeWord,Bool.false_eq_true,if_false,one,two,three,four]
  | true =>
    obtain ⟨one,two,three,four⟩ := append_parts b3 b2 b1 b0
    simp only [wordBytes,nativeWord,if_true,one,two,three,four]
    rfl

-- The bytes of a value, the lowest first.
def byteOf (value : BitVec 32) (i : Nat) : BitVec 8 := value.extractLsb' (8 * i) 8

theorem value_bytes (value : BitVec 32) : byteOf value 3 ++ byteOf value 2 ++ byteOf value 1 ++ byteOf value 0 = value :=
  nativeWord_wordBytes false value

theorem swap_word (b0 b1 b2 b3 : BitVec 8) : WordToHost true (b0 ++ b1 ++ b2 ++ b3) = b3 ++ b2 ++ b1 ++ b0 := by
  unfold WordToHost
  rw [if_pos rfl]
  apply BitVec.eq_of_getLsbD_eq
  intro i small
  simp only [BitVec.getLsbD_append,BitVec.getLsbD_or,BitVec.getLsbD_and,BitVec.getLsbD_shiftLeft,BitVec.getLsbD_ushiftRight]
  interval_cases i <;> simp

theorem swap_short (b0 b1 : BitVec 8) : ShortToHost true (b0 ++ b1) = b1 ++ b0 := by
  unfold ShortToHost
  rw [if_pos rfl]
  apply BitVec.eq_of_getLsbD_eq
  intro i small
  simp only [BitVec.getLsbD_append,BitVec.getLsbD_or,BitVec.getLsbD_and,BitVec.getLsbD_shiftLeft,BitVec.getLsbD_ushiftRight]
  interval_cases i <;> simp

-- The conversion between the host and the machine goes by the bytes in memory.
theorem host_word (b0 b1 b2 b3 : BitVec 8) :
    WordToHost bigEndian (nativeWord bigEndian b0 b1 b2 b3) = b3 ++ b2 ++ b1 ++ b0 := by
  cases bigEndian with
  | false => rfl
  | true => exact swap_word b0 b1 b2 b3

theorem host_short (b0 b1 : BitVec 8) : ShortToHost bigEndian (nativeShort bigEndian b0 b1) = b1 ++ b0 := by
  cases bigEndian with
  | false => rfl
  | true => exact swap_short b0 b1

theorem machine_word (value : BitVec 32) : wordBytes bigEndian (WordToHost bigEndian value) =
    [byteOf value 0,byteOf value 1,byteOf value 2,byteOf value 3] := by
  have native : WordToHost bigEndian value =
      nativeWord bigEndian (byteOf value 0) (byteOf value 1) (byteOf value 2) (byteOf value 3) := by
    cases bigEndian with
    | false => exact (value_bytes value).symm
    | true =>
      conv_lhs => rw [← value_bytes value]
      exact swap_word _ _ _ _
  rw [native,wordBytes_nativeWord]

theorem low_short (value : BitVec 32) : (value &&& 0xffff).truncate 16 = byteOf value 1 ++ byteOf value 0 := by
  apply BitVec.eq_of_getLsbD_eq
  intro i small
  simp only [BitVec.truncate_eq_setWidth,BitVec.getLsbD_setWidth,BitVec.getLsbD_and,BitVec.getLsbD_append,byteOf,
    BitVec.getLsbD_extractLsb']
  interval_cases i <;> simp

theorem short_parts (b0 b1 : BitVec 8) :
    (b1 ++ b0 : BitVec 16).extractLsb' 0 8 = b0 ∧ (b1 ++ b0 : BitVec 16).extractLsb' 8 8 = b1 := by
  refine ⟨?_,?_⟩
  all_goals
    apply BitVec.eq_of_getLsbD_eq
    intro i bound
    simp only [BitVec.getLsbD_append,BitVec.getLsbD_extractLsb',bound]
  · simp [bound]
  · simp [show ¬8 + i < 8 by omega]

theorem machine_short (value : BitVec 32) :
    shortBytes bigEndian (ShortToHost bigEndian ((value &&& 0xffff).truncate 16)) = [byteOf value 0,byteOf value 1] := by
  rw [low_short]
  cases bigEndian with
  | false =>
    obtain ⟨one,two⟩ := short_parts (byteOf value 0) (byteOf value 1)
    simp only [shortBytes,ShortToHost,Bool.false_eq_true,if_false,one,two]
  | true =>
    obtain ⟨one,two⟩ := short_parts (byteOf value 1) (byteOf value 0)
    rw [swap_short]
    simp only [shortBytes,if_true,one,two]
    rfl

theorem byteOf_zeroExtend (short : BitVec 16) (inside : i < 2) :
    byteOf (short.zeroExtend 32) i = short.extractLsb' (8 * i) 8 := by
  apply BitVec.eq_of_getLsbD_eq
  intro j small
  simp only [byteOf,BitVec.getLsbD_extractLsb',BitVec.truncate_eq_setWidth,BitVec.getLsbD_setWidth]
  simp [show 8 * i + j < 32 by omega]

theorem low_byte (value : BitVec 32) : (value &&& 0xff).truncate 8 = byteOf value 0 := by
  apply BitVec.eq_of_getLsbD_eq
  intro i small
  simp only [BitVec.truncate_eq_setWidth,BitVec.getLsbD_setWidth,BitVec.getLsbD_and,byteOf,BitVec.getLsbD_extractLsb']
  interval_cases i <;> simp

theorem storeBytes_apply (memory : Nat → BitVec 8) (address : Nat) (bytes : List (BitVec 8)) (place : Nat) :
    storeBytes memory address bytes place =
      if address ≤ place ∧ place < address + bytes.length then bytes.getD (place - address) 0 else memory place := by
  induction bytes generalizing memory address with
  | nil =>
    rw [if_neg (by simp only [List.length_nil]; omega)]
    rfl
  | cons byte rest ih =>
    rw [storeBytes,ih]
    by_cases later : address + 1 ≤ place ∧ place < address + 1 + rest.length
    · rw [if_pos later,if_pos (by simp only [List.length_cons]; omega)]
      rw [show place - address = place - (address + 1) + 1 by omega,List.getD_cons_succ]
    · rw [if_neg later,Function.update_apply]
      by_cases here : place = address
      · rw [if_pos here,if_pos (by simp only [List.length_cons]; omega),here,Nat.sub_self]
        rfl
      · rw [if_neg here,if_neg (by simp only [List.length_cons]; omega)]

namespace Machine
variable {m stored : Machine} {physAddr size : Nat} {value : BitVec 32}

-- What a write puts into memory.
theorem place_bytes (sizes : size = 1 ∨ size = 2 ∨ size = 4) (m : Machine) (physAddr : Nat) (value : BitVec 32) :
    m.place bigEndian physAddr value size =
      .ok {m with mainMemory := storeBytes m.mainMemory physAddr ((List.range size).map (byteOf value))} := by
  rcases sizes with rfl | rfl | rfl
  · simp only [place,low_byte]
    rfl
  · simp only [place,machine_short]
    rfl
  · simp only [place,machine_word]
    rfl

-- What a read finds there.
theorem fetch_bytes (sizes : size = 1 ∨ size = 2 ∨ size = 4) (found : m.fetch bigEndian physAddr size = .ok value)
    (inside : i < size) : byteOf value i = m.mainMemory (physAddr + i) := by
  rcases sizes with rfl | rfl | rfl
  · simp only [fetch,Except.ok.injEq] at found
    subst found
    have zero : i = 0 := by omega
    subst zero
    apply BitVec.eq_of_getLsbD_eq
    intro j small
    simp [byteOf,BitVec.getLsbD_signExtend,small]
    omega
  · simp only [fetch,host_short,Except.ok.injEq] at found
    subst found
    obtain ⟨one,two⟩ := short_parts (m.mainMemory physAddr) (m.mainMemory (physAddr + 1))
    rw [byteOf_zeroExtend _ inside]
    interval_cases i
    · exact one
    · exact two
  · simp only [fetch,host_word,Except.ok.injEq] at found
    subst found
    obtain ⟨one,two,three,four⟩ := append_parts (m.mainMemory physAddr) (m.mainMemory (physAddr + 1))
      (m.mainMemory (physAddr + 2)) (m.mainMemory (physAddr + 3))
    interval_cases i
    · exact one
    · exact two
    · exact three
    · exact four

end Machine
end Nachos.Mips
