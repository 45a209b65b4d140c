import Nachos.BitMap
import Nachos.Library.Simulation

-- The operations of the bitmap in any order, and the set they work on.
namespace Nachos.BitMap
open Simulation

inductive Op where
  | mark (which : Int)
  | clear (which : Int)
  | test (which : Int)
  | find
  | numClear
  deriving DecidableEq, Repr

inductive Answer where
  | done
  | truth (b : Bool)
  | number (i : Int)
  deriving DecidableEq, Repr

def perform (b : BitMap) : Op → Option (BitMap × Answer)
  | .mark which => (b.mark which).map (·,.done)
  | .clear which => (b.clear which).map (·,.done)
  | .test which => (b.test which).map (b,.truth ·)
  | .find => b.find.map fun (b,i) => (b,.number i)
  | .numClear => b.numClear.map (b,.number ·)

-- What the assertions ask of an argument.
def Op.InRange (nitems : Nat) : Op → Prop
  | .mark which => 0 ≤ which ∧ which < nitems
  | .clear which => 0 ≤ which ∧ which < nitems
  | .test which => 0 ≤ which ∧ which < nitems
  | _ => True

-- The same operations on a subset of 0..nitems-1.
inductive OnSet (nitems : Nat) : Finset Nat → Op → Answer → Finset Nat → Prop where
  | mark (which : Nat) : OnSet nitems used (.mark which) .done (insert which used)
  | clear (which : Nat) : OnSet nitems used (.clear which) .done (used.erase which)
  | test (which : Nat) : OnSet nitems used (.test which) (.truth (decide (which ∈ used))) used
  | finds (least : Nat) (inside : least < nitems) (free : least ∉ used) (before : ∀ i < least, i ∈ used) :
      OnSet nitems used .find (.number least) (insert least used)
  | full (all : ∀ i < nitems, i ∈ used) : OnSet nitems used .find (.number (-1)) used
  | numClear : OnSet nitems used .numClear (.number (Finset.range nitems \ used).card) used

-- The words of the map stand for the set.
structure Represents (nitems : Nat) (b : BitMap) (used : Finset Nat) : Prop where
  size : b.numBits = nitems
  bits : b.marked = used

section
variable {b : BitMap} {used : Finset Nat} {nitems i : Nat}

theorem mem_marked : i ∈ b.marked ↔ i < b.numBits ∧ b.bit i = true := by
  simp [marked]

theorem marked_setBit (inside : i < b.numBits) : (b.setBit i).marked = insert i b.marked := by
  ext j
  rw [Finset.mem_insert,mem_marked,mem_marked,numBits_setBit]
  constructor
  · rintro ⟨bound,set⟩
    rw [bit_setBit b bound] at set
    by_cases same : j = i
    · exact .inl same
    · exact .inr ⟨bound,by simpa [same] using set⟩
  · rintro (rfl | ⟨bound,set⟩)
    · exact ⟨inside,by simp [bit_setBit b inside]⟩
    · exact ⟨bound,by simp [bit_setBit b bound,set]⟩

theorem marked_clearBit (b : BitMap) (i : Nat) : (b.clearBit i).marked = b.marked.erase i := by
  ext j
  rw [Finset.mem_erase,mem_marked,mem_marked,numBits_clearBit]
  constructor
  · rintro ⟨bound,set⟩
    rw [bit_clearBit b bound] at set
    by_cases same : j = i
    · simp [same] at set
    · exact ⟨same,bound,by simpa [same] using set⟩
  · rintro ⟨differs,bound,set⟩
    exact ⟨bound,by simp [bit_clearBit b bound,differs,set]⟩

theorem clearBits_eq (b : BitMap) : b.clearBits = Finset.range b.numBits \ b.marked := by
  ext j
  rw [mem_clearBits,Finset.mem_sdiff,Finset.mem_range,mem_marked]
  cases b.bit j <;> simp

-- Each operation does on the words what it does on the set.
theorem perform_on_set (b : BitMap) (used : Finset Nat) (op : Op) (rep : Represents nitems b used)
    (ranged : op.InRange nitems) :
    ∃ after answer next, perform b op = some (after,answer) ∧ OnSet nitems used op answer next ∧
      Represents nitems after next := by
  obtain ⟨rfl,rfl⟩ := rep
  cases op with
  | mark which =>
    obtain ⟨i,rfl⟩ := Int.eq_ofNat_of_zero_le ranged.1
    have inside : i < b.numBits := by exact_mod_cast ranged.2
    exact ⟨b.setBit i,.done,_,by simp [perform,mark_nat inside],.mark i,rfl,marked_setBit inside⟩
  | clear which =>
    obtain ⟨i,rfl⟩ := Int.eq_ofNat_of_zero_le ranged.1
    have inside : i < b.numBits := by exact_mod_cast ranged.2
    exact ⟨b.clearBit i,.done,_,by simp [perform,clear_nat inside],.clear i,rfl,marked_clearBit b i⟩
  | test which =>
    obtain ⟨i,rfl⟩ := Int.eq_ofNat_of_zero_le ranged.1
    have inside : i < b.numBits := by exact_mod_cast ranged.2
    have truth : b.bit i = decide (i ∈ b.marked) := by
      rw [Bool.eq_iff_iff,decide_eq_true_eq,mem_marked]
      exact ⟨fun set => ⟨inside,set⟩,And.right⟩
    exact ⟨b,.truth (b.bit i),_,by simp [perform,test_nat inside],by rw [truth]; exact .test i,rfl,rfl⟩
  | find =>
    rcases find_cases b with ⟨failed,all⟩ | ⟨first,found,inside,free,before⟩
    · exact ⟨b,.number (-1),_,by simp [perform,failed],.full fun i inside => mem_marked.mpr ⟨inside,all i inside⟩,rfl,rfl⟩
    · refine ⟨b.setBit first,.number first,_,by simp [perform,found],?_,rfl,marked_setBit inside⟩
      refine .finds first inside (by simp [mem_marked,free]) fun i below => ?_
      exact mem_marked.mpr ⟨Nat.lt_trans below inside,before i below⟩
  | numClear =>
    refine ⟨b,.number b.clearBits.card,_,by simp [perform,numClear_count],?_,rfl,rfl⟩
    rw [clearBits_eq]
    exact .numClear

-- Finds one after another, where there is room for them.
theorem finds_distinct (k : Nat) (used after : Finset Nat) (found : List Answer)
    (ran : Explains (OnSet nitems) used (List.replicate k .find) found after)
    (room : k ≤ (Finset.range nitems \ used).card) :
    ∃ values : List Nat, found = values.map (fun i : Nat => Answer.number i) ∧ values.Nodup ∧
      ∀ i ∈ values, i < nitems ∧ i ∉ used := by
  induction k generalizing used found with
  | zero =>
    cases ran
    exact ⟨[],rfl,List.nodup_nil,by simp⟩
  | succ k ih =>
    rw [List.replicate_succ] at ran
    cases ran with
    | cons one rest =>
      cases one with
      | full all =>
        have none : Finset.range nitems \ used = ∅ := by
          rw [Finset.sdiff_eq_empty_iff_subset]
          exact fun i inside => all i (Finset.mem_range.mp inside)
        rw [none,Finset.card_empty] at room
        omega
      | finds least inside free before =>
        have less : Finset.range nitems \ insert least used = (Finset.range nitems \ used).erase least := by
          ext i
          simp only [Finset.mem_sdiff,Finset.mem_insert,Finset.mem_erase]
          tauto
        have member : least ∈ Finset.range nitems \ used := Finset.mem_sdiff.mpr ⟨Finset.mem_range.mpr inside,free⟩
        have left : k ≤ (Finset.range nitems \ insert least used).card := by
          rw [less,Finset.card_erase_of_mem member]
          omega
        obtain ⟨values,same,distinct,clear⟩ := ih _ _ rest left
        refine ⟨least :: values,by rw [same]; rfl,?_,?_⟩
        · exact List.nodup_cons.mpr ⟨fun again => (clear least again).2 (Finset.mem_insert_self _ _),distinct⟩
        · intro i where_
          cases List.mem_cons.mp where_ with
          | inl same => exact same ▸ ⟨inside,free⟩
          | inr later =>
            have one := clear i later
            exact ⟨one.1,fun already => one.2 (Finset.mem_insert_of_mem already)⟩

end

-- The bitmap is a subset of 0..nitems-1 that starts empty, whatever was in its words.
theorem bitmap_refines_set (nitems : Nat) (words : List (BitVec 32))
    (sized : words.length = divRoundUp nitems BitsInWord) (ops : List Op) (ranged : ∀ op ∈ ops, op.InRange nitems) :
    ∃ start b found used clear, new nitems words sized = some start ∧ answers perform start ops = some (b,found) ∧
      Explains (OnSet nitems) ∅ ops found used ∧ (∀ i ∈ used, i < nitems) ∧
      b.numClear = some clear ∧ ∀ k ≤ clear, ∃ after, ∃ values : List Nat,
        answers perform b (List.replicate k .find) = some (after,values.map fun i : Nat => Answer.number i) ∧
          values.Nodup ∧ ∀ i ∈ values, i < nitems ∧ b.test i = some false := by
  obtain ⟨start,made,size,empty⟩ := new_empty nitems words sized
  have begins : Represents nitems start ∅ := by
    refine ⟨size,Finset.eq_empty_of_forall_notMem fun i member => ?_⟩
    have marked := mem_marked.mp member
    rw [empty i (size ▸ marked.1)] at marked
    exact absurd marked.2 (by decide)
  have step : ∀ (b : BitMap) (used : Finset Nat) (op : Op), Represents nitems b used → op.InRange nitems → _ :=
    fun b used op => perform_on_set b used op
  obtain ⟨b,found,used,ran,explained,rep⟩ := answers_explained _ step begins ranged
  have count : b.clearBits.card = (Finset.range nitems \ used).card := by
    rw [clearBits_eq,rep.bits,rep.size]
  refine ⟨start,b,found,used,_,made,ran,explained,?_,numClear_count b,?_⟩
  · intro i member
    rw [← rep.bits,mem_marked,rep.size] at member
    exact member.1
  · intro k room
    rw [count] at room
    obtain ⟨after,answer,next,went,finds,_⟩ := answers_explained (List.replicate k Op.find) step rep
      (fun op member => by rw [List.eq_of_mem_replicate member]; trivial)
    obtain ⟨values,same,distinct,clear⟩ := finds_distinct k used next answer finds room
    refine ⟨after,values,by rw [went,same],distinct,fun i member => ?_⟩
    have free := clear i member
    have inside : i < b.numBits := by
      rw [rep.size]
      exact free.1
    rw [test_nat inside]
    refine ⟨free.1,congrArg some ?_⟩
    rw [← rep.bits,mem_marked] at free
    simpa [inside] using free.2

-- Two words, the second one partial, with all their bits set at first.
theorem bitmap_refines_set_two : ∃ start b found used clear,
    new 33 [-1,-1] (by decide) = some start ∧
      answers perform start [.mark 32,.find,.mark 1,.find,.clear 32,.test 32,.numClear] = some (b,found) ∧
      Explains (OnSet 33) ∅ [.mark 32,.find,.mark 1,.find,.clear 32,.test 32,.numClear] found used ∧
      (∀ i ∈ used, i < 33) ∧
      b.numClear = some clear ∧ ∀ k ≤ clear, ∃ after, ∃ values : List Nat,
        answers perform b (List.replicate k .find) = some (after,values.map fun i : Nat => Answer.number i) ∧
          values.Nodup ∧ ∀ i ∈ values, i < 33 ∧ b.test i = some false := by
  refine bitmap_refines_set 33 [-1,-1] (by decide) _ ?_
  intro op member
  simp only [List.mem_cons,List.not_mem_nil,or_false] at member
  rcases member with rfl | rfl | rfl | rfl | rfl | rfl | rfl <;> simp [Op.InRange]

end Nachos.BitMap
