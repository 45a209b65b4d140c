import Nachos.FileSys.Directory
import Nachos.Library.Simulation
import Mathlib.Data.Finmap

-- Any sequence of Add, Remove and Find on a directory, and the map from keys to sectors
-- that it keeps.
namespace Nachos.FileSys.Directory
open Simulation

inductive Op where
  | add (wanted : Bytes) (newSector : BitVec 32)
  | remove (wanted : Bytes)
  | find (wanted : Bytes)

inductive Answer where
  | truth (b : Bool)
  | sector (number : Int)
  deriving DecidableEq, Repr

def perform (bigEndian : Bool) (directory : Directory) : Op → Option (Directory × Answer)
  | .add wanted newSector =>
    match directory.add bigEndian wanted newSector with
    | some after => some (after,.truth true)
    | none => some (directory,.truth false)
  | .remove wanted =>
    match directory.remove wanted with
    | some after => some (after,.truth true)
    | none => some (directory,.truth false)
  | .find wanted => some (directory,.sector (directory.find bigEndian wanted))

-- The characters of a name that count.
def keyOf (wanted : Bytes) : List (BitVec 8) := chars FileNameMaxLen wanted

-- At most `size` keys, each with its sector.
abbrev SectorMap := Finmap fun _ : List (BitVec 8) => BitVec 32

inductive OnMap (size : Nat) : SectorMap → Op → Answer → SectorMap → Prop where
  | adds (absent : keyOf wanted ∉ map) (room : map.keys.card < size) :
      OnMap size map (.add wanted newSector) (.truth true) (map.insert (keyOf wanted) newSector)
  | present (there : keyOf wanted ∈ map) : OnMap size map (.add wanted newSector) (.truth false) map
  | full (all : map.keys.card = size) : OnMap size map (.add wanted newSector) (.truth false) map
  | removes (there : keyOf wanted ∈ map) : OnMap size map (.remove wanted) (.truth true) (map.erase (keyOf wanted))
  | absent (absent : keyOf wanted ∉ map) : OnMap size map (.remove wanted) (.truth false) map
  | finds (there : map.lookup (keyOf wanted) = some newSector) :
      OnMap size map (.find wanted) (.sector newSector.toInt) map
  | misses (absent : keyOf wanted ∉ map) : OnMap size map (.find wanted) (.sector (-1)) map

-- The entries in use are the map, each key in one of them.
structure Represents (bigEndian : Bool) (size : Nat) (directory : Directory) (map : SectorMap) : Prop where
  sized : directory.tableSize = size
  distinct : ∀ i < size, ∀ j < size, directory.inUse i = true → directory.inUse j = true →
    directory.key i = directory.key j → i = j
  entries : ∀ key newSector, map.lookup key = some newSector ↔
    ∃ i < size, directory.inUse i = true ∧ directory.key i = key ∧ directory.sector bigEndian i = newSector

def slots (directory : Directory) : Finset Nat := (Finset.range directory.tableSize).filter fun i => directory.inUse i

section
variable {directory after : Directory} {map : SectorMap} {wanted : Bytes} {newSector : BitVec 32} {bigEndian : Bool}
  {size i : Nat} {key : List (BitVec 8)}

theorem mem_slots : i ∈ directory.slots ↔ i < directory.tableSize ∧ directory.inUse i = true := by
  simp [slots]

theorem represents_mem (rep : Represents bigEndian size directory map) :
    key ∈ map ↔ ∃ i < size, directory.inUse i = true ∧ directory.key i = key := by
  rw [Finmap.mem_iff]
  constructor
  · rintro ⟨newSector,found⟩
    obtain ⟨i,inside,used,same,_⟩ := (rep.entries key newSector).mp found
    exact ⟨i,inside,used,same⟩
  · rintro ⟨i,inside,used,same⟩
    exact ⟨_,(rep.entries key _).mpr ⟨i,inside,used,same,rfl⟩⟩

-- As many keys as entries in use.
theorem represents_card (rep : Represents bigEndian size directory map) : map.keys.card = directory.slots.card := by
  have image : map.keys = directory.slots.image directory.key := by
    ext key
    rw [Finmap.mem_keys,represents_mem rep,Finset.mem_image]
    constructor
    · rintro ⟨i,inside,used,same⟩
      exact ⟨i,mem_slots.mpr ⟨rep.sized ▸ inside,used⟩,same⟩
    · rintro ⟨i,member,same⟩
      have slot := mem_slots.mp member
      exact ⟨i,rep.sized ▸ slot.1,slot.2,same⟩
  rw [image,Finset.card_image_of_injOn]
  intro i one j two same
  have first := mem_slots.mp one
  have second := mem_slots.mp two
  rw [rep.sized] at first second
  exact rep.distinct i first.1 j second.1 first.2 second.2 same

-- The entry that FindIndex gives is the one of the key.
theorem represents_findIndex (wanted : Bytes) (rep : Represents bigEndian size directory map) :
    (keyOf wanted ∉ map ∧ directory.findIndex wanted = none) ∨
    ∃ i < size, directory.findIndex wanted = some i ∧ directory.inUse i = true ∧ directory.key i = keyOf wanted ∧
      map.lookup (keyOf wanted) = some (directory.sector bigEndian i) := by
  cases found : directory.findIndex wanted with
  | none =>
    refine .inl ⟨fun there => ?_,rfl⟩
    obtain ⟨i,inside,used,same⟩ := (represents_mem rep).mp there
    exact findIndex_none found (rep.sized ▸ inside) used same
  | some i =>
    have entry := findIndex_some found
    rw [rep.sized] at entry
    exact .inr ⟨i,entry.1,rfl,entry.2.1,entry.2.2,(rep.entries _ _).mpr ⟨i,entry.1,entry.2.1,entry.2.2,rfl⟩⟩

theorem represents_new (bigEndian : Bool) (fresh : Bytes) (size : Nat) :
    Represents bigEndian size (new fresh size) ∅ := by
  have free : ∀ i, (new fresh size).inUse i = false := fun i => by simp [inUse,new]
  refine ⟨rfl,fun i _ j _ used => ?_,fun key newSector => ?_⟩
  · rw [free i] at used
    cases used
  · rw [Finmap.lookup_empty]
    constructor
    · intro found
      cases found
    · rintro ⟨i,_,used,_⟩
      rw [free i] at used
      cases used

theorem represents_enter (rep : Represents bigEndian size directory map) (absent : keyOf wanted ∉ map) (inside : i < size)
    (free : directory.inUse i = false) :
    Represents bigEndian size (directory.enter bigEndian i wanted newSector) (map.insert (keyOf wanted) newSector) := by
  have others : ∀ j, j ≠ i → (directory.enter bigEndian i wanted newSector).inUse j = directory.inUse j := by
    intro j differs
    rw [enter_inUse]
    simp [differs]
  have apart : ∀ j < size, directory.inUse j = true → directory.key j ≠ keyOf wanted :=
    fun j bound used same => absent ((represents_mem rep).mpr ⟨j,bound,used,same⟩)
  refine ⟨rep.sized,?_,?_⟩
  · intro j one k two usedOne usedTwo same
    rw [enter_key,enter_key] at same
    by_cases first : j = i
    · by_cases second : k = i
      · rw [first,second]
      · rw [if_pos first,if_neg second] at same
        rw [others k second] at usedTwo
        exact absurd same.symm (apart k two usedTwo)
    · rw [others j first] at usedOne
      by_cases second : k = i
      · rw [if_neg first,if_pos second] at same
        exact absurd same (apart j one usedOne)
      · rw [others k second] at usedTwo
        rw [if_neg first,if_neg second] at same
        exact rep.distinct j one k two usedOne usedTwo same
  · intro key found
    by_cases same : key = keyOf wanted
    · subst same
      rw [Finmap.lookup_insert]
      constructor
      · intro given
        cases given
        refine ⟨i,inside,?_,?_,?_⟩
        · simp [enter_inUse]
        · rw [enter_key,if_pos rfl]
          rfl
        · rw [enter_sector,if_pos rfl]
      · rintro ⟨j,bound,used,name_,sector_⟩
        by_cases here : j = i
        · rw [enter_sector,if_pos here] at sector_
          rw [sector_]
        · rw [others j here] at used
          rw [enter_key,if_neg here] at name_
          exact absurd name_ (apart j bound used)
    · rw [Finmap.lookup_insert_of_ne _ same,rep.entries]
      constructor
      · rintro ⟨j,bound,used,name_,sector_⟩
        have differs : j ≠ i := by
          rintro rfl
          rw [free] at used
          cases used
        refine ⟨j,bound,by rw [others j differs,used],?_,?_⟩
        · rw [enter_key,if_neg differs,name_]
        · rw [enter_sector,if_neg differs,sector_]
      · rintro ⟨j,bound,used,name_,sector_⟩
        have differs : j ≠ i := by
          rintro rfl
          rw [enter_key,if_pos rfl] at name_
          exact same name_.symm
        rw [others j differs] at used
        rw [enter_key,if_neg differs] at name_
        rw [enter_sector,if_neg differs] at sector_
        exact ⟨j,bound,used,name_,sector_⟩

theorem represents_free (rep : Represents bigEndian size directory map) (inside : i < size)
    (used : directory.inUse i = true) (same : directory.key i = keyOf wanted) :
    Represents bigEndian size (directory.free i) (map.erase (keyOf wanted)) := by
  have still : ∀ j, (directory.free i).inUse j = true ↔ j ≠ i ∧ directory.inUse j = true := by
    intro j
    rw [free_inUse]
    simp
  refine ⟨rep.sized,?_,?_⟩
  · intro j one k two usedOne usedTwo equal
    rw [free_key,free_key] at equal
    exact rep.distinct j one k two ((still j).mp usedOne).2 ((still k).mp usedTwo).2 equal
  · intro key found
    by_cases this : key = keyOf wanted
    · subst this
      rw [Finmap.lookup_erase]
      constructor
      · intro given
        cases given
      · rintro ⟨j,bound,left,name_,_⟩
        have before := (still j).mp left
        rw [free_key,← same] at name_
        exact absurd (rep.distinct j bound i inside before.2 used name_) before.1
    · rw [Finmap.lookup_erase_ne this,rep.entries]
      simp only [free_key,free_sector,still]
      constructor
      · rintro ⟨j,bound,before,name_,sector_⟩
        refine ⟨j,bound,⟨?_,before⟩,name_,sector_⟩
        rintro rfl
        exact this (name_.symm.trans same)
      · rintro ⟨j,bound,before,name_,sector_⟩
        exact ⟨j,bound,before.2,name_,sector_⟩

theorem remove_eq (directory : Directory) (wanted : Bytes) :
    directory.remove wanted = (directory.findIndex wanted).map fun i => directory.free i := by
  unfold remove
  cases directory.findIndex wanted <;> rfl

-- Each operation does on the table what it does on the map.
theorem perform_on_map (directory : Directory) (map : SectorMap) (op : Op)
    (rep : Represents bigEndian size directory map) :
    ∃ after answer next, perform bigEndian directory op = some (after,answer) ∧ OnMap size map op answer next ∧
      Represents bigEndian size after next := by
  cases op with
  | add wanted newSector =>
    rcases represents_findIndex wanted rep with ⟨absent,missing⟩ | ⟨i,inside,found,used,same,held⟩
    · by_cases room : ∃ i < directory.tableSize, directory.inUse i = false
      · obtain ⟨i,bound,free⟩ := room
        obtain ⟨after,added⟩ := add_room bigEndian newSector missing bound free
        obtain ⟨j,inside,free,_,rfl⟩ := add_some added
        rw [rep.sized] at inside
        have more : map.keys.card < size := by
          rw [represents_card rep,← Finset.card_range size]
          refine Finset.card_lt_card (Finset.ssubset_iff.mpr ⟨j,?_,?_⟩)
          · rw [mem_slots,free]
            simp
          · rw [slots,rep.sized]
            exact Finset.insert_subset (Finset.mem_range.mpr inside) (Finset.filter_subset _ _)
        refine ⟨_,.truth true,_,?_,.adds absent more,represents_enter rep absent inside free⟩
        simp only [perform,added]
      · have all : ∀ i < directory.tableSize, directory.inUse i = true := by
          intro i bound
          by_contra free
          exact room ⟨i,bound,by simpa using free⟩
        have card : map.keys.card = size := by
          rw [represents_card rep,slots,Finset.filter_true_of_mem,Finset.card_range,rep.sized]
          exact fun i member => all i (Finset.mem_range.mp member)
        refine ⟨directory,.truth false,map,?_,.full card,rep⟩
        simp only [perform,add_full all]
    · have refused : directory.add bigEndian wanted newSector = none := by
        simp [Directory.add,found]
      refine ⟨directory,.truth false,map,?_,.present (Finmap.mem_of_lookup_eq_some held),rep⟩
      simp only [perform,refused]
  | remove wanted =>
    rcases represents_findIndex wanted rep with ⟨absent,missing⟩ | ⟨i,inside,found,used,same,held⟩
    · refine ⟨directory,.truth false,map,?_,.absent absent,rep⟩
      simp only [perform,remove_eq,missing,Option.map_none]
    · refine ⟨directory.free i,.truth true,_,?_,.removes (Finmap.mem_of_lookup_eq_some held),
        represents_free rep inside used same⟩
      simp only [perform,remove_eq,found,Option.map_some]
  | find wanted =>
    refine ⟨directory,_,map,rfl,?_,rep⟩
    rcases represents_findIndex wanted rep with ⟨absent,missing⟩ | ⟨i,inside,found,used,same,held⟩
    · rw [Directory.find,missing]
      exact .misses absent
    · rw [Directory.find,found]
      exact .finds held

end

-- The directory is a map from keys to sectors with room for `size` of them.
theorem directory_refines_map (bigEndian : Bool) (fresh : Bytes) (size : Nat) (ops : List Op) :
    ∃ after found map, answers (perform bigEndian) (new fresh size) ops = some (after,found) ∧
      Explains (OnMap size) ∅ ops found map ∧ Represents bigEndian size after map := by
  have step : ∀ (directory : Directory) (map : SectorMap) (op : Op),
      Represents bigEndian size directory map → True → _ :=
    fun directory map op rep _ => perform_on_map directory map op rep
  exact answers_explained ops step (represents_new bigEndian fresh size) fun _ _ => trivial

end Nachos.FileSys.Directory
