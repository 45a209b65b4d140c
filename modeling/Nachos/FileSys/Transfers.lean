import Nachos.FileSys.Sessions
import Nachos.Library.Loop

-- The programs of fstest.cc on top of the file system: Copy from UNIX, Print, and the
-- performance test. `fresh n` is the memory that the n-th call of a program finds.
namespace Nachos.FileSys
open FileSystem State
open Directory (keyOf)
open Loop

def TransferSize : Nat := 10

-- Copy: where it begins, and in front of fread with what the UNIX file has left.
inductive Copying where
  | begins (state : State)
  | loops (calls : Nat) (state : State) (fp : List (BitVec 8)) (buffer : Bytes)

-- The UNIX file does not open, Create fails, the file is copied, or an ASSERT fails.
inductive Copied where
  | noInput (state : State)
  | noOutput (state : State)
  | copied (state : State)
  | failed

inductive Printing where
  | begins (state : State)
  | loops (calls : Nat) (state : State) (output : List (BitVec 8))

inductive Printed where
  | unable (state : State)
  | printed (state : State) (output : List (BitVec 8))
  | failed

-- The performance test.
def FileName : Bytes := put (fun _ => 0) 0 [84,101,115,116,70,105,108,101]
def Contents : List (BitVec 8) := [49,50,51,52,53,54,55,56,57,48]
def ContentSize : Nat := Contents.length
def FileSize : Nat := ContentSize * 5000

-- What it complains of.
inductive Trouble where
  | create
  | openToWrite
  | write
  | openToRead
  | read
  | remove
  deriving DecidableEq, Repr

-- In front of FileWrite, in its loop, in front of FileRead, in its loop, and in front of Remove.
inductive Performing where
  | writing (state : State)
  | writes (calls : Nat) (state : State) (i : Nat)
  | reading (calls : Nat) (state : State) (troubles : List Trouble)
  | reads (calls : Nat) (state : State) (i : Nat) (troubles : List Trouble)
  | removing (calls : Nat) (state : State) (troubles : List Trouble)

inductive Performed where
  | done (state : State) (troubles : List Trouble)
  | failed

section
variable (bigEndian : Bool) (fresh : Nat → Nat → Bytes) (name : Bytes) (id : Nat)

def copyNext (from_ : Option (List (BitVec 8))) : Copying → Copying ⊕ Copied
  | .begins state => match from_ with
    | none => .inr (.noInput state)
    | some file => match state.step bigEndian (fresh 0) (.create name (BitVec.ofNat 32 file.length)) with
      | some (.bool true,created) => match created.step bigEndian (fresh 1) (.open_ name id) with
        | some (.opened true,opened) => .inl (.loops 2 opened file (fresh 2 0))
        | _ => .inr .failed
      | some (_,refused) => .inr (.noOutput refused)
      | none => .inr .failed
  | .loops calls state fp buffer =>
    let read := fp.take TransferSize
    if 0 < read.length then
      match state.step bigEndian (fresh calls) (.write id (put buffer 0 read) read.length) with
      | some (_,after) => .inl (.loops (calls + 1) after (fp.drop TransferSize) (put buffer 0 read))
      | none => .inr .failed
    else match state.step bigEndian (fresh calls) (.close id) with
      | some (_,closed) => .inr (.copied closed)
      | none => .inr .failed

def printNext : Printing → Printing ⊕ Printed
  | .begins state => match state.step bigEndian (fresh 0) (.open_ name id) with
    | some (.opened true,opened) => .inl (.loops 1 opened [])
    | some (_,missing) => .inr (.unable missing)
    | none => .inr .failed
  | .loops calls state output => match state.step bigEndian (fresh calls) (.read id TransferSize) with
    | some (.bytes data,after) =>
      if 0 < data.length then .inl (.loops (calls + 1) after (output ++ data))
      else match after.step bigEndian (fresh (calls + 1)) (.close id) with
        | some (_,closed) => .inr (.printed closed output)
        | none => .inr .failed
    | _ => .inr .failed

def performNext : Performing → Performing ⊕ Performed
  | .writing state => match state.step bigEndian (fresh 0) (.create FileName 0) with
    | some (.bool true,created) => match created.step bigEndian (fresh 1) (.open_ FileName id) with
      | some (.opened true,opened) => .inl (.writes 2 opened 0)
      | some (_,missing) => .inl (.reading 2 missing [.openToWrite])
      | none => .inr .failed
    | some (_,refused) => .inl (.reading 1 refused [.create])
    | none => .inr .failed
  | .writes calls state i =>
    if i < FileSize then
      match state.step bigEndian (fresh calls) (.write id (put (fun _ => 0) 0 Contents) ContentSize) with
      | some (.count numBytes,after) =>
        if numBytes < 10 then
          match after.step bigEndian (fresh (calls + 1)) (.close id) with
          | some (_,closed) => .inl (.reading (calls + 2) closed [.write])
          | none => .inr .failed
        else .inl (.writes (calls + 1) after (i + ContentSize))
      | _ => .inr .failed
    else match state.step bigEndian (fresh calls) (.close id) with
      | some (_,closed) => .inl (.reading (calls + 1) closed [])
      | none => .inr .failed
  | .reading calls state troubles => match state.step bigEndian (fresh calls) (.open_ FileName id) with
    | some (.opened true,opened) => .inl (.reads (calls + 1) opened 0 troubles)
    | some (_,missing) => .inl (.removing (calls + 1) missing (troubles ++ [.openToRead]))
    | none => .inr .failed
  | .reads calls state i troubles =>
    if i < FileSize then
      match state.step bigEndian (fresh calls) (.read id ContentSize) with
      | some (.bytes data,after) =>
        -- Ten bytes that strncmp does not tell from Contents are these bytes: none of them is 0.
        if data.length < 10 ∨ data ≠ Contents then
          match after.step bigEndian (fresh (calls + 1)) (.close id) with
          | some (_,closed) => .inl (.removing (calls + 2) closed (troubles ++ [.read]))
          | none => .inr .failed
        else .inl (.reads (calls + 1) after (i + ContentSize) troubles)
      | _ => .inr .failed
    else match state.step bigEndian (fresh calls) (.close id) with
      | some (_,closed) => .inl (.removing (calls + 1) closed troubles)
      | none => .inr .failed
  | .removing calls state troubles => match state.step bigEndian (fresh calls) (.remove FileName) with
    | some (.bool true,removed) => .inr (.done removed troubles)
    | some (_,absent) => .inr (.done absent (troubles ++ [.remove]))
    | none => .inr .failed

end

section
variable {bigEndian : Bool} {s : State} {v : Volume} {id : Nat} {key : Name} {position : Int} {n : Nat}

-- An open file of the map is a live handle.
theorem handle_of (refines : Refines bigEndian s v) (opened : v.handles id = some (key,position)) :
    ∃ h, s.handles id = some h ∧ h.live = true ∧ h.seekPosition = position ∧ 0 ≤ position := by
  rw [refines.handles] at opened
  obtain ⟨h,found,same⟩ := Option.bind_eq_some_iff.mp opened
  split at same
  · rename_i live
    cases same
    exact ⟨h,found,live,rfl,(refines.positions id h found).1⟩
  · cases same

theorem write_call (refines : Refines bigEndian s v) (opened : v.handles id = some (key,position))
    (high : position + n < 2 ^ 31) (fresh : Nat → Bytes) (from_ : Bytes) :
    ∃ after, s.step bigEndian fresh (.write id from_ n) = some (.count (v.amount key n position : Nat),after) ∧
      Refines bigEndian after ((v.overwrite key from_ n position).moveTo id (position + v.amount key n position)) := by
  obtain ⟨h,found,live,rfl,low⟩ := handle_of refines opened
  obtain ⟨result,after,w,stepped,⟨answer,_,_,rfl⟩,next⟩ := step_refines refines fresh (.write id from_ n) ⟨h,⟨found,low,high⟩,live⟩
  have answer : result = .count (v.amount key n h.seekPosition : Nat) :=
    answer.trans (by simp only [Volume.result,opened,Option.map_some,Option.getD_some])
  refine ⟨after,by rw [stepped,answer],?_⟩
  simpa only [Volume.after,opened] using next

theorem read_call (refines : Refines bigEndian s v) (opened : v.handles id = some (key,position))
    (high : position + n < 2 ^ 31) (fresh : Nat → Bytes) :
    ∃ after, s.step bigEndian fresh (.read id n) = some (.bytes (v.bytes key n position),after) ∧
      Refines bigEndian after (v.moveTo id (position + (v.bytes key n position).length)) := by
  obtain ⟨h,found,live,rfl,low⟩ := handle_of refines opened
  obtain ⟨result,after,w,stepped,⟨answer,_,_,rfl⟩,next⟩ := step_refines refines fresh (.read id n) ⟨h,⟨found,low,high⟩,live⟩
  have answer : result = .bytes (v.bytes key n h.seekPosition) :=
    answer.trans (by simp only [Volume.result,opened,Option.map_some,Option.getD_some])
  refine ⟨after,by rw [stepped,answer],?_⟩
  simpa only [Volume.after,opened] using next

theorem close_call (refines : Refines bigEndian s v) (opened : v.handles id = some (key,position)) (fresh : Nat → Bytes) :
    ∃ after, s.step bigEndian fresh (.close id) = some (.nothing,after) ∧ after.handles id = none ∧
      Refines bigEndian after {v with handles := Function.update v.handles id none} := by
  obtain ⟨h,found,_⟩ := handle_of refines opened
  refine ⟨{s with handles := Function.update s.handles id none},?_,Function.update_self ..,closed_refines refines id⟩
  simp only [step,found,Option.bind_eq_bind,Option.bind_some]

theorem open_call (refines : Refines bigEndian s v) (free : s.handles id = none) (fresh : Nat → Bytes) (name : Bytes) :
    ∃ after, s.step bigEndian fresh (.open_ name id) = some (.opened (decide (keyOf name ∈ v.files)),after) ∧
      Refines bigEndian after (if keyOf name ∈ v.files then
        {v with handles := Function.update v.handles id (some (keyOf name,0))} else v) := by
  obtain ⟨result,after,w,stepped,⟨answer,_,_,rfl⟩,next⟩ := step_refines refines fresh (.open_ name id) free
  exact ⟨after,by rw [stepped,show result = .opened (decide (keyOf name ∈ v.files)) from answer],next⟩

-- No file is longer than its sectors.
theorem file_short (refines : Refines bigEndian s v) (found : v.files.lookup key = some data) : data.length ≤ MaxFileSize := by
  obtain ⟨i,inside,used,_,rfl⟩ := (refines.files key data).mp found
  have bound := (refines.inv.layout.headers i inside used).length
  rw [contents_length]
  omega

-- The map while a program has one file open.
def Volume.using (v : Volume) (key : Name) (data : List (BitVec 8)) (id : Nat) (position : Int) : Volume :=
  ⟨v.files.insert key data,Function.update v.handles id (some (key,position))⟩

theorem using_handle (v : Volume) : (v.using key data id position).handles id = some (key,position) := by
  simp [Volume.using]

theorem using_data (v : Volume) : (v.using key data id position).data key = data := by
  simp [Volume.using,Volume.data]

theorem using_moveTo (v : Volume) (next : Int) :
    (v.using key data id position).moveTo id next = v.using key data id next := by
  simp [Volume.using,Volume.moveTo]

-- The bytes of a write in the middle of a file.
theorem mapIdx_middle (done rest read : List (BitVec 8)) (buffer : Bytes) (room : read.length ≤ rest.length) :
    ((done ++ rest).mapIdx fun i byte =>
      if done.length ≤ i ∧ i < done.length + read.length then put buffer 0 read (i - done.length) else byte) =
      done ++ read ++ rest.drop read.length := by
  refine List.ext_getElem ?_ fun i one two => ?_
  · simp only [List.length_mapIdx,List.length_append,List.length_drop]
    omega
  · rw [List.getElem_mapIdx]
    have both : (done ++ read).length = done.length + read.length := List.length_append
    by_cases before : i < done.length
    · rw [if_neg (by omega),List.getElem_append_left before,List.getElem_append_left (by omega),List.getElem_append_left before]
    · by_cases inside : i < done.length + read.length
      · rw [if_pos (by omega),put_zero _ _ (by omega),List.getElem_append_left (by omega),List.getElem_append_right (by omega),
          List.getD_eq_getElem?_getD,List.getElem?_eq_getElem (by omega),Option.getD_some]
      · rw [if_neg (by omega),List.getElem_append_right (by omega),
          List.getElem_append_right (by rw [List.length_append]; omega),List.getElem_drop]
        congr 1
        rw [List.length_append]
        omega

theorem using_overwrite (v : Volume) (done rest read : List (BitVec 8)) (buffer : Bytes) (room : read.length ≤ rest.length) :
    (v.using key (done ++ rest) id done.length).amount key read.length done.length = read.length ∧
    (v.using key (done ++ rest) id done.length).overwrite key (put buffer 0 read) read.length done.length =
      v.using key (done ++ read ++ rest.drop read.length) id done.length := by
  have amount : (v.using key (done ++ rest) id done.length).amount key read.length done.length = read.length := by
    rw [Volume.amount,using_data,List.length_append]
    simp only [Int.toNat_natCast]
    omega
  refine ⟨amount,?_⟩
  rw [Volume.overwrite,amount,using_data]
  simp only [Int.toNat_natCast,mapIdx_middle done rest read buffer room,Volume.using,Finmap.insert_insert]

-- Copy after so many bytes, with the rest of the UNIX file in front of it.
structure Copies (bigEndian : Bool) (v : Volume) (key : Name) (id : Nat) (file done rest fp : List (BitVec 8)) (state : State) :
    Prop where
  parts : done ++ fp = file
  room : rest.length = fp.length
  refines : Refines bigEndian state (v.using key (done ++ rest) id done.length)

def CopyInv (bigEndian : Bool) (v : Volume) (key : Name) (id : Nat) (file : List (BitVec 8)) : Copying → Prop
  | .begins _ => False
  | .loops _ state fp _ => ∃ done rest, Copies bigEndian v key id file done rest fp state

def Copying.left : Copying → Nat
  | .begins _ => 0
  | .loops _ _ fp _ => fp.length

theorem copy_round {fresh : Nat → Nat → Bytes} {name : Bytes} {file : List (BitVec 8)} {c : Copying} (free : v.handles id = none)
    (short : file.length ≤ MaxFileSize) (inv : CopyInv bigEndian v key id file c) :
    (∃ r, copyNext bigEndian fresh name id (some file) c = .inr r ∧
      ∃ after, r = .copied after ∧ after.handles id = none ∧
        Refines bigEndian after {v with files := v.files.insert key file}) ∨
    ∃ d, copyNext bigEndian fresh name id (some file) c = .inl d ∧ CopyInv bigEndian v key id file d ∧ d.left < c.left := by
  cases c with
  | begins state => exact inv.elim
  | loops calls state fp buffer =>
    obtain ⟨done,rest,parts,room,refines⟩ := inv
    have size : MaxFileSize = 3840 := rfl
    have total : done.length + fp.length = file.length := by rw [← List.length_append,parts]
    simp only [copyNext]
    by_cases more : 0 < (fp.take TransferSize).length
    · right
      have fits : (fp.take TransferSize).length ≤ rest.length := by
        rw [List.length_take,room]
        omega
      obtain ⟨after,wrote,next⟩ := write_call (n := (fp.take TransferSize).length) refines (using_handle v) (by omega)
        (fresh calls) (put buffer 0 (fp.take TransferSize))
      obtain ⟨amount,written⟩ := using_overwrite v done rest (fp.take TransferSize) buffer fits
      rw [amount,written,using_moveTo] at next
      refine ⟨.loops (calls + 1) after (fp.drop TransferSize) (put buffer 0 (fp.take TransferSize)),?_,
        ⟨done ++ fp.take TransferSize,rest.drop (fp.take TransferSize).length,?_,?_,?_⟩,?_⟩
      · rw [if_pos more,wrote]
      · rw [List.append_assoc,List.take_append_drop,parts]
      · rw [List.length_drop,List.length_drop,List.length_take,room]
        omega
      · rw [List.length_append]
        exact_mod_cast next
      · simp only [Copying.left,List.length_drop,List.length_take,TransferSize] at *
        omega
    · left
      have none_ : fp = [] := by
        rw [List.length_take,TransferSize] at more
        exact List.eq_nil_of_length_eq_zero (by omega)
      obtain rfl := none_
      obtain rfl := List.eq_nil_of_length_eq_zero room
      rw [List.append_nil] at parts refines
      obtain rfl := parts
      obtain ⟨after,closed,shut,next⟩ := close_call refines (using_handle v) (fresh calls)
      refine ⟨.copied after,?_,after,rfl,shut,?_⟩
      · rw [if_neg more,closed]
      · simpa only [Volume.using,Function.update_idem,← free,Function.update_eq_self] using next

-- What Copy does to the map.
theorem copy_refines (refines : Refines bigEndian s v) (free : s.handles id = none) (fresh : Nat → Nat → Bytes) (name : Bytes)
    (file : List (BitVec 8)) (short : file.length ≤ MaxFileSize) :
    ∃ r, Ends (copyNext bigEndian fresh name id (some file)) (.begins s) r ∧
      if v.Fits (keyOf name) file.length then
        ∃ after, r = .copied after ∧ after.handles id = none ∧
          Refines bigEndian after {v with files := v.files.insert (keyOf name) file}
      else ∃ after, r = .noOutput after ∧ Refines bigEndian after v := by
  have size : MaxFileSize = 3840 := rfl
  have length : (BitVec.ofNat 32 file.length).toInt = file.length := by
    rw [BitVec.toInt_ofNat']
    exact wrap_eq (by omega) (by omega)
  have nat : (BitVec.ofNat 32 file.length).toInt.toNat = file.length := by rw [length,Int.toNat_natCast]
  obtain ⟨disk,found,created,filled,next⟩ := create_refines refines (fresh 0) name
    (show 0 ≤ (BitVec.ofNat 32 file.length).toInt by omega) (by omega)
  rw [nat] at created filled
  have called : s.step bigEndian (fresh 0) (.create name (BitVec.ofNat 32 file.length)) =
      some (.bool (decide (v.Fits (keyOf name) file.length)),{s with disk}) := by
    simp only [step,created,Option.bind_eq_bind,Option.bind_some]
  by_cases fits : v.Fits (keyOf name) file.length
  · simp only [if_pos fits]
    rw [decide_eq_true fits] at called
    rw [Volume.after,nat,if_pos fits] at next
    have closed : v.handles id = none := by rw [refines.handles,free,Option.bind_none]
    obtain ⟨opened,opens,ready⟩ := open_call next free (fresh 1) name
    have there : keyOf name ∈ v.files.insert (keyOf name) found := Finmap.mem_insert.mpr (.inl rfl)
    rw [decide_eq_true there] at opens
    rw [if_pos there] at ready
    have inv : CopyInv bigEndian v (keyOf name) id file (.loops 2 opened file (fresh 2 0)) :=
      ⟨[],found,⟨List.nil_append file,filled,ready⟩⟩
    obtain ⟨r,ends,after,rfl,done⟩ := ends_within Copying.left
      (fun _ inv => @copy_round _ _ _ _ fresh name _ _ closed short inv) inv
    refine ⟨_,.step ?_ ends,after,rfl,done⟩
    simp only [copyNext,called,opens]
  · simp only [if_neg fits]
    rw [decide_eq_false fits] at called
    rw [Volume.after,nat,if_neg fits] at next
    refine ⟨_,.last ?_,_,rfl,next⟩
    simp only [copyNext,called]

theorem insert_found (found : v.files.lookup key = some data) : v.files.insert key data = v.files := by
  refine Finmap.ext_lookup fun other => ?_
  by_cases same : other = key
  · rw [same,found]
    exact Finmap.lookup_insert _
  · exact Finmap.lookup_insert_of_ne _ same

-- What a program that reads a file to its end has behind it.
def Reads (bigEndian : Bool) (v : Volume) (key : Name) (id : Nat) (data output : List (BitVec 8)) (state : State) : Prop :=
  (∃ rest, output ++ rest = data) ∧ Refines bigEndian state (v.using key data id output.length)

theorem read_round (short : data.length ≤ MaxFileSize)
    (reads : Reads bigEndian v key id data output state) (fresh : Nat → Bytes) :
    ∃ after chunk, state.step bigEndian fresh (.read id TransferSize) = some (.bytes chunk,after) ∧
      chunk = (data.drop output.length).take TransferSize ∧ Reads bigEndian v key id data (output ++ chunk) after := by
  obtain ⟨⟨rest,parts⟩,refines⟩ := reads
  have size : MaxFileSize = 3840 := rfl
  have ten : TransferSize = 10 := rfl
  have total : output.length + rest.length = data.length := by rw [← List.length_append,parts]
  obtain ⟨after,read,next⟩ := read_call (n := TransferSize) refines (using_handle v) (by omega) fresh
  have bytes : (v.using key data id output.length).bytes key TransferSize output.length =
      (data.drop output.length).take TransferSize := by
    simp only [Volume.bytes,using_data,Int.toNat_natCast]
  rw [bytes,using_moveTo] at next
  rw [bytes] at read
  have behind : data.drop output.length = rest := by rw [← parts,List.drop_left]
  refine ⟨after,_,read,rfl,⟨rest.drop TransferSize,?_⟩,?_⟩
  · rw [behind,List.append_assoc,List.take_append_drop,parts]
  · rw [List.length_append]
    exact_mod_cast next

theorem close_using (found : v.files.lookup key = some data) (free : v.handles id = none)
    (refines : Refines bigEndian s (v.using key data id position)) (fresh : Nat → Bytes) :
    ∃ after, s.step bigEndian fresh (.close id) = some (.nothing,after) ∧ Refines bigEndian after v := by
  obtain ⟨after,closed,_,next⟩ := close_call refines (using_handle v) fresh
  refine ⟨after,closed,?_⟩
  simpa only [Volume.using,insert_found found,Function.update_idem,← free,Function.update_eq_self] using next

def PrintInv (bigEndian : Bool) (v : Volume) (key : Name) (id : Nat) (data : List (BitVec 8)) : Printing → Prop
  | .begins _ => False
  | .loops _ state output => Reads bigEndian v key id data output state

def Printing.left (data : List (BitVec 8)) : Printing → Nat
  | .begins _ => 0
  | .loops _ _ output => data.length - output.length

theorem print_round {fresh : Nat → Nat → Bytes} {name : Bytes} {p : Printing} (found : v.files.lookup key = some data)
    (free : v.handles id = none) (short : data.length ≤ MaxFileSize) (inv : PrintInv bigEndian v key id data p) :
    (∃ r, printNext bigEndian fresh name id p = .inr r ∧ ∃ after, r = .printed after data ∧ Refines bigEndian after v) ∨
    ∃ q, printNext bigEndian fresh name id p = .inl q ∧ PrintInv bigEndian v key id data q ∧ q.left data < p.left data := by
  cases p with
  | begins state => exact inv.elim
  | loops calls state output =>
    obtain ⟨after,chunk,read,bytes,reads⟩ := read_round short inv (fresh calls)
    obtain ⟨⟨rest,parts⟩,_⟩ := inv
    have total : output.length + rest.length = data.length := by rw [← List.length_append,parts]
    have amount : chunk.length = min TransferSize rest.length := by
      rw [bytes,List.length_take,List.length_drop]
      omega
    simp only [printNext,read]
    by_cases more : 0 < chunk.length
    · right
      refine ⟨.loops (calls + 1) after (output ++ chunk),by rw [if_pos more],reads,?_⟩
      simp only [Printing.left,List.length_append]
      omega
    · left
      rw [if_neg more]
      have ten : TransferSize = 10 := rfl
      have nothing : chunk = [] := List.eq_nil_of_length_eq_zero (by omega)
      have all : rest = [] := List.eq_nil_of_length_eq_zero (by omega)
      rw [all,List.append_nil] at parts
      obtain ⟨closed,closes,next⟩ := close_using found free reads.2 (fresh (calls + 1))
      exact ⟨.printed closed output,by rw [closes],closed,by rw [parts],next⟩

-- Print gives the bytes of the file, and leaves everything as it is.
theorem print_refines (refines : Refines bigEndian s v) (free : s.handles id = none) (fresh : Nat → Nat → Bytes)
    (name : Bytes) :
    ∃ r, Ends (printNext bigEndian fresh name id) (.begins s) r ∧ match v.files.lookup (keyOf name) with
      | some data => ∃ after, r = .printed after data ∧ Refines bigEndian after v
      | none => ∃ after, r = .unable after ∧ Refines bigEndian after v := by
  have closed : v.handles id = none := by rw [refines.handles,free,Option.bind_none]
  obtain ⟨opened,opens,ready⟩ := open_call refines free (fresh 0) name
  cases found : v.files.lookup (keyOf name) with
  | none =>
    have missing : keyOf name ∉ v.files := Finmap.lookup_eq_none.mp found
    rw [decide_eq_false missing] at opens
    rw [if_neg missing] at ready
    exact ⟨_,.last (by simp only [printNext,opens]),opened,rfl,ready⟩
  | some data =>
    have there : keyOf name ∈ v.files := Finmap.mem_of_lookup_eq_some found
    rw [decide_eq_true there] at opens
    rw [if_pos there] at ready
    have inv : PrintInv bigEndian v (keyOf name) id data (.loops 1 opened []) := by
      refine ⟨⟨data,List.nil_append data⟩,?_⟩
      simpa only [Volume.using,insert_found found,List.length_nil,Nat.cast_zero] using ready
    obtain ⟨r,ends,after,rfl,done⟩ := ends_within (Printing.left data)
      (fun _ inv => @print_round _ _ _ _ _ fresh name _ found closed (file_short refines found) inv) inv
    exact ⟨_,.step (by simp only [printNext,opens]) ends,after,rfl,done⟩

-- Whatever was done before, in any number of sessions: Copy finds room exactly when the map
-- has it, changes that one file, and Print gives the bytes of the UNIX file back.
theorem copied_file_prints {log : List Entry} (path : Sessions bigEndian log s) (free : s.handles id = none)
    (file : List (BitVec 8)) (short : file.length ≤ MaxFileSize) :
    ∃ v, Refines bigEndian s v ∧ ∀ (fresh : Nat → Nat → Bytes) (name : Bytes),
      ∃ r, Ends (copyNext bigEndian fresh name id (some file)) (.begins s) r ∧
        if v.Fits (keyOf name) file.length then
          ∃ after, r = .copied after ∧ Refines bigEndian after {v with files := v.files.insert (keyOf name) file} ∧
            ∀ fresh : Nat → Nat → Bytes, ∃ last, Ends (printNext bigEndian fresh name id) (.begins after) (.printed last file) ∧
              Refines bigEndian last {v with files := v.files.insert (keyOf name) file}
        else ∃ after, r = .noOutput after ∧ Refines bigEndian after v := by
  obtain ⟨v,_,refines⟩ := sessions_refine path
  refine ⟨v,refines,fun fresh name => ?_⟩
  obtain ⟨r,ends,outcome⟩ := copy_refines refines free fresh name file short
  refine ⟨r,ends,?_⟩
  by_cases fits : v.Fits (keyOf name) file.length
  · rw [if_pos fits] at outcome ⊢
    obtain ⟨after,copied,shut,next⟩ := outcome
    refine ⟨after,copied,next,fun fresh => ?_⟩
    obtain ⟨p,prints,printed⟩ := print_refines next shut fresh name
    rw [Finmap.lookup_insert] at printed
    obtain ⟨last,rfl,same⟩ := printed
    exact ⟨last,prints,same⟩
  · rw [if_neg fits] at outcome ⊢
    exact outcome

end

-- Three bytes, on a disk that has just been formatted.
theorem copied_file_prints_three : ∃ s after last, Sessions false [] s ∧
    Ends (copyNext false (fun _ _ => zeros) (letter 97) 0 (some [1,2,3])) (.begins s) (.copied after) ∧
    Refines false after {Volume.empty with files := Finmap.insert (keyOf (letter 97)) [1,2,3] ∅} ∧
    Ends (printNext false (fun _ _ => zeros) (letter 97) 0) (.begins after) (.printed last [1,2,3]) := by
  obtain ⟨fs,disk,formats,_⟩ := format_spec false zeros fun _ => zeros
  have start : Sessions false [] ⟨fs,disk,fun _ => none⟩ := .start formats
  have empty := format_refines formats
  obtain ⟨v,refines,copies⟩ := copied_file_prints start (show State.handles ⟨fs,disk,fun _ => none⟩ 0 = none from rfl) [1,2,3] (by decide)
  obtain rfl := refines_unique refines empty
  obtain ⟨r,ends,outcome⟩ := copies (fun _ _ => zeros) (letter 97)
  have fits : Volume.empty.Fits (keyOf (letter 97)) ([1,2,3] : List (BitVec 8)).length := by decide
  rw [if_pos fits] at outcome
  obtain ⟨after,rfl,next,prints⟩ := outcome
  obtain ⟨last,printed,_⟩ := prints fun _ _ => zeros
  exact ⟨_,after,last,start,ends,next,printed⟩

section
variable {bigEndian : Bool} {s : State} {v : Volume} {id : Nat} {key : Name} {data output : List (BitVec 8)}

-- So many more steps of the test end as the rest of it does.
def Leads (next : Performing → Performing ⊕ Performed) (p q : Performing) : Prop := ∀ r, Ends next q r → Ends next p r

theorem leads_step {next : Performing → Performing ⊕ Performed} {p q t : Performing} (goes : next p = .inl q) (rest : Leads next q t) :
    Leads next p t := fun r ends => .step goes (rest r ends)

-- FileRead never comes to the end of its loop: no file is as long.
theorem read_loop (bigEndian : Bool) (fresh : Nat → Nat → Bytes) (found : v.files.lookup (keyOf FileName) = some data)
    (short : data.length ≤ MaxFileSize) (free : v.handles id = none)
    (reads : Reads bigEndian v (keyOf FileName) id data output s) (calls : Nat) (troubles : List Trouble) :
    ∃ calls' after, Leads (performNext bigEndian fresh id) (.reads calls s output.length troubles)
        (.removing calls' after (troubles ++ [Trouble.read])) ∧ Refines bigEndian after v := by
  induction left : data.length - output.length using Nat.strongRecOn generalizing output s calls with
  | ind left ih =>
    obtain ⟨after,chunk,read,bytes,next⟩ := read_round short reads (fresh calls)
    obtain ⟨⟨rest,parts⟩,_⟩ := reads
    have total : output.length + rest.length = data.length := by rw [← List.length_append,parts]
    have size : MaxFileSize = 3840 := rfl
    have more : output.length < FileSize := by
      have whole : FileSize = 50000 := rfl
      omega
    by_cases bad : chunk.length < 10 ∨ chunk ≠ Contents
    · obtain ⟨closed,closes,same⟩ := close_using found free next.2 (fresh (calls + 1))
      refine ⟨calls + 2,closed,leads_step ?_ fun _ ends => ends,same⟩
      simp only [performNext,if_pos more,show (ContentSize : Int) = TransferSize from rfl,read,if_pos bad,closes]
    · rw [not_or] at bad
      have ten : chunk.length = 10 := by
        rw [not_not.mp bad.2]
        rfl
      have amount : chunk.length ≤ rest.length := by
        rw [bytes,List.length_take,List.length_drop]
        omega
      have both : (output ++ chunk).length = output.length + ContentSize := by
        rw [List.length_append,ten]
        rfl
      obtain ⟨calls',last,leads,same⟩ := ih (data.length - (output ++ chunk).length) (by rw [List.length_append]; omega)
        next (calls + 1) rfl
      rw [both] at leads
      refine ⟨calls',last,leads_step ?_ leads,same⟩
      simp only [performNext,if_pos more,show (ContentSize : Int) = TransferSize from rfl,read,if_neg (not_or.mpr bad)]

-- What FileRead complains of.
def readTroubles (v : Volume) : List Trouble := if keyOf FileName ∈ v.files then [.read] else [.openToRead]

theorem fileRead_leads (refines : Refines bigEndian s v) (free : s.handles id = none) (fresh : Nat → Nat → Bytes) (calls : Nat)
    (troubles : List Trouble) :
    ∃ calls' after, Leads (performNext bigEndian fresh id) (.reading calls s troubles)
        (.removing calls' after (troubles ++ readTroubles v)) ∧ Refines bigEndian after v := by
  have closed : v.handles id = none := by rw [refines.handles,free,Option.bind_none]
  obtain ⟨opened,opens,ready⟩ := open_call refines free (fresh calls) FileName
  cases found : v.files.lookup (keyOf FileName) with
  | none =>
    have missing : keyOf FileName ∉ v.files := Finmap.lookup_eq_none.mp found
    rw [decide_eq_false missing] at opens
    rw [if_neg missing] at ready
    rw [readTroubles,if_neg missing]
    exact ⟨calls + 1,opened,leads_step (by simp only [performNext,opens]) fun _ ends => ends,ready⟩
  | some data =>
    have there : keyOf FileName ∈ v.files := Finmap.mem_of_lookup_eq_some found
    rw [decide_eq_true there] at opens
    rw [if_pos there] at ready
    rw [readTroubles,if_pos there]
    have reads : Reads bigEndian v (keyOf FileName) id data [] opened := by
      refine ⟨⟨data,List.nil_append data⟩,?_⟩
      simpa only [Volume.using,insert_found found,List.length_nil,Nat.cast_zero] using ready
    obtain ⟨calls',after,leads,same⟩ := read_loop bigEndian fresh found (file_short refines found) closed reads (calls + 1) troubles
    exact ⟨calls',after,leads_step (by simp only [performNext,opens,List.length_nil]) leads,same⟩

-- FileWrite creates an empty file, and an empty file takes no byte.
theorem fileWrite_leads (refines : Refines bigEndian s v) (free : s.handles id = none) (fresh : Nat → Nat → Bytes) :
    ∃ calls after, if v.Fits (keyOf FileName) 0 then
        Leads (performNext bigEndian fresh id) (.writing s) (.reading calls after [.write]) ∧ after.handles id = none ∧
          Refines bigEndian after {v with files := v.files.insert (keyOf FileName) []}
      else Leads (performNext bigEndian fresh id) (.writing s) (.reading calls after [.create]) ∧ after.handles id = none ∧
        Refines bigEndian after v := by
  obtain ⟨disk,found,created,filled,next⟩ := create_refines refines (fresh 0) FileName
    (show 0 ≤ (0 : BitVec 32).toInt by decide) (by decide)
  have called : s.step bigEndian (fresh 0) (.create FileName 0) =
      some (.bool (decide (v.Fits (keyOf FileName) 0)),{s with disk}) := by
    simp only [step,created,Option.bind_eq_bind,Option.bind_some]
    rfl
  by_cases fits : v.Fits (keyOf FileName) 0
  · simp only [if_pos fits]
    rw [decide_eq_true fits] at called
    have empty : found = [] := List.eq_nil_of_length_eq_zero filled
    rw [Volume.after,show (0 : BitVec 32).toInt.toNat = 0 from rfl,if_pos fits,empty] at next
    obtain ⟨opened,opens,ready⟩ := open_call next free (fresh 1) FileName
    have there : keyOf FileName ∈ v.files.insert (keyOf FileName) [] := Finmap.mem_insert.mpr (.inl rfl)
    rw [decide_eq_true there] at opens
    rw [if_pos there] at ready
    have ready : Refines bigEndian opened (v.using (keyOf FileName) [] id 0) := ready
    obtain ⟨written,wrote,after⟩ := write_call (n := ContentSize) ready (using_handle v) (by decide) (fresh 2)
      (put (fun _ => 0) 0 Contents)
    have amount : (v.using (keyOf FileName) [] id 0).amount (keyOf FileName) ContentSize 0 = 0 := by
      rw [Volume.amount,using_data]
      rfl
    have same : (v.using (keyOf FileName) [] id 0).overwrite (keyOf FileName) (put (fun _ => 0) 0 Contents) ContentSize 0 =
        v.using (keyOf FileName) [] id 0 := by
      rw [Volume.overwrite,using_data,List.mapIdx_nil]
      simp only [Volume.using,Finmap.insert_insert]
    rw [amount,same,using_moveTo] at after
    rw [amount] at wrote
    obtain ⟨closed,closes,shut,last⟩ := close_call after (using_handle v) (fresh 3)
    have before : v.handles id = none := by rw [refines.handles,free,Option.bind_none]
    refine ⟨4,closed,leads_step (q := .writes 2 opened 0) ?_ (leads_step ?_ fun _ ends => ends),shut,?_⟩
    · simp only [performNext,called,opens]
    · simp only [performNext,show 0 < FileSize by decide,if_true,wrote,Nat.cast_zero,show (0 : Int) < 10 by decide,closes]
    · simpa only [Volume.using,Function.update_idem,← before,Function.update_eq_self] using last
  · simp only [if_neg fits]
    rw [decide_eq_false fits] at called
    rw [Volume.after,show (0 : BitVec 32).toInt.toNat = 0 from rfl,if_neg fits] at next
    exact ⟨1,{s with disk},leads_step (by simp only [performNext,called]) fun _ ends => ends,free,next⟩

-- Taking a new file away again.
theorem remove_new (refines : Refines bigEndian s v) (absent : key ∉ v.files) (data : List (BitVec 8)) :
    (⟨(v.files.insert key data).erase key,fun id => (v.handles id).filter fun h => h.1 ≠ key⟩ : Volume) = v := by
  have files : (v.files.insert key data).erase key = v.files := by
    refine Finmap.ext_lookup fun other => ?_
    by_cases same : other = key
    · rw [same,Finmap.lookup_erase,Finmap.lookup_eq_none.mpr absent]
    · rw [Finmap.lookup_erase_ne same,Finmap.lookup_insert_of_ne _ same]
  have handles : (fun id => (v.handles id).filter fun h => h.1 ≠ key) = v.handles := by
    funext id
    cases opened : v.handles id with
    | none => rfl
    | some h =>
      obtain ⟨h',found,live,_⟩ := handle_of refines opened
      obtain ⟨same,_,_,_,_,_,there⟩ := handle_file refines found live
      rw [opened] at same
      cases same
      have differs : h'.key ≠ key := by
        rintro rfl
        exact absent (Finmap.mem_of_lookup_eq_some there)
      simp [Option.filter,differs]
  rw [files,handles]

-- The performance test always ends, and has then removed TestFile, whoever made it, and changed
-- nothing else. It never transfers what it means to: the file it creates is empty.
theorem performance_test_fails {log : List Entry} (path : Sessions bigEndian log s) (free : s.handles id = none) :
    ∃ v, Refines bigEndian s v ∧ ∀ fresh : Nat → Nat → Bytes, ∃ after troubles,
      Ends (performNext bigEndian fresh id) (.writing s) (.done after troubles) ∧
      Refines bigEndian after (v.after [] (.remove FileName)) ∧
      troubles = if v.Fits (keyOf FileName) 0 then [.write,.read] else
        if keyOf FileName ∈ v.files then [.create,.read] else [.create,.openToRead,.remove] := by
  obtain ⟨v,_,refines⟩ := sessions_refine path
  refine ⟨v,refines,fun fresh => ?_⟩
  obtain ⟨calls,written,writes⟩ := fileWrite_leads refines free fresh
  by_cases fits : v.Fits (keyOf FileName) 0
  · simp only [if_pos fits] at writes ⊢
    obtain ⟨leads,shut,next⟩ := writes
    have there : keyOf FileName ∈ v.files.insert (keyOf FileName) [] := Finmap.mem_insert.mpr (.inl rfl)
    obtain ⟨calls',read,leads',same⟩ := fileRead_leads next shut fresh calls [.write]
    obtain ⟨after,removed,last⟩ := remove_refines same (fresh calls') FileName []
    rw [decide_eq_true there] at removed
    rw [Volume.after,if_pos there] at last
    refine ⟨after,[.write,.read],leads _ (leads' _ (.last ?_)),?_,rfl⟩
    · simp only [performNext,removed,readTroubles,if_pos there,List.cons_append,List.nil_append]
    · rw [Volume.after,if_neg fits.1]
      rw [remove_new refines fits.1] at last
      exact last
  · simp only [if_neg fits] at writes ⊢
    obtain ⟨leads,shut,next⟩ := writes
    obtain ⟨calls',read,leads',same⟩ := fileRead_leads next shut fresh calls [.create]
    obtain ⟨after,removed,last⟩ := remove_refines same (fresh calls') FileName []
    by_cases there : keyOf FileName ∈ v.files
    · rw [decide_eq_true there] at removed
      refine ⟨after,[.create,.read],leads _ (leads' _ (.last ?_)),last,by rw [if_pos there]⟩
      simp only [performNext,removed,readTroubles,if_pos there,List.cons_append,List.nil_append]
    · rw [decide_eq_false there] at removed
      refine ⟨after,[.create,.openToRead,.remove],leads _ (leads' _ (.last ?_)),last,by rw [if_neg there]⟩
      simp only [performNext,removed,readTroubles,if_neg there,List.cons_append,List.nil_append]

end

-- On a disk that has just been formatted.
theorem performance_test_fails_formatted : ∃ s after, Sessions false [] s ∧
    Ends (performNext false (fun _ _ => zeros) 0) (.writing s) (.done after [.write,.read]) ∧
      Refines false after Volume.empty := by
  obtain ⟨fs,disk,formats,_⟩ := format_spec false zeros fun _ => zeros
  have start : Sessions false [] ⟨fs,disk,fun _ => none⟩ := .start formats
  have empty := format_refines formats
  obtain ⟨v,refines,performs⟩ := performance_test_fails start (show State.handles ⟨fs,disk,fun _ => none⟩ 0 = none from rfl)
  obtain rfl := refines_unique refines empty
  obtain ⟨after,troubles,ends,kept,rfl⟩ := performs fun _ _ => zeros
  have fits : Volume.empty.Fits (keyOf FileName) 0 := by decide
  rw [if_pos fits] at ends
  rw [Volume.after,if_neg fits.1] at kept
  exact ⟨_,after,start,ends,kept⟩

end Nachos.FileSys
