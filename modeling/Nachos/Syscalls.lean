import Nachos.Table

-- The file system calls of exception.cc on the table of open files of an address
-- space. What they use of the simulated memory, the heap, the console and the file
-- system is a parameter.
namespace Nachos.Syscalls

def ConsoleInput : Int := 0
def ConsoleOutput : Int := 1
def MaxOpenFiles : Nat := 256

-- `newChars` and `copyin` may not return: the first throws, the second repeats a
-- read that fails. `newChars` says whether the pointer is not NULL, `copyin` gives
-- `none` for its result -1, and `copyout` says whether its result is not -1.
structure Host (σ F : Type) where
  newChars : σ → Int → Option (σ × Bool)
  copyin : σ → Int → Int → Option (σ × Option (List UInt8))
  copyout : σ → Int → Int → List UInt8 → σ × Bool
  openFile : σ → List UInt8 → σ × Option F
  write : σ → F → List UInt8 → Int → σ
  read : σ → F → Int → σ × Int × List UInt8
  delete : σ → F → σ
  scanf : σ → σ × List UInt8

-- The open file `f` has been given the id, a call has looked the id up, and Close
-- has been called with the id.
inductive Event (F : Type) where
  | opened (id : Int) (f : F)
  | looked (id : Int) (found : Option F)
  | closed (id : Int)
  deriving DecidableEq, Repr

structure Process (σ F : Type) where
  host : σ
  fileTable : Table F
  printed : List String

inductive Syscall where
  | open_ (vaddr len : Int)
  | write (vaddr len id : Int)
  | read (vaddr len id : Int)
  | close (fd : Int)
  deriving DecidableEq, Repr

variable (H : Host σ F)

def Process.print (p : Process σ F) (text : String) : Process σ F := {p with printed := p.printed ++ [text]}

-- Each call gives the process after it, its result, and what it did to the table,
-- newest first. `none` means that the call does not return.
def Open_Syscall (p : Process σ F) (vaddr len : Int) : Option (Process σ F × Int × List (Event F)) := do
  let (host,some_) ← H.newChars p.host (len + 1)
  let p := {p with host}
  if !some_ then some (p.print "Can't allocate kernel buffer in Open\n",-1,[])
  else
    let (host,copied) ← H.copyin p.host vaddr len
    let p := {p with host}
    match copied with
    | none => some (p.print "Bad pointer passed to Open\n",-1,[])
    | some buf =>
      let (host,f) := H.openFile p.host buf
      let p := {p with host}
      match f with
      | none => some (p,-1,[])
      | some f =>
        let (fileTable,id) ← p.fileTable.put (some f)
        let p := {p with fileTable}
        if id = -1 then some ({p with host := H.delete p.host f},id,[])
        else some (p,id,[.opened id f])

def Write_Syscall (p : Process σ F) (vaddr len id : Int) : Option (Process σ F × Int × List (Event F)) :=
  if id = ConsoleInput then some (p,0,[])
  else do
    let (host,some_) ← H.newChars p.host len
    let p := {p with host}
    if !some_ then some (p.print "Error allocating kernel buffer for write!\n",0,[])
    else
      let (host,copied) ← H.copyin p.host vaddr len
      let p := {p with host}
      match copied with
      | none => some (p.print "Bad pointer passed to to write: data not written\n",0,[])
      | some buf =>
        if id = ConsoleOutput then some (p.print (String.ofList (buf.map fun byte => Char.ofNat byte.toNat)),0,[])
        else
          let found ← p.fileTable.get id
          match found with
          | some f => some ({p with host := H.write p.host f buf len},0,[.looked id (some f)])
          | none => some (p.print "Bad OpenFileId passed to Write\n",0,[.looked id none])

def Read_Syscall (p : Process σ F) (vaddr len id : Int) : Option (Process σ F × Int × List (Event F)) :=
  if id = ConsoleOutput then some (p,-1,[])
  else do
    let (host,some_) ← H.newChars p.host len
    let p := {p with host}
    if !some_ then some (p.print "Error allocating kernel buffer in Read\n",-1,[])
    else if id = ConsoleInput then
      let (host,buf) := H.scanf p.host
      let (host,copied) := H.copyout host vaddr len buf
      let p := {p with host}
      some (if copied then p else p.print "Bad pointer passed to Read: data not copied\n",len,[])
    else
      let found ← p.fileTable.get id
      match found with
      | some f =>
        let (host,len,buf) := H.read p.host f len
        let p := {p with host}
        if len > 0 then
          let (host,copied) := H.copyout p.host vaddr len buf
          let p := {p with host}
          some (if copied then p else p.print "Bad pointer passed to Read: data not copied\n",len,
            [.looked id (some f)])
        else some (p,len,[.looked id (some f)])
      | none => some (p.print "Bad OpenFileId passed to Read\n",-1,[.looked id none])

def Close_Syscall (p : Process σ F) (fd : Int) : Option (Process σ F × Int × List (Event F)) := do
  let (fileTable,f) ← p.fileTable.remove fd
  let p := {p with fileTable}
  match f with
  | some f => some ({p with host := H.delete p.host f},0,[.closed fd])
  | none => some (p.print "Tried to close an unopen file\n",0,[.closed fd])

def Process.call (p : Process σ F) : Syscall → Option (Process σ F × Int × List (Event F))
  | .open_ vaddr len => Open_Syscall H p vaddr len
  | .write vaddr len id => Write_Syscall H p vaddr len id
  | .read vaddr len id => Read_Syscall H p vaddr len id
  | .close fd => Close_Syscall H p fd

-- The part of the constructor of AddrSpace that fills the table.
def addrSpace (words : List (BitVec 32)) (sized : words.length = divRoundUp MaxOpenFiles BitsInWord)
    (garbage : Nat → Option F) : Option (Table F) := do
  let table ← Table.new MaxOpenFiles words sized garbage
  let (table,_) ← table.put none
  let (table,_) ← table.put none
  some table

-- Any sequence of calls of the allowed kind, with what they did, newest first.
inductive Runs (allowed : Syscall → Prop) (start : Process σ F) : List (Event F) → Process σ F → Prop where
  | start : Runs allowed start [] start
  | call : Runs allowed start log p → allowed syscall → p.call H syscall = some (after,result,events) →
      Runs allowed start (events ++ log) after

-- The file a program has under an id: the one it was opened for, until Close.
def current : List (Event F) → Int → Option F
  | [] => fun _ => none
  | .opened i f :: older => fun id => if i = id then some f else current older id
  | .looked _ _ :: older => current older
  | .closed i :: older => fun id => if i = id then none else current older id

-- What a call can do to the table.
inductive Touches (table : Table F) : Syscall → Table F → List (Event F) → Prop where
  | keeps : Touches table syscall table []
  | looks {id : Int} : id ≠ ConsoleInput → id ≠ ConsoleOutput → table.get id = some found →
      Touches table syscall table [.looked id found]
  | full : table.put (some f) = some (after,-1) → Touches table syscall after []
  | opens {id : Int} : table.put (some f) = some (after,id) → id ≠ -1 → Touches table syscall after [.opened id f]
  | closes : table.remove fd = some (after,found) → Touches table (.close fd) after [.closed fd]

section
variable {H : Host σ F} {p after : Process σ F} {id : Int}

theorem open_touches (called : Open_Syscall H p vaddr len = some (after,result,events)) :
    Touches p.fileTable (.open_ vaddr len) after.fileTable events := by
  simp only [Open_Syscall,Option.bind_eq_bind,Option.bind_eq_some_iff,Prod.exists] at called
  obtain ⟨host,some_,_,called⟩ := called
  split at called
  · cases called
    exact .keeps
  · simp only [Option.bind_eq_some_iff,Prod.exists] at called
    obtain ⟨host',copied,_,called⟩ := called
    cases copied with
    | none =>
      cases called
      exact .keeps
    | some buf =>
      dsimp only at called
      cases found : (H.openFile host' buf).2 with
      | none =>
        simp only [found] at called
        cases called
        exact .keeps
      | some f =>
        simp only [found,Option.bind_eq_some_iff,Prod.exists] at called
        obtain ⟨table,id,put,called⟩ := called
        split at called
        · rename_i full
          cases called
          exact .full (by rw [put,full])
        · rename_i given
          cases called
          exact .opens put given

theorem write_touches (called : Write_Syscall H p vaddr len id = some (after,result,events)) :
    Touches p.fileTable (.write vaddr len id) after.fileTable events := by
  unfold Write_Syscall at called
  split at called
  · cases called
    exact .keeps
  · rename_i notInput
    simp only [Option.bind_eq_bind,Option.bind_eq_some_iff,Prod.exists] at called
    obtain ⟨host,some_,_,called⟩ := called
    split at called
    · cases called
      exact .keeps
    · simp only [Option.bind_eq_some_iff,Prod.exists] at called
      obtain ⟨host',copied,_,called⟩ := called
      cases copied with
      | none =>
        cases called
        exact .keeps
      | some buf =>
        dsimp only at called
        split at called
        · cases called
          exact .keeps
        · rename_i notOutput
          simp only [Option.bind_eq_some_iff] at called
          obtain ⟨found,get,called⟩ := called
          cases found <;> cases called <;> exact .looks notInput notOutput get

theorem read_touches (called : Read_Syscall H p vaddr len id = some (after,result,events)) :
    Touches p.fileTable (.read vaddr len id) after.fileTable events := by
  unfold Read_Syscall at called
  split at called
  · cases called
    exact .keeps
  · rename_i notOutput
    simp only [Option.bind_eq_bind,Option.bind_eq_some_iff,Prod.exists] at called
    obtain ⟨host,some_,_,called⟩ := called
    split at called
    · cases called
      exact .keeps
    · split at called
      · cases called
        split <;> exact .keeps
      · rename_i notInput
        simp only [Option.bind_eq_some_iff] at called
        obtain ⟨found,get,called⟩ := called
        cases found with
        | none =>
          cases called
          exact .looks notInput notOutput get
        | some f =>
          dsimp only at called
          split at called
          · cases called
            split <;> exact .looks notInput notOutput get
          · cases called
            exact .looks notInput notOutput get

theorem close_touches (called : Close_Syscall H p fd = some (after,result,events)) :
    Touches p.fileTable (.close fd) after.fileTable events := by
  simp only [Close_Syscall,Option.bind_eq_bind,Option.bind_eq_some_iff,Prod.exists] at called
  obtain ⟨table,found,removed,called⟩ := called
  cases found <;> cases called <;> exact .closes removed

theorem call_touches (called : p.call H syscall = some (after,result,events)) :
    Touches p.fileTable syscall after.fileTable events := by
  cases syscall with
  | open_ vaddr len => exact open_touches called
  | write vaddr len id => exact write_touches called
  | read vaddr len id => exact read_touches called
  | close fd => exact close_touches called

end

-- The two slots of the console are in use, and every other slot is in use exactly
-- for the file a program has under its number.
structure Kept (log : List (Event F)) (table : Table F) : Prop where
  size : table.size = MaxOpenFiles
  console : table.used 0 = true ∧ table.used 1 = true
  used : ∀ slot : Nat, 2 ≤ slot → slot < MaxOpenFiles → table.used slot = (current log slot).isSome
  stored : ∀ (slot : Nat) f, current log slot = some f → table.table slot = some f
  range : ∀ id f, current log id = some f → ∃ slot : Nat, id = slot ∧ 2 ≤ slot ∧ slot < MaxOpenFiles

theorem put_cases (table : Table F) (f : Option F) :
    (table.put f = some (table,-1) ∧ ∀ j, j < table.size → table.used j = true) ∨
    (∃ (first : Nat) (after : Table F), table.put f = some (after,(first : Int)) ∧ first < table.size ∧
      table.used first = false ∧ (∀ j, j < first → table.used j = true) ∧ after.size = table.size ∧
      after.table = Function.update table.table first f ∧
      ∀ j, j < table.size → after.used j = (decide (j = first) || table.used j)) := by
  rcases table.reserve_cases with ⟨full,all⟩ | ⟨first,after,found,bound,free,before,sizes,contents,bits⟩
  · exact Or.inl ⟨by simp [Table.put,full,Table.store],all⟩
  · refine Or.inr ⟨first,after.store first f,?_,bound,free,before,by simpa using sizes,?_,by simpa using bits⟩
    · simp [Table.put,found]
    · simp [Table.store,show (first : Int) ≠ -1 by omega,contents]

-- The call does not close the console.
def Spares : Syscall → Prop
  | .close fd => fd ≠ ConsoleInput ∧ fd ≠ ConsoleOutput
  | _ => True

section
variable {log : List (Event F)} {table after : Table F} {id : Int}

theorem put_kept (kept : Kept log table) (put : table.put (some f) = some (after,id)) (given : id ≠ -1) :
    ∃ slot : Nat, id = slot ∧ 2 ≤ slot ∧ Kept (.opened id f :: log) after := by
  rcases put_cases table (some f) with ⟨full,_⟩ | ⟨first,table',found,bound,free,_,sizes,contents,bits⟩
  · rw [full] at put
    cases put
    exact absurd rfl given
  · rw [found] at put
    cases put
    rw [kept.size] at bound bits
    -- Slots 0 and 1 are in use, so the first free one is another.
    have late : 2 ≤ first := by
      by_contra early
      have cases_ : first = 0 ∨ first = 1 := by omega
      rcases cases_ with rfl | rfl
      · simp [kept.console.1] at free
      · simp [kept.console.2] at free
    refine ⟨first,rfl,late,by rw [sizes]; exact kept.size,?_,?_,?_,?_⟩
    · constructor
      · rw [bits 0 (by decide),kept.console.1]
        simp
      · rw [bits 1 (by decide),kept.console.2]
        simp
    · intro slot from_ inside
      rw [bits slot inside,kept.used slot from_ inside]
      by_cases same : slot = first
      · simp [current,same]
      · simp [current,same,show (first : Int) ≠ slot by omega]
    · intro slot g holds
      by_cases same : slot = first
      · subst same
        simp only [current,if_true,Option.some.injEq] at holds
        simp [contents,holds]
      · simp only [current,show (first : Int) ≠ slot by omega,if_false] at holds
        simpa [contents,same] using kept.stored slot g holds
    · intro id g holds
      by_cases same : (first : Int) = id
      · exact ⟨first,same.symm,late,bound⟩
      · simp only [current,same,if_false] at holds
        exact kept.range id g holds

theorem remove_kept (kept : Kept log table) (removed : table.remove fd = some (after,found))
    (spares : Spares (.close fd)) : Kept (.closed fd :: log) after := by
  unfold Table.remove at removed
  split at removed
  · rename_i valid
    obtain ⟨i,rfl,inside⟩ := Table.valid_nat valid
    have apart : 2 ≤ i := by
      obtain ⟨first,second⟩ := spares
      simp only [ConsoleInput,ConsoleOutput] at first second
      omega
    rcases Table.take_cases inside with ⟨nothing,free⟩ | ⟨table',taken,_,sizes,contents,bits⟩
    · rw [nothing] at removed
      cases removed
      have empty : current log i = none := by
        have here := kept.used i apart (by rw [← kept.size]; exact inside)
        rw [free] at here
        simpa using here.symm
      have same : current (.closed i :: log) = current log := by
        funext id
        by_cases here : (i : Int) = id
        · simp [current,← here,empty]
        · simp [current,here]
      exact ⟨kept.size,kept.console,by rw [same]; exact kept.used,by rw [same]; exact kept.stored,
        by rw [same]; exact kept.range⟩
    · rw [taken] at removed
      cases removed
      rw [kept.size] at inside bits
      refine ⟨by rw [sizes]; exact kept.size,?_,?_,?_,?_⟩
      · constructor
        · rw [bits 0 (by decide),kept.console.1]
          simp
          omega
        · rw [bits 1 (by decide),kept.console.2]
          simp
          omega
      · intro slot from_ within
        rw [bits slot within,kept.used slot from_ within]
        by_cases same : slot = i
        · simp [current,same]
        · simp [current,same,show (i : Int) ≠ slot by omega]
      · intro slot g holds
        have differs : (i : Int) ≠ slot := by
          intro same
          simp [current,same] at holds
        simp only [current,differs,if_false] at holds
        have apart : slot ≠ i := by omega
        simpa [contents,apart] using kept.stored slot g holds
      · intro id g holds
        have differs : (i : Int) ≠ id := by
          intro same
          simp [current,same] at holds
        simp only [current,differs,if_false] at holds
        exact kept.range id g holds
  · rename_i invalid
    cases removed
    have same : current (.closed fd :: log) = current log := by
      funext id
      by_cases here : fd = id
      · subst here
        cases holds : current log fd with
        | none => simp [current]
        | some f =>
          obtain ⟨slot,rfl,_,inside⟩ := kept.range fd f holds
          exact absurd (Table.valid_of_lt (by rw [kept.size]; exact inside)) (by simpa using invalid)
      · simp [current,here]
    exact ⟨kept.size,kept.console,by rw [same]; exact kept.used,by rw [same]; exact kept.stored,
      by rw [same]; exact kept.range⟩

-- The id of an open file finds that file.
theorem Kept.found (kept : Kept log table) (holds : current log id = some f) : table.get id = some (some f) := by
  obtain ⟨slot,rfl,from_,inside⟩ := kept.range id f holds
  rw [Table.get_valid (by rw [kept.size]; exact inside),kept.used slot from_ inside,holds]
  simp [kept.stored slot f holds]

theorem touches_kept (kept : Kept log table) (touches : Touches table syscall after events)
    (spares : Spares syscall) : Kept (events ++ log) after := by
  cases touches with
  | keeps => exact kept
  | looks => exact ⟨kept.size,kept.console,kept.used,kept.stored,kept.range⟩
  | full put =>
    rcases put_cases table (some _) with ⟨full,_⟩ | ⟨first,table',found,_⟩
    · rw [full] at put
      cases put
      exact kept
    · rw [found] at put
      simp only [Option.some.injEq,Prod.mk.injEq] at put
      omega
  | opens put given =>
    obtain ⟨_,_,_,now⟩ := put_kept kept put given
    exact now
  | closes removed => exact remove_kept kept removed spares

end

theorem addrSpace_kept {table : Table F} (words : List (BitVec 32)) (sized : words.length = divRoundUp MaxOpenFiles BitsInWord)
    (garbage : Nat → Option F) (made : addrSpace words sized garbage = some table) : Kept [] table := by
  obtain ⟨fresh,new_,size,_,empty⟩ := Table.new_empty MaxOpenFiles words sized garbage
  simp only [addrSpace,new_,Option.bind_eq_bind,Option.bind_some,Option.bind_eq_some_iff,Prod.exists] at made
  obtain ⟨one,i,first,two,j,second,made⟩ := made
  cases made
  -- The first Put takes slot 0.
  rcases put_cases fresh none with ⟨_,full⟩ | ⟨lowest,after,found,bound,_,before,sizes,_,bits⟩
  · have wrong := full 0 (by rw [size]; decide)
    simp [empty 0 (by decide)] at wrong
  obtain ⟨rfl,rfl⟩ : one = after ∧ i = lowest := by
    rw [found] at first
    cases first
    exact ⟨rfl,rfl⟩
  have none_ : lowest = 0 := by
    by_contra later
    have wrong := before 0 (by omega)
    simp [empty 0 (by decide)] at wrong
  subst none_
  rw [size] at bits sizes
  -- The second takes slot 1.
  rcases put_cases one none with ⟨_,full⟩ | ⟨next,after,found',bound',free',before',sizes',_,bits'⟩
  · have wrong := full 1 (by rw [sizes]; decide)
    rw [bits 1 (by decide)] at wrong
    simp [empty 1 (by decide)] at wrong
  obtain ⟨rfl,rfl⟩ : table = after ∧ j = next := by
    rw [found'] at second
    cases second
    exact ⟨rfl,rfl⟩
  rw [sizes] at bits' sizes'
  have one_ : next = 1 := by
    by_contra other
    by_cases early : next = 0
    · subst early
      rw [bits 0 (by decide)] at free'
      simp at free'
    · have wrong := before' 1 (by omega)
      rw [bits 1 (by decide)] at wrong
      simp [empty 1 (by decide)] at wrong
  subst one_
  refine ⟨sizes',⟨?_,?_⟩,?_,?_,?_⟩
  · rw [bits' 0 (by decide),bits 0 (by decide)]
    simp
  · rw [bits' 1 (by decide)]
    simp
  · intro slot from_ inside
    rw [bits' slot inside,bits slot inside,empty slot inside]
    simp [current]
    omega
  · intro slot f holds
    cases holds
  · intro id f holds
    cases holds

section
variable {H : Host σ F} {start p after : Process σ F} {log : List (Event F)} {id : Int}

-- What Open returns is -1 or the id it has given.
theorem open_result (called : Open_Syscall H p vaddr len = some (after,result,events)) :
    result = -1 ∨ ∃ f, events = [.opened result f] := by
  simp only [Open_Syscall,Option.bind_eq_bind,Option.bind_eq_some_iff,Prod.exists] at called
  obtain ⟨host,some_,_,called⟩ := called
  split at called
  · cases called
    exact Or.inl rfl
  · simp only [Option.bind_eq_some_iff,Prod.exists] at called
    obtain ⟨host',copied,_,called⟩ := called
    cases copied with
    | none =>
      cases called
      exact Or.inl rfl
    | some buf =>
      dsimp only at called
      cases found : (H.openFile host' buf).2 with
      | none =>
        simp only [found] at called
        cases called
        exact Or.inl rfl
      | some f =>
        simp only [found,Option.bind_eq_some_iff,Prod.exists] at called
        obtain ⟨table,id,put,called⟩ := called
        split at called
        · rename_i full
          cases called
          exact Or.inl full
        · cases called
          exact Or.inr ⟨f,rfl⟩

theorem runs_kept (begins : Kept [] start.fileTable) (path : Runs H Spares start log p) : Kept log p.fileTable := by
  induction path with
  | start => exact begins
  | call _ spares called ih => exact touches_kept ih (call_touches called) spares

theorem touches_looked {table after : Table F} (touches : Touches table syscall after events)
    (looked : .looked id found ∈ events) : events = [.looked id found] ∧ table.get id = some found := by
  cases touches with
  | keeps | full => cases looked
  | opens | closes => simp at looked
  | looks _ _ get =>
    simp only [List.mem_singleton,Event.looked.injEq] at looked
    obtain ⟨rfl,rfl⟩ := looked
    exact ⟨rfl,get⟩

-- Every use of an id of an open file has found that file.
theorem runs_looked (begins : Kept [] start.fileTable) (path : Runs H Spares start (newer ++ .looked id found :: older) p)
    (holds : current older id = some f) : found = some f := by
  generalize whole : newer ++ .looked id found :: older = log at path
  induction path generalizing newer with
  | start => simp at whole
  | @call log p syscall after result events prior spares called ih =>
    rcases List.append_eq_append_iff.mp whole with ⟨more,both,rest⟩ | ⟨more,_,rest⟩
    · cases more with
      | nil =>
        have earlier : [] ++ .looked id found :: older = log := by simpa using rest
        exact ih earlier
      | cons event more =>
        -- The use is what this call did.
        simp only [List.cons_append,List.cons.injEq] at rest
        obtain ⟨rfl,rest⟩ := rest
        have member : .looked id found ∈ events := by simp [both]
        obtain ⟨only,get⟩ := touches_looked (call_touches called) member
        obtain ⟨_,rfl⟩ : newer = [] ∧ more = [] := by
          have length := congrArg List.length (both.symm.trans only)
          simp only [List.length_append,List.length_cons,List.length_nil] at length
          exact ⟨List.length_eq_zero_iff.mp (by omega),List.length_eq_zero_iff.mp (by omega)⟩
        rw [rest] at holds
        have there := (runs_kept begins prior).found holds
        exact Option.some.inj (get.symm.trans there)
    · exact ih rest.symm

end

-- A file system in which every name can be opened, and a memory that holds nothing.
def openAnything : Host Unit Nat where
  newChars _ _ := some ((),true)
  copyin _ _ _ := some ((),some [])
  copyout _ _ _ _ := ((),true)
  openFile _ _ := ((),some 5)
  write _ _ _ _ := ()
  read _ _ _ := ((),0,[])
  delete _ _ := ()
  scanf _ := ((),[])

def consoleTable : Option (Table Nat) := addrSpace (List.replicate 8 0) rfl fun _ => none

end Nachos.Syscalls
