import Nachos.Library.Transcript
import Nachos.SynchConsole

-- The lines that go through the synchronous console: no line is mixed with another one.
namespace Nachos.SynchConsole
open Monitor Transcript
open ConsoleInput (EOF)

-- What a call of WriteLine has put, and what a call of ReadLine has got.
def Pc.putPart : Pc → Option (List (BitVec 8))
  | .writing line put | .writeTesting _ line put | .writeAsleep _ line put => some (line.take put)
  | _ => none

def Pc.gotPart : Pc → Option (List (BitVec 8))
  | .reading _ line | .readTesting _ _ line | .readAsleep _ line | .readPassed _ line => some line
  | _ => none

-- What the calls reported, oldest first.
def reported {T A : Type} (kind : Event → Option A) (history : List (Entry (Agent T) Mutex Empty Event)) : List A :=
  history.reverse.flatMap fun entry => entry.events.filterMap kind

theorem reported_cons {T A : Type} (kind : Event → Option A) (entry : Entry (Agent T) Mutex Empty Event)
    (history : List (Entry (Agent T) Mutex Empty Event)) :
    reported kind (entry :: history) = reported kind history ++ entry.events.filterMap kind := by
  simp [reported]

def Event.written : Event → Option (List (BitVec 8))
  | .wrote line => some line
  | _ => none

def Event.gotten : Event → Option (BitVec 8)
  | .got c => some c
  | _ => none

def Event.readBy : Event → Option (Nat × List (BitVec 8))
  | .read size line => some (size,line)
  | _ => none

section
variable {T : Type} [DecidableEq T] {s s' : State T} {stream : List (BitVec 8)} {asleep : Agent T → Bool} {t : T}

theorem part_update (s : State T) (part : Pc → Option (List (BitVec 8))) (t : T) (pc : Pc) :
    (fun u => part (Function.update s.pc t pc u)) = Function.update (fun u => part (s.pc u)) t (part pc) := by
  funext u
  by_cases same : u = t
  · subst same; simp
  · simp [same]

-- A step of a thread that leaves its part what it was.
theorem part_same (s : State T) {part : Pc → Option (List (BitVec 8))} {pc : Pc} (same : part pc = part (s.pc t)) :
    (fun u => part (Function.update s.pc t pc u)) = fun u => part (s.pc u) := by
  rw [part_update,same,Function.update_eq_self]

theorem part_wake (s : State T) {part : Pc → Option (List (BitVec 8))} (woken : ∀ pc, part pc.woken = part pc) (thread : Option T) :
    (fun u => part ((wake s thread).pc u)) = fun u => part (s.pc u) := by
  cases thread with
  | none => rfl
  | some t => exact part_same s (woken _)

theorem putPart_active (busy : (s.pc t).putPart ≠ none) : (program T stream).Active s (.thread t) .outputMutex := by
  constructor
  · cases place : s.pc t <;> simp_all [Pc.putPart,program,Pc.held]
  · cases place : s.pc t <;> simp_all [Pc.putPart,program,Pc.site,Site.needs]

theorem gotPart_active (busy : (s.pc t).gotPart ≠ none) : (program T stream).Active s (.thread t) .inputMutex := by
  constructor
  · cases place : s.pc t <;> simp_all [Pc.gotPart,program,Pc.held]
  · cases place : s.pc t <;> simp_all [Pc.gotPart,program,Pc.site,Site.needs]

-- A thread that holds a mutex where its code runs is alone behind it.
theorem put_alone (ready : (program T stream).Ready s asleep (.thread t)) (holds : .outputMutex ∈ (s.pc t).held) :
    ∀ u, u ≠ t → (s.pc u).putPart = none := by
  intro u other
  by_contra busy
  exact ready.alone .outputMutex holds (.thread u) (by simpa using other) (putPart_active busy)

theorem got_alone (ready : (program T stream).Ready s asleep (.thread t)) (holds : .inputMutex ∈ (s.pc t).held) :
    ∀ u, u ≠ t → (s.pc u).gotPart = none := by
  intro u other
  by_contra busy
  exact ready.alone .inputMutex holds (.thread u) (by simpa using other) (gotPart_active busy)

-- At the test of its loop a thread has its part, be it an empty one.
theorem puts_spells (spells : Spells (fun u => (s.pc u).putPart) lines text) (others : ∀ u, u ≠ t → (s.pc u).putPart = none)
    (place : (s.pc t).WritesOn line put) :
    Spells (Function.update (fun u => (s.pc u).putPart) t (some (line.take put))) lines text := by
  rcases place with place | ⟨place,rfl⟩
  · have mine : some (line.take put) = (s.pc t).putPart := by rw [place]; rfl
    rw [mine,Function.update_eq_self]
    exact spells
  · refine spells_begins spells (fun u => ?_) t
    by_cases same : u = t
    · rw [same,place]; rfl
    · exact others u same

theorem gets_spells (spells : Spells (fun u => (s.pc u).gotPart) lines text) (others : ∀ u, u ≠ t → (s.pc u).gotPart = none)
    (place : (s.pc t).ReadsOn size line) :
    Spells (Function.update (fun u => (s.pc u).gotPart) t (some line)) lines text := by
  rcases place with place | ⟨place,rfl⟩
  · have mine : some line = (s.pc t).gotPart := by rw [place]; rfl
    rw [mine,Function.update_eq_self]
    exact spells
  · refine spells_begins spells (fun u => ?_) t
    by_cases same : u = t
    · rw [same,place]; rfl
    · exact others u same

theorem others_update {part : T → Option (List (BitVec 8))} (others : ∀ u, u ≠ t → part u = none) (now : Option (List (BitVec 8))) :
    ∀ u, u ≠ t → Function.update part t now u = none := by
  intro u other
  rw [Function.update_of_ne other]
  exact others u other

-- The display is the lines that were written, and the beginning of the one under way.
def Shows (s : State T) (lines : List (List (BitVec 8))) : Prop := Spells (fun u => (s.pc u).putPart) lines s.display

theorem step_shows (shows_ : Shows s lines) (ready : (program T stream).Ready s asleep agent)
    (changes : Changes s agent s' op events) : Shows s' (lines ++ events.filterMap Event.written) := by
  have quiet : ∀ {s' : State T}, s'.display = s.display → (fun u => (s'.pc u).putPart) = (fun u => (s.pc u).putPart) →
      Shows s' (lines ++ []) := by
    intro s' display part
    rw [List.append_nil,Shows,part,display]
    exact shows_
  cases changes with
  | ends place | writes place | reads place =>
    exact quiet rfl (part_same s (by rw [place]; rfl))
  | @puts t line put c place more _ =>
    have holds : .outputMutex ∈ (s.pc t).held := by rcases place with place | ⟨place,_⟩ <;> simp [place,Pc.held]
    have others := put_alone ready holds
    have here := puts_spells shows_ others place
    have next := spells_extends here (others_update others _) (Function.update_self ..) [c]
    simp only [List.filterMap_nil,List.append_nil,Shows,part_update]
    have taken : (Pc.writeTesting s.putChars line (put + 1)).putPart = some (line.take put ++ [c]) := by
      rw [Pc.putPart,List.take_add_one,more]
      rfl
    rw [taken]
    simpa only [Function.update_idem] using next
  | @wrote t line put place last =>
    have holds : .outputMutex ∈ (s.pc t).held := by rcases place with place | ⟨place,_⟩ <;> simp [place,Pc.held]
    have others := put_alone ready holds
    have whole : line.take put = line := List.take_of_length_le (List.getElem?_eq_none_iff.mp last)
    have here := puts_spells shows_ others place
    rw [whole] at here
    have next := spells_ends here (others_update others _) (Function.update_self ..)
    rw [Function.update_idem] at next
    rw [Shows,part_update]
    exact next
  | writeSleeps place | writePasses place | readSleeps place | readPasses place =>
    exact quiet rfl (part_same s (by rw [place]; rfl))
  | goesOn place =>
    refine quiet rfl (part_same s ?_)
    rcases place with place | ⟨place,_⟩ <;> rw [place] <;> rfl
  | read place =>
    refine quiet rfl (part_same s ?_)
    rcases place with place | ⟨place,_⟩ <;> rw [place] <;> rfl
  | gets place => exact quiet rfl (part_same s (by rw [place]; rfl))
  | done waiting =>
    refine quiet ?_ ((part_wake _ (by intro pc; cases pc <;> rfl) _).trans rfl)
    unfold writeDone wake
    dsimp only
    split <;> rfl
  | quiet => exact quiet rfl rfl
  | arrives empty more =>
    refine quiet ?_ ((part_wake _ (by intro pc; cases pc <;> rfl) _).trans rfl)
    unfold wake
    split <;> rfl

-- The device with the thread that waits for it.
def Pc.phase : Pc → Completion.Phase Unit
  | .writeTesting number _ _ => .testing number ()
  | .writeAsleep number _ _ => .asleep number ()
  | _ => .away

def desk (s : State T) : Completion.Desk T Unit :=
  ⟨s.scheduled,s.outputDone.value,s.outputDone.queue,fun u => (s.pc u).phase⟩

structure Device (s : State T) : Prop where
  stage : ∃ stage, Completion.Fits (desk s) stage
  busy : s.putBusy = true ↔ s.scheduled ≠ []

theorem phase_update (s : State T) (t : T) (pc : Pc) :
    (fun u => (Function.update s.pc t pc u).phase) = Function.update (fun u => (s.pc u).phase) t pc.phase := by
  funext u
  by_cases same : u = t
  · subst same; simp
  · simp [same]

theorem phase_same (s : State T) {pc : Pc} (same : pc.phase = (s.pc t).phase) :
    (fun u => (Function.update s.pc t pc u).phase) = fun u => (s.pc u).phase := by
  rw [phase_update,same,Function.update_eq_self]

theorem fits_moves {d d' : Completion.Desk T Unit} (fits : ∃ stage, Completion.Fits d stage) (moves : Completion.Moves d d' events) :
    ∃ stage, Completion.Fits d' stage := by
  obtain ⟨stage,fits⟩ := fits
  obtain ⟨stage',fits',_⟩ := Completion.step_fits fits moves
  exact ⟨stage',fits'⟩

-- Nobody waits for the device while a thread is at the test of its loop.
theorem writes_away (ready : (program T stream).Ready s asleep (.thread t)) (place : (s.pc t).WritesOn line put) :
    ∀ u, (desk s).phase u = .away := by
  intro u
  have holds : .outputMutex ∈ (s.pc t).held := by rcases place with place | ⟨place,_⟩ <;> simp [place,Pc.held]
  by_cases same : u = t
  · subst same
    rcases place with place | ⟨place,_⟩ <;> simp [desk,place,Pc.phase]
  · have free := put_alone ready holds u same
    show (s.pc u).phase = .away
    cases at_ : s.pc u <;> simp_all [Pc.putPart,Pc.phase]

theorem wake_phase (s : State T) (t : T) :
    (fun u => ((wake s (some t)).pc u).phase) = Function.update (fun u => (s.pc u).phase) t (s.pc t).phase.woken := by
  rw [wake,phase_update]
  congr 1
  cases s.pc t <;> rfl

theorem desk_done (fits : ∃ stage, Completion.Fits (desk s) stage) (waiting : s.scheduled = number :: rest) :
    ∃ stage, Completion.Fits (desk (writeDone s rest)) stage := by
  cases queue : s.outputDone.queue with
  | nil =>
    have after : desk (writeDone s rest) = {desk s with scheduled := rest, value := Signed.wrap 32 ((desk s).value + 1)} := by
      simp [desk,writeDone,Semaphore.v,queue,wake]
    rw [after]
    exact fits_moves fits (.completes waiting queue)
  | cons t later =>
    have after : desk (writeDone s rest) =
        ⟨rest,Signed.wrap 32 ((desk s).value + 1),later,Function.update (desk s).phase t ((desk s).phase t).woken⟩ := by
      simp only [desk,writeDone,Semaphore.v,queue,wake_phase]
      rfl
    rw [after]
    exact fits_moves fits (.wakes waiting queue)

omit [DecidableEq T] in
theorem fits_scheduled {d : Completion.Desk T Unit} (fits : Completion.Fits d stage) (waiting : d.scheduled = number :: rest) :
    rest = [] := by
  cases fits with
  | idle _ scheduled | credited _ _ scheduled | leaving _ _ scheduled => simp [scheduled] at waiting
  | testing _ _ scheduled | asleep _ _ scheduled =>
    rw [scheduled] at waiting
    exact (List.cons.inj waiting).2.symm

theorem step_device (device : Device s) (readers : ∀ t ∈ s.inputAvailable.queue, (s.pc t).phase = .away)
    (ready : (program T stream).Ready s asleep agent) (changes : Changes s agent s' op events) : Device s' := by
  have quiet : ∀ {s' : State T}, s'.putBusy = s.putBusy → s'.scheduled = s.scheduled → s'.outputDone = s.outputDone →
      (fun u => (s'.pc u).phase) = (fun u => (s.pc u).phase) → Device s' := by
    intro s' busy scheduled outputDone phase
    refine ⟨?_,by rw [busy,scheduled]; exact device.busy⟩
    have same : desk s' = desk s := by rw [desk,scheduled,outputDone,phase]; rfl
    rw [same]
    exact device.stage
  cases changes with
  | ends place | writes place | reads place | readSleeps place | readPasses place | gets place =>
    exact quiet rfl rfl rfl (phase_same s (by rw [place]; rfl))
  | wrote place | goesOn place | read place =>
    refine quiet rfl rfl rfl (phase_same s ?_)
    rcases place with place | ⟨place,_⟩ <;> rw [place] <;> rfl
  | @puts t line put c place _ _ =>
    have after : desk {s with
        display := s.display ++ [c]
        putBusy := true
        scheduled := s.scheduled ++ [s.putChars]
        putChars := s.putChars + 1
        pc := Function.update s.pc t (.writeTesting s.putChars line (put + 1))} =
        {desk s with
          scheduled := (desk s).scheduled ++ [s.putChars]
          phase := Function.update (desk s).phase t (.testing s.putChars ())} := by
      simp only [desk,phase_update]
      rfl
    refine ⟨?_,by simp⟩
    rw [after]
    exact fits_moves device.stage (.requests (writes_away ready place))
  | @writeSleeps t number line put place empty =>
    have here : (desk s).phase t = .testing number () := by simp [desk,place,Pc.phase]
    refine ⟨?_,device.busy⟩
    simp only [desk,phase_update]
    exact fits_moves device.stage (.sleeps here empty)
  | @writePasses t number line put place some_ =>
    have here : (desk s).phase t = .testing number () := by simp [desk,place,Pc.phase]
    have through := fits_moves device.stage (.takes here some_)
    have back := fits_moves through (.leaves (Function.update_self ..))
    refine ⟨?_,device.busy⟩
    simp only [Function.update_idem] at back
    simp only [desk,phase_update]
    exact back
  | @done number rest waiting =>
    obtain ⟨stage,fits⟩ := device.stage
    obtain rfl := fits_scheduled fits waiting
    refine ⟨desk_done device.stage waiting,?_⟩
    unfold writeDone wake
    dsimp only
    split <;> simp
  | quiet => exact device
  | arrives empty more =>
    refine quiet ?_ ?_ ?_ ?_
    · unfold wake; split <;> rfl
    · unfold wake; split <;> rfl
    · unfold wake; split <;> rfl
    · cases waiting : s.inputAvailable.queue with
      | nil => simp [Semaphore.v,waiting,wake]
      | cons t later =>
        simp only [Semaphore.v,waiting,wake_phase]
        have away := readers t (by simp [waiting])
        rw [away]
        exact Function.update_eq_self_iff.mpr away.symm

-- Where the one thread behind inputMutex is that waits for a character.
inductive Turn where
  | testing
  | woken
  | asleep
  | passed
  deriving DecidableEq, Repr

def Pc.turn : Pc → Option Turn
  | .readTesting again _ _ => some (if again then .woken else .testing)
  | .readAsleep _ _ => some .asleep
  | .readPassed _ _ => some .passed
  | _ => none

-- The single reader of the keyboard stands for whichever thread it is.
structure Looks (c : ConsoleInput.State) (value : Int) (turn : Option Turn) : Prop where
  semaphore : c.kernel.semaphore () = ⟨value,if turn = some .asleep then [()] else []⟩
  status : c.kernel.status () = if turn = some .asleep then .BLOCKED else .READY
  inside : c.kernel.inside () = if turn = some .asleep ∨ turn = some .woken then some () else none
  passed : c.passed = decide (turn = some .passed)

inductive Seat (s : State T) (c : ConsoleInput.State) : Prop where
  | free : (∀ u, (s.pc u).turn = none) → s.inputAvailable.queue = [] → Looks c s.inputAvailable.value none → Seat s c
  | taken {r : T} (turn : Turn) : (∀ u, u ≠ r → (s.pc u).turn = none) → (s.pc r).turn = some turn →
      s.inputAvailable.queue = (if turn = .asleep then [r] else []) → Looks c s.inputAvailable.value (some turn) → Seat s c

structure Follows (stream : List (BitVec 8)) (s : State T) (got : List (BitVec 8)) (c : ConsoleInput.State) : Prop where
  reached : ConsoleInput.Reached stream c
  incoming : c.incoming = s.incoming
  file : c.file = s.keyboard
  got : c.got = got
  seat : Seat s c

theorem turn_update (s : State T) (t : T) (pc : Pc) (u : T) :
    (Function.update s.pc t pc u).turn = if u = t then pc.turn else (s.pc u).turn := by
  by_cases same : u = t
  · subst same; simp
  · simp [same]

theorem turn_asleep {pc : Pc} (sleeps : pc.turn = some .asleep) : ∃ size line, pc = .readAsleep size line := by
  cases pc with
  | readAsleep size line => exact ⟨size,line,rfl⟩
  | readTesting again size line => cases again <;> cases sleeps
  | _ => cases sleeps

theorem Seat.here {c : ConsoleInput.State} (seat : Seat s c) (place : (s.pc t).turn = some turn) :
    (∀ u, u ≠ t → (s.pc u).turn = none) ∧ s.inputAvailable.queue = (if turn = .asleep then [t] else []) ∧
      Looks c s.inputAvailable.value (some turn) := by
  cases seat with
  | free none_ => rw [none_ t] at place; cases place
  | @taken u turn' others here queue looks =>
    obtain rfl : t = u := by
      by_contra other
      rw [others t other] at place
      cases place
    rw [here] at place
    cases place
    exact ⟨others,queue,looks⟩

omit [DecidableEq T] in
theorem Seat.nobody {c : ConsoleInput.State} (seat : Seat s c) (none_ : ∀ u, (s.pc u).turn = none) :
    s.inputAvailable.queue = [] ∧ Looks c s.inputAvailable.value none := by
  cases seat with
  | free _ queue looks => exact ⟨queue,looks⟩
  | @taken u turn others here => rw [none_ u] at here; cases here

-- Steps elsewhere.
omit [DecidableEq T] in
theorem Seat.same {c : ConsoleInput.State} (seat : Seat s c) (turn : ∀ u, (s'.pc u).turn = (s.pc u).turn)
    (available : s'.inputAvailable = s.inputAvailable) : Seat s' c := by
  cases seat with
  | free none_ queue looks =>
    exact .free (fun u => (turn u).trans (none_ u)) (by rw [available]; exact queue) (by rw [available]; exact looks)
  | @taken t now others here queue looks =>
    exact .taken now (fun u other => (turn u).trans (others u other)) ((turn t).trans here) (by rw [available]; exact queue)
      (by rw [available]; exact looks)

-- The test in P, of a thread that comes there or comes back.
theorem looks_p {c : ConsoleInput.State} (looks : Looks c value (some turn)) (tests : turn = .testing ∨ turn = .woken) :
    ∃ action after, ConsoleInput.step c action = some after ∧ after.incoming = c.incoming ∧ after.file = c.file ∧
      after.got = c.got ∧ Looks after (if value = 0 then value else Signed.wrap 32 (value - 1)) (some (if value = 0 then .asleep else .passed)) := by
  obtain ⟨semaphore,status,inside,passed⟩ := looks
  have awake : c.kernel.status () = .READY := by rcases tests with rfl | rfl <;> simpa using status
  have outside : c.passed = false := by rcases tests with rfl | rfl <;> simpa using passed
  have queue : c.kernel.semaphore () = ⟨value,[]⟩ := by rcases tests with rfl | rfl <;> simpa using semaphore
  have goes : ∃ action, ConsoleInput.step c action =
      some {c with kernel := c.kernel.p () (), passed := (c.kernel.p () ()).inside () = none} := by
    rcases tests with rfl | rfl
    · refine ⟨.p,?_⟩
      have free : c.kernel.inside () = none := by simpa using inside
      simp [ConsoleInput.step,outside,Semaphores.step,awake,free]
    · refine ⟨.resume,?_⟩
      have waits : c.kernel.inside () = some () := by simpa using inside
      simp [ConsoleInput.step,Semaphores.step,awake,waits]
  obtain ⟨action,stepped⟩ := goes
  refine ⟨action,_,stepped,rfl,rfl,rfl,?_⟩
  by_cases empty : value = 0
  · subst empty
    have slept : c.kernel.p () () = {c.kernel with
        semaphore := Function.update c.kernel.semaphore () ⟨0,[()]⟩
        status := Function.update c.kernel.status () .BLOCKED
        inside := Function.update c.kernel.inside () (some ())} := by
      simp [Semaphores.p,Semaphore.p,queue]
    refine ⟨?_,?_,?_,?_⟩ <;> simp [slept]
  · have took : c.kernel.p () () = {c.kernel with
        semaphore := Function.update c.kernel.semaphore () ⟨Signed.wrap 32 (value - 1),[]⟩
        inside := Function.update c.kernel.inside () Option.none
        completedP := Function.update c.kernel.completedP () (c.kernel.completedP () + 1)} := by
      simp [Semaphores.p,Semaphore.p,queue,empty]
    refine ⟨?_,?_,?_,?_⟩ <;> simp [took,empty,awake]

theorem looks_getChar {c : ConsoleInput.State} (looks : Looks c value (some .passed)) :
    ConsoleInput.step c .getChar = some (ConsoleInput.GetChar c) ∧ Looks (ConsoleInput.GetChar c) value none := by
  obtain ⟨semaphore,status,inside,passed⟩ := looks
  have through : c.passed = true := by simpa using passed
  refine ⟨by simp [ConsoleInput.step,through],?_,?_,?_,?_⟩
  · simpa [ConsoleInput.GetChar] using semaphore
  · simpa [ConsoleInput.GetChar] using status
  · simpa [ConsoleInput.GetChar] using inside
  · simp [ConsoleInput.GetChar]

theorem looks_poll {c : ConsoleInput.State} (looks : Looks c value turn) (empty : c.incoming.toInt = EOF)
    (more : c.file = byte :: rest) :
    ∃ after, ConsoleInput.step c (.poll true) = some after ∧ after.incoming = byte ∧ after.file = rest ∧ after.got = c.got ∧
      Looks after (Signed.wrap 32 (value + 1)) (if turn = some .asleep then some .woken else turn) := by
  obtain ⟨semaphore,status,inside,passed⟩ := looks
  refine ⟨{c with incoming := byte, file := rest, kernel := c.kernel.v ()},?_,rfl,rfl,rfl,?_⟩
  · simp [ConsoleInput.step,ConsoleInput.CheckCharAvail,empty,more,Semaphores.step]
  · by_cases sleeps : turn = some .asleep
    · subst sleeps
      refine ⟨?_,?_,?_,?_⟩
      · simp [Semaphores.v,Semaphore.v,Semaphores.readyToRun,semaphore]
      · simp [Semaphores.v,Semaphore.v,Semaphores.readyToRun,semaphore]
      · simpa [Semaphores.v,Semaphore.v,Semaphores.readyToRun,semaphore] using inside
      · simpa using passed
    · refine ⟨?_,?_,?_,?_⟩
      · simp [Semaphores.v,Semaphore.v,Semaphores.readyToRun,semaphore,sleeps]
      · simpa [Semaphores.v,Semaphore.v,Semaphores.readyToRun,semaphore,sleeps] using status
      · simpa [Semaphores.v,Semaphore.v,Semaphores.readyToRun,semaphore,sleeps] using inside
      · simpa [sleeps] using passed

omit [DecidableEq T] in
theorem turn_free (others : ∀ u, u ≠ t → (s.pc u).gotPart = none) : ∀ u, u ≠ t → (s.pc u).turn = none := by
  intro u other
  have free := others u other
  cases place : s.pc u <;> simp_all [Pc.gotPart,Pc.turn]

theorem readsOn_free (ready : (program T stream).Ready s asleep (.thread t)) (place : (s.pc t).ReadsOn size line) :
    ∀ u, (s.pc u).turn = none := by
  have holds : .inputMutex ∈ (s.pc t).held := by rcases place with place | ⟨place,_⟩ <;> simp [place,Pc.held]
  intro u
  by_cases same : u = t
  · subst same
    rcases place with place | ⟨place,_⟩ <;> simp [place,Pc.turn]
  · exact turn_free (got_alone ready holds) u same

theorem step_follows (follows : Follows stream s got c)
    (writers : ∀ t ∈ s.outputDone.queue, ∃ number line put, s.pc t = .writeAsleep number line put)
    (ready : (program T stream).Ready s asleep agent) (changes : Changes s agent s' op events) : ∃ c', Follows stream s' (got ++ events.filterMap Event.gotten) c' := by
  obtain ⟨reached,incoming,file,same,seat⟩ := follows
  have elsewhere : ∀ {s' : State T}, s'.incoming = s.incoming → s'.keyboard = s.keyboard →
      s'.inputAvailable = s.inputAvailable → (∀ u, (s'.pc u).turn = (s.pc u).turn) → Follows stream s' (got ++ []) c := by
    intro s' incoming' keyboard available turn
    exact ⟨reached,incoming.trans incoming'.symm,file.trans keyboard.symm,by rw [List.append_nil,same],seat.same turn available⟩
  have moves : ∀ {t : T} {pc : Pc}, pc.turn = (s.pc t).turn → ∀ u, (Function.update s.pc t pc u).turn = (s.pc u).turn := by
    intro t pc now u
    rw [turn_update]
    split
    · rename_i here
      rw [now,here]
    · rfl
  cases changes with
  | ends place | writes place | reads place | writeSleeps place | writePasses place =>
    exact ⟨c,elsewhere rfl rfl rfl (moves (by rw [place]; rfl))⟩
  | puts place | wrote place | read place =>
    refine ⟨c,elsewhere rfl rfl rfl (moves ?_)⟩
    rcases place with place | ⟨place,_⟩ <;> rw [place] <;> rfl
  | @goesOn t size line place =>
    have none_ := readsOn_free ready place
    obtain ⟨queue,looks⟩ := seat.nobody none_
    refine ⟨c,reached,incoming,file,by simpa using same,.taken (r := t) .testing ?_ ?_ queue ?_⟩
    · intro u other
      rw [turn_update,if_neg other]
      exact none_ u
    · rw [turn_update,if_pos rfl]
      rfl
    · exact ⟨by simpa using looks.semaphore,by simpa using looks.status,by simpa using looks.inside,by simpa using looks.passed⟩
  | @readSleeps t again size line place empty =>
    have here : (s.pc t).turn = some (if again then .woken else .testing) := by rw [place]; rfl
    obtain ⟨others,queue,looks⟩ := seat.here here
    obtain ⟨action,after,stepped,incoming',file',got',looks'⟩ := looks_p looks (by cases again <;> simp)
    rw [if_pos empty,if_pos empty] at looks'
    refine ⟨after,reached.step stepped,incoming'.trans incoming,file'.trans file,by simpa [got'] using same,
      .taken (r := t) .asleep ?_ ?_ ?_ looks'⟩
    · intro u other
      rw [turn_update,if_neg other]
      exact others u other
    · rw [turn_update,if_pos rfl]
      rfl
    · cases again <;> simpa using queue
  | @readPasses t again size line place some_ =>
    have here : (s.pc t).turn = some (if again then .woken else .testing) := by rw [place]; rfl
    obtain ⟨others,queue,looks⟩ := seat.here here
    obtain ⟨action,after,stepped,incoming',file',got',looks'⟩ := looks_p looks (by cases again <;> simp)
    rw [if_neg some_,if_neg some_] at looks'
    refine ⟨after,reached.step stepped,incoming'.trans incoming,file'.trans file,by simpa [got'] using same,
      .taken (r := t) .passed ?_ ?_ ?_ looks'⟩
    · intro u other
      rw [turn_update,if_neg other]
      exact others u other
    · rw [turn_update,if_pos rfl]
      rfl
    · cases again <;> simpa using queue
  | @gets t size line place =>
    have here : (s.pc t).turn = some .passed := by rw [place]; rfl
    obtain ⟨others,queue,looks⟩ := seat.here here
    obtain ⟨stepped,looks'⟩ := looks_getChar looks
    refine ⟨_,reached.step stepped,rfl,file,?_,.free ?_ (by simpa using queue) looks'⟩
    · simp [ConsoleInput.GetChar,Event.gotten,same,incoming]
    · intro u
      rw [turn_update]
      split
      · rfl
      · rename_i other
        exact others u other
  | done waiting =>
    refine ⟨c,elsewhere ?_ ?_ ?_ ?_⟩
    · unfold writeDone wake; dsimp only; split <;> rfl
    · unfold writeDone wake; dsimp only; split <;> rfl
    · unfold writeDone wake; dsimp only; split <;> rfl
    · intro u
      cases queue : s.outputDone.queue with
      | nil => simp [writeDone,Semaphore.v,queue,wake]
      | cons t later =>
        obtain ⟨number,line,put,place⟩ := writers t (by simp [queue])
        simp only [writeDone,Semaphore.v,queue,wake]
        exact moves (by rw [place]; rfl) u
  | quiet => exact ⟨c,elsewhere rfl rfl rfl fun _ => rfl⟩
  | @arrives byte rest empty more =>
    have polls : ∀ {turn : Option Turn}, Looks c s.inputAvailable.value turn → ∃ after, ConsoleInput.Reached stream after ∧
        after.incoming = byte ∧ after.file = rest ∧ after.got = got ∧
        Looks after (Signed.wrap 32 (s.inputAvailable.value + 1)) (if turn = some .asleep then some .woken else turn) := by
      intro turn looks
      obtain ⟨after,stepped,incoming',file',got',looks'⟩ := looks_poll looks (by rw [incoming]; exact empty) (file.trans more)
      exact ⟨after,reached.step stepped,incoming',file',got'.trans same,looks'⟩
    rw [List.filterMap_nil,List.append_nil]
    cases seat with
    | free none_ queue looks =>
      obtain ⟨after,reached',incoming',file',got',looks'⟩ := polls looks
      have unheard : s.inputAvailable.v = (⟨Signed.wrap 32 (s.inputAvailable.value + 1),[]⟩,none) := by simp [Semaphore.v,queue]
      rw [unheard]
      exact ⟨after,reached',incoming',file',got',.free none_ rfl looks'⟩
    | @taken t turn others here queue looks =>
      obtain ⟨after,reached',incoming',file',got',looks'⟩ := polls looks
      by_cases sleeps : turn = .asleep
      · subst sleeps
        have heard : s.inputAvailable.v = (⟨Signed.wrap 32 (s.inputAvailable.value + 1),[]⟩,some t) := by simp [Semaphore.v,queue]
        rw [heard]
        refine ⟨after,reached',incoming',file',got',.taken (r := t) .woken ?_ ?_ rfl looks'⟩
        · intro u other
          rw [wake,turn_update,if_neg other]
          exact others u other
        · obtain ⟨size,line,place⟩ := turn_asleep here
          rw [wake,turn_update,if_pos rfl,place]
          rfl
      · have unheard : s.inputAvailable.v = (⟨Signed.wrap 32 (s.inputAvailable.value + 1),[]⟩,none) := by simp [Semaphore.v,queue,sleeps]
        rw [unheard]
        rw [if_neg (by simpa using sleeps)] at looks'
        exact ⟨after,reached',incoming',file',got',.taken turn others here (by simp [wake,sleeps]) looks'⟩

-- Who is in which queue.
omit [DecidableEq T] in
theorem Device.writers (device : Device s) :
    ∀ t ∈ s.outputDone.queue, ∃ number line put, s.pc t = .writeAsleep number line put := by
  obtain ⟨stage,fits⟩ := device.stage
  have none_ : (desk s).queue = [] → ∀ t ∈ s.outputDone.queue, ∃ number line put, s.pc t = .writeAsleep number line put := by
    intro empty t member
    rw [show s.outputDone.queue = [] from empty] at member
    cases member
  cases fits with
  | idle _ _ _ queue | testing _ _ _ _ queue | credited _ _ _ _ queue | leaving _ _ _ _ queue => exact none_ queue
  | @asleep t number job _ here _ _ queue =>
    intro u member
    rw [show s.outputDone.queue = [t] from queue,List.mem_singleton] at member
    subst member
    have here : (s.pc u).phase = .asleep number job := here
    cases place : s.pc u <;> simp_all [Pc.phase]

omit [DecidableEq T] in
theorem Follows.readers (follows : Follows stream s chars c) : ∀ t ∈ s.inputAvailable.queue, (s.pc t).phase = .away := by
  intro t member
  cases follows.seat with
  | free _ queue => rw [queue] at member; cases member
  | @taken u turn others here queue =>
    rw [queue] at member
    split at member
    · rename_i sleeps
      obtain rfl := List.mem_singleton.mp member
      rw [sleeps] at here
      obtain ⟨size,line,place⟩ := turn_asleep here
      rw [place]
      rfl
    · cases member

-- A whole line for a buffer of the size: it ends with its only newline, or fills the buffer.
def IsLine (size : Nat) (line : List (BitVec 8)) : Prop :=
  line.length ≤ size ∧ newline ∉ line.dropLast ∧ (line.getLast? = some newline ∨ line.length = size)

-- What a reader has of its line.
def Pc.Within : Pc → Prop
  | .reading size line => line.length ≤ size ∧ newline ∉ line.dropLast
  | .readTesting _ size line | .readAsleep size line | .readPassed size line => line.length < size ∧ newline ∉ line
  | _ => True

-- The characters got are the lines that were read, and the beginning of the one under way.
structure Gets (s : State T) (lines : List (Nat × List (BitVec 8))) (got : List (BitVec 8)) : Prop where
  spells : Spells (fun u => (s.pc u).gotPart) (lines.map Prod.snd) got
  within : ∀ u, (s.pc u).Within
  whole : ∀ entry ∈ lines, IsLine entry.1 entry.2

omit [DecidableEq T] in
theorem readsOn_within (within : (s.pc t).Within) (place : (s.pc t).ReadsOn size line) :
    line.length ≤ size ∧ newline ∉ line.dropLast := by
  rcases place with place | ⟨_,rfl⟩
  · rw [place] at within
    exact within
  · simp

theorem not_mem_of_dropLast {line : List (BitVec 8)} (before : newline ∉ line.dropLast) (last : line.getLast? ≠ some newline) : newline ∉ line := by
  intro member
  obtain ⟨front,c,rfl⟩ := List.eq_nil_or_concat line |>.resolve_left (List.ne_nil_of_mem member)
  simp only [List.concat_eq_append,List.dropLast_concat,List.getLast?_concat,List.mem_append,List.mem_singleton] at *
  rcases member with member | rfl
  · exact before member
  · exact last rfl

theorem woken_within {pc : Pc} (within : pc.Within) : pc.woken.Within := by
  cases pc <;> exact within

theorem step_gets (gets : Gets s lines got) (ready : (program T stream).Ready s asleep agent)
    (changes : Changes s agent s' op events) :
    Gets s' (lines ++ events.filterMap Event.readBy) (got ++ events.filterMap Event.gotten) := by
  obtain ⟨spells,within,whole⟩ := gets
  have keeps : ∀ {t : T} {pc : Pc}, pc.Within → ∀ u, (Function.update s.pc t pc u).Within := by
    intro t pc now u
    by_cases here : u = t
    · subst here; simpa using now
    · simpa [here] using within u
  have quiet : ∀ {s' : State T}, (fun u => (s'.pc u).gotPart) = (fun u => (s.pc u).gotPart) → (∀ u, (s'.pc u).Within) →
      Gets s' (lines ++ []) (got ++ []) := by
    intro s' part within'
    rw [List.append_nil,List.append_nil]
    exact ⟨by rw [part]; exact spells,within',whole⟩
  have wakes : ∀ (s₀ : State T) (thread : Option T), s₀.pc = s.pc → ∀ u, ((wake s₀ thread).pc u).Within := by
    intro s₀ thread same u
    cases thread with
    | none => rw [wake,same]; exact within u
    | some t =>
      rw [wake,same]
      exact keeps (woken_within (within t)) u
  cases changes with
  | ends place | writes place | reads place | writeSleeps place | writePasses place =>
    exact quiet (part_same s (by rw [place]; rfl)) (keeps trivial)
  | puts place | wrote place =>
    refine quiet (part_same s ?_) (keeps trivial)
    rcases place with place | ⟨place,_⟩ <;> rw [place] <;> rfl
  | @goesOn t size line place last short =>
    have holds : .inputMutex ∈ (s.pc t).held := by rcases place with place | ⟨place,_⟩ <;> simp [place,Pc.held]
    have here := gets_spells spells (got_alone ready holds) place
    rw [List.filterMap_nil,List.filterMap_nil,List.append_nil,List.append_nil]
    refine ⟨?_,keeps ⟨short,not_mem_of_dropLast (readsOn_within (within t) place).2 last⟩,whole⟩
    rw [part_update]
    exact here
  | @read t size line place stops =>
    have holds : .inputMutex ∈ (s.pc t).held := by rcases place with place | ⟨place,_⟩ <;> simp [place,Pc.held]
    have others := got_alone ready holds
    have here := gets_spells spells others place
    have next := spells_ends here (others_update others _) (Function.update_self ..)
    obtain ⟨short,before⟩ := readsOn_within (within t) place
    refine ⟨?_,keeps trivial,?_⟩
    · rw [Function.update_idem] at next
      rw [part_update,List.map_append]
      show Spells _ (lines.map Prod.snd ++ [line]) (got ++ [])
      rw [List.append_nil]
      exact next
    · intro entry member
      rcases List.mem_append.mp member with old | new
      · exact whole entry old
      · obtain rfl : entry = (size,line) := by simpa [Event.readBy] using new
        exact ⟨short,before,stops.imp id fun long => Nat.le_antisymm short long⟩
  | @readSleeps t again size line place | @readPasses t again size line place =>
    have mine := within t
    rw [place] at mine
    exact quiet (part_same s (by rw [place]; rfl)) (keeps mine)
  | @gets t size line place =>
    have holds : .inputMutex ∈ (s.pc t).held := by simp [place,Pc.held]
    have others := got_alone ready holds
    have mine := within t
    rw [place] at mine
    have part : (s.pc t).gotPart = some line := by rw [place]; rfl
    have next := spells_extends spells others part [s.incoming]
    have none_ : lines ++ [Event.got s.incoming].filterMap Event.readBy = lines := List.append_nil _
    rw [none_]
    refine ⟨?_,keeps ?_,whole⟩
    · rw [part_update]
      exact next
    · simp only [Pc.Within,List.length_append,List.length_singleton,List.dropLast_concat]
      exact ⟨mine.1,mine.2⟩
  | done waiting => exact quiet ((part_wake _ (by intro pc; cases pc <;> rfl) _).trans rfl) (wakes _ _ rfl)
  | quiet => exact quiet rfl within
  | arrives empty more => exact quiet ((part_wake _ (by intro pc; cases pc <;> rfl) _).trans rfl) (wakes _ _ rfl)

-- All that holds of a run.
structure Served (stream : List (BitVec 8)) (s : State T) (history : List (Entry (Agent T) Mutex Empty Event)) : Prop where
  shows_ : Shows s (reported Event.written history)
  device : Device s
  follows : ∃ c, Follows stream s (reported Event.gotten history) c
  gets : Gets s (reported Event.readBy history) (reported Event.gotten history)

theorem runs_served (path : (program T stream).Runs history asleep s) : Served stream s history := by
  induction path with
  | initial =>
    refine ⟨spells_nothing,⟨⟨.idle,.idle (fun _ => rfl) rfl rfl rfl⟩,by simp [program]⟩,
      ⟨ConsoleInput.initial stream,.initial,rfl,rfl,rfl,.free (fun _ => rfl) rfl ⟨rfl,rfl,rfl,rfl⟩⟩,
      ⟨spells_nothing,fun _ => trivial,?_⟩⟩
    intro entry wrong
    cases wrong
  | step _ ready executed _ ih =>
    have changes := exec_changes executed
    obtain ⟨c,follows⟩ := ih.follows
    have writers := ih.device.writers
    refine ⟨?_,step_device ih.device follows.readers ready changes,?_,?_⟩
    · rw [reported_cons]
      exact step_shows ih.shows_ ready changes
    · rw [reported_cons]
      exact step_follows follows writers ready changes
    · rw [reported_cons,reported_cons]
      exact step_gets ih.gets ready changes

omit [DecidableEq T] in
theorem fits_away {d : Completion.Desk T Unit} (fits : Completion.Fits d stage) (away : ∀ u, d.phase u = .away) :
    d.scheduled = [] := by
  cases fits with
  | idle _ scheduled => exact scheduled
  | @testing t number job _ here | @asleep t number job _ here | @credited t number job _ here | @leaving t number job _ here =>
    rw [away t] at here
    cases here

omit [DecidableEq T] in
theorem fits_asleep {d : Completion.Desk T Unit} (fits : Completion.Fits d stage) (sleeps : d.phase t = .asleep number job) :
    d.scheduled = [number] := by
  have busy : d.phase t ≠ .away := by rw [sleeps]; exact fun wrong => by cases wrong
  cases fits with
  | idle free => exact absurd (free t) busy
  | @testing u _ _ free here | @credited u _ _ free here | @leaving u _ _ free here =>
    obtain rfl := Completion.Fits.unique free busy
    rw [sleeps] at here
    cases here
  | @asleep u _ _ free here scheduled =>
    obtain rfl := Completion.Fits.unique free busy
    rw [sleeps] at here
    cases here
    exact scheduled

-- While nobody owns the mutex nobody has a part.
theorem free_parts {k : Kernel (Agent T) Mutex Empty} (valid : Kernel.Valid k) (coupled : Machine.Coupled (program T stream) k s)
    (idle : (k.lock l).isBusy = false) : ∀ u, ¬(program T stream).Active s (.thread u) l := by
  intro u active
  have taken := (valid.locks.busy l).mpr (by simp [Machine.active_owns valid coupled active])
  simp [idle] at taken

end

-- Two threads, each with a line: the second one waits for the mutex, the first one for the
-- display.
def writeAs (line : List (BitVec 8)) (t : Bool) : Choice (Agent Bool) Input := .exec (.thread t) ⟨some (.writeLine line),false⟩

def twoLines : List (Choice (Agent Bool) Input) :=
  [writeAs [65,66] false,writeAs [67] true,writeAs [] false,writeAs [] false,.exec .consoleWriteDone ⟨none,false⟩,writeAs [] false,
    writeAs [] false,.exec .consoleWriteDone ⟨none,false⟩,writeAs [] false,writeAs [] false,.resume (.thread true),writeAs [] true]

-- A line of two characters, typed before it is read.
def readAs (size : Nat) : Choice (Agent Unit) Input := .exec (.thread ()) ⟨some (.readLine size),false⟩

def oneLine : List (Choice (Agent Unit) Input) :=
  [readAs 80,readAs 0,readAs 0,.exec .consoleReadPoll ⟨none,true⟩,readAs 0,readAs 0,readAs 0,.exec .consoleReadPoll ⟨none,true⟩,
    readAs 0,readAs 0,readAs 0]

end Nachos.SynchConsole
