import Nachos.Machine
import Nachos.Library.Trace

-- The synchronous disk of synchdisk.cc over the device of disk.cc. The UNIX file
-- behind the device is a map from sectors to their bytes. The completion interrupt
-- that a request schedules may come at any later moment; it is a thread of its own
-- here, and a thread that sleeps in P is one that has no step.
namespace Nachos.SynchDisk
open Monitor Protocol

def NumSectors : Int := 1024

-- What a caller asks for.
inductive Request (Data : Type) where
  | read (sectorNumber : Int)
  | write (sectorNumber : Int) (data : Data)
  deriving DecidableEq, Repr

-- A request the device has carried out: the bytes read, or those written.
inductive Transfer (Data : Type) where
  | read (sectorNumber : Int) (data : Data)
  | write (sectorNumber : Int) (data : Data)
  deriving DecidableEq, Repr

inductive Agent (T : Type) where
  | thread (t : T)
  | diskDone
  deriving DecidableEq, Repr

-- A call of ReadSector or WriteSector: at its Acquire, before the test in P,
-- asleep in P, and before its Release. Requests are numbered.
inductive Pc (Data : Type) where
  | outside
  | entering (request : Request Data)
  | testing (number : Nat) (transfer : Transfer Data)
  | asleep (number : Nat) (transfer : Transfer Data)
  | leaving (number : Nat) (transfer : Transfer Data)
  | ended
  deriving DecidableEq, Repr

-- A call with its arguments, the request it makes of the device, the interrupt, and the
-- return.
inductive Event (T Data : Type) where
  | called (thread : T) (asked : Request Data)
  | requested (thread : T) (number : Nat) (transfer : Transfer Data)
  | done (number : Nat)
  | returned (thread : T) (number : Nat) (transfer : Transfer Data)
  deriving DecidableEq, Repr

-- The ASSERTs of the device, and the agents that cannot go on.
inductive Fault where
  | active
  | sectorNumber
  | asleep
  | noInterrupt
  | ended
  deriving DecidableEq, Repr

structure State (T Data : Type) where
  active : Bool
  sectors : Int → Data
  scheduled : List Nat
  requests : Nat
  semaphore : Semaphore T
  pc : T → Pc Data

-- What ReadRequest and WriteRequest share: the ASSERTs, and Schedule.
def start (s : State T Data) (sectorNumber : Int) : Except Fault (State T Data) :=
  if s.active then .error .active
  else if 0 ≤ sectorNumber ∧ sectorNumber < NumSectors then
    .ok {s with
      active := true
      scheduled := s.scheduled ++ [s.requests]
      requests := s.requests + 1}
  else .error .sectorNumber

def readRequest (s : State T Data) (sectorNumber : Int) : Except Fault (State T Data × Transfer Data) := do
  let started ← start s sectorNumber
  .ok (started,.read sectorNumber (s.sectors sectorNumber))

def writeRequest (s : State T Data) (sectorNumber : Int) (data : Data) :
    Except Fault (State T Data × Transfer Data) := do
  let started ← start s sectorNumber
  .ok ({started with sectors := Function.update s.sectors sectorNumber data},.write sectorNumber data)

def Request.issue (s : State T Data) : Request Data → Except Fault (State T Data × Transfer Data)
  | .read sectorNumber => readRequest s sectorNumber
  | .write sectorNumber data => writeRequest s sectorNumber data

section
variable [DecidableEq T]

-- HandleInterrupt, with the V of RequestDone. A thread that V makes ready goes
-- back to the test in P.
def handleInterrupt (s : State T Data) (rest : List Nat) : State T Data :=
  let (semaphore,thread) := s.semaphore.v
  let s := {s with active := false, scheduled := rest, semaphore}
  match thread with
  | none => s
  | some t => match s.pc t with
    | .asleep number transfer => {s with pc := Function.update s.pc t (.testing number transfer)}
    | _ => s

-- The input of a thread outside is its next call, or `none` when it finishes.
def exec : Agent T → State T Data → Option (Request Data) →
    Except Fault (State T Data × Op Unit Empty × List (Event T Data))
  | .diskDone,s,_ => match s.scheduled with
    | [] => .error .noInterrupt
    | number :: rest => .ok (handleInterrupt s rest,.skip,[.done number])
  | .thread t,s,input => match s.pc t with
    | .outside => match input with
      | none => .ok ({s with pc := Function.update s.pc t .ended},.stop,[])
      | some asked => .ok ({s with pc := Function.update s.pc t (.entering asked)},.acquire (),[.called t asked])
    | .entering asked => do
      let (after,transfer) ← asked.issue s
      .ok ({after with pc := Function.update after.pc t (.testing s.requests transfer)},.skip,
        [.requested t s.requests transfer])
    | .testing number transfer =>
      let (semaphore,sleeps) := s.semaphore.p t
      let pc := if sleeps then Pc.asleep number transfer else .leaving number transfer
      .ok ({s with semaphore, pc := Function.update s.pc t pc},.skip,[])
    | .asleep _ _ => .error .asleep
    | .leaving number transfer =>
      .ok ({s with pc := Function.update s.pc t .outside},.release (),[.returned t number transfer])
    | .ended => .error .ended

def Pc.held : Pc Data → List Unit
  | .outside | .ended => []
  | .entering _ | .testing _ _ | .asleep _ _ | .leaving _ _ => [()]

def Pc.site : Pc Data → Site Unit Empty
  | .entering _ => .entering ()
  | .ended => .ended
  | .outside | .testing _ _ | .asleep _ _ | .leaving _ _ => .free

def program (T : Type) [DecidableEq T] (contents : Int → Data) :
    Program (Agent T) Unit Empty (State T Data) (Option (Request Data)) (Event T Data) Fault where
  exec := exec
  initial := ⟨false,contents,[],0,.new 0,fun _ => .outside⟩
  lockOf c := nomatch c
  held s := fun
    | .thread t => (s.pc t).held
    | .diskDone => []
  site s := fun
    | .thread t => (s.pc t).site
    | .diskDone => .free

-- The request as the device sees it, and the contents it leaves.
inductive Issues (sectors : Int → Data) : Request Data → Transfer Data → (Int → Data) → Prop where
  | read : Issues sectors (.read sectorNumber) (.read sectorNumber (sectors sectorNumber)) sectors
  | write : Issues sectors (.write sectorNumber data) (.write sectorNumber data)
      (Function.update sectors sectorNumber data)

-- What a step can do.
inductive Changes (s : State T Data) : Agent T → State T Data → Op Unit Empty → List (Event T Data) → Prop where
  | ends : s.pc t = .outside →
      Changes s (.thread t) {s with pc := Function.update s.pc t .ended} .stop []
  | calls : s.pc t = .outside →
      Changes s (.thread t) {s with pc := Function.update s.pc t (.entering asked)} (.acquire ()) [.called t asked]
  | requests : s.pc t = .entering asked → s.active = false → Issues s.sectors asked transfer sectors →
      Changes s (.thread t) ⟨true,sectors,s.scheduled ++ [s.requests],s.requests + 1,s.semaphore,
        Function.update s.pc t (.testing s.requests transfer)⟩ .skip [.requested t s.requests transfer]
  | sleeps : s.pc t = .testing number transfer → s.semaphore.value = 0 →
      Changes s (.thread t) {s with
        semaphore := ⟨s.semaphore.value,s.semaphore.queue ++ [t]⟩
        pc := Function.update s.pc t (.asleep number transfer)} .skip []
  | takes : s.pc t = .testing number transfer → s.semaphore.value ≠ 0 →
      Changes s (.thread t) {s with
        semaphore := ⟨Signed.wrap 32 (s.semaphore.value - 1),s.semaphore.queue⟩
        pc := Function.update s.pc t (.leaving number transfer)} .skip []
  | leaves : s.pc t = .leaving number transfer →
      Changes s (.thread t) {s with pc := Function.update s.pc t .outside} (.release ()) [.returned t number transfer]
  | interrupts : s.scheduled = number :: rest → Changes s .diskDone (handleInterrupt s rest) .skip [.done number]

omit [DecidableEq T] in
theorem start_ok {s : State T Data} (ran : start s sectorNumber = .ok after) : s.active = false ∧
    after = {s with active := true, scheduled := s.scheduled ++ [s.requests], requests := s.requests + 1} := by
  unfold start at ran
  split at ran
  · cases ran
  · rename_i idle
    split at ran <;> cases ran
    exact ⟨by simpa using idle,rfl⟩

omit [DecidableEq T] in
theorem issue_ok {s : State T Data} {asked : Request Data} (issued : asked.issue s = .ok (after,transfer)) :
    ∃ sectors, s.active = false ∧ Issues s.sectors asked transfer sectors ∧
      after = {s with
        active := true
        sectors
        scheduled := s.scheduled ++ [s.requests]
        requests := s.requests + 1} := by
  cases asked with
  | read sectorNumber =>
    obtain ⟨started,ran,result⟩ := bind_ok issued
    obtain ⟨idle,rfl⟩ := start_ok ran
    cases result
    exact ⟨_,idle,.read,rfl⟩
  | write sectorNumber data =>
    obtain ⟨started,ran,result⟩ := bind_ok issued
    obtain ⟨idle,rfl⟩ := start_ok ran
    cases result
    exact ⟨_,idle,.write,rfl⟩

theorem exec_changes {s s' : State T Data} (executed : exec agent s input = .ok (s',op,events)) :
    Changes s agent s' op events := by
  cases agent with
  | diskDone =>
    simp only [exec] at executed
    split at executed
    · cases executed
    · rename_i number rest waiting
      cases executed
      exact .interrupts waiting
  | thread t =>
    simp only [exec] at executed
    split at executed
    · rename_i place
      split at executed
      · cases executed
        exact .ends place
      · cases executed
        exact .calls place
    · rename_i asked place
      obtain ⟨⟨after,transfer⟩,issued,result⟩ := bind_ok executed
      obtain ⟨sectors,idle,issues,rfl⟩ := issue_ok issued
      cases result
      exact .requests place idle issues
    · rename_i number transfer place
      by_cases empty : s.semaphore.value = 0
      · rw [Semaphore.p,if_pos empty] at executed
        cases executed
        exact .sleeps place empty
      · rw [Semaphore.p,if_neg empty] at executed
        cases executed
        exact .takes place empty
    · cases executed
    · rename_i number transfer place
      cases executed
      exact .leaves place
    · cases executed

omit [DecidableEq T] in
theorem start_active {s : State T Data} (failed : start s sectorNumber = .error .active) : s.active = true := by
  unfold start at failed
  split at failed
  · assumption
  · split at failed <;> cases failed

omit [DecidableEq T] in
theorem issue_active {s : State T Data} {asked : Request Data} (failed : asked.issue s = .error .active) :
    s.active = true := by
  cases asked with
  | read sectorNumber =>
    cases started : start s sectorNumber with
    | ok after => simp [Request.issue,readRequest,started] at failed; cases failed
    | error fault =>
      simp only [Request.issue,readRequest,started] at failed
      cases failed
      exact start_active started
  | write sectorNumber data =>
    cases started : start s sectorNumber with
    | ok after => simp [Request.issue,writeRequest,started] at failed; cases failed
    | error fault =>
      simp only [Request.issue,writeRequest,started] at failed
      cases failed
      exact start_active started

-- Only a call that comes to its request can meet ASSERT(!active).
theorem exec_active {s : State T Data} (failed : exec (.thread t) s input = .error .active) :
    ∃ asked, s.pc t = .entering asked ∧ s.active = true := by
  simp only [exec] at failed
  split at failed
  · split at failed <;> cases failed
  · rename_i asked place
    refine ⟨asked,place,?_⟩
    cases issued : asked.issue s with
    | ok result =>
      rw [issued] at failed
      cases failed
    | error fault =>
      rw [issued] at failed
      cases failed
      exact issue_active issued
  · cases failed
  · cases failed
  · cases failed
  · cases failed

-- The handler changes no thread's claim on the lock.
theorem handle_pc (s : State T Data) (rest : List Nat) (u : T) :
    ((handleInterrupt s rest).pc u).held = (s.pc u).held ∧ ((handleInterrupt s rest).pc u).site = (s.pc u).site := by
  unfold handleInterrupt
  dsimp only
  split
  · exact ⟨rfl,rfl⟩
  · rename_i t woken
    split
    · rename_i number transfer place
      dsimp only at place ⊢
      by_cases same : u = t
      · subst same; simp [place,Pc.held,Pc.site]
      · simp [same]
    · exact ⟨rfl,rfl⟩

theorem disciplined (T : Type) [DecidableEq T] (contents : Int → Data) : (program T contents).Disciplined := by
  refine ⟨?_,?_,?_⟩
  · intro agent
    cases agent <;> exact ⟨rfl,rfl⟩
  · intro agent s input s' op events other executed differs
    cases exec_changes executed with
    | interrupts waiting =>
      cases other with
      | thread u => exact handle_pc s _ u
      | diskDone => exact ⟨rfl,rfl⟩
    | ends | calls | requests | sleeps | takes | leaves =>
      cases other with
      | thread u =>
        have apart := fun same => differs (congrArg Agent.thread same)
        simp [program,Function.update_of_ne apart]
      | diskDone => exact ⟨rfl,rfl⟩
  · intro agent s input s' op events executed going
    cases exec_changes executed with
    | ends place =>
      exact .stop (by simp [program,place,Pc.held]) (by simp [program,Pc.held]) (by simp [program,Pc.site])
    | calls place =>
      exact .acquire (by simp [program,place,Pc.held]) (by simp [program,Pc.held]) (by simp [program,Pc.site])
    | requests place | sleeps place | takes place =>
      exact .skip (by simp [program,place,Pc.held]) (by simp [program,Pc.site])
    | leaves place =>
      exact .release (by simp [program,place,Pc.held]) (by simp [program,Pc.held]) (by simp [program,Pc.site])
    | interrupts waiting => exact .skip rfl rfl

-- What the synchronous disk is for: one request after the other, each carried out
-- on the contents the earlier ones left, completed, and only then returned.
inductive Stage (T Data : Type) where
  | idle
  | busy (thread : T) (number : Nat) (transfer : Transfer Data)
  | finished (thread : T) (number : Nat) (transfer : Transfer Data)
  deriving DecidableEq, Repr

structure Serial (T Data : Type) where
  sectors : Int → Data
  stage : Stage T Data
  requests : Nat

inductive Serves : Serial T Data → Event T Data → Serial T Data → Prop where
  | requested : disk.stage = .idle → Issues disk.sectors asked transfer sectors →
      Serves disk (.requested t disk.requests transfer) ⟨sectors,.busy t disk.requests transfer,disk.requests + 1⟩
  | done : disk.stage = .busy t number transfer →
      Serves disk (.done number) {disk with stage := .finished t number transfer}
  | returned : disk.stage = .finished t number transfer →
      Serves disk (.returned t number transfer) {disk with stage := .idle}

-- The contents after the writes of a log, newest first.
def written (contents : Int → Data) : List (Event T Data) → Int → Data
  | [] => contents
  | .requested _ _ (.write sectorNumber data) :: older => Function.update (written contents older) sectorNumber data
  | _ :: older => written contents older

omit [DecidableEq T] in
theorem trace_written {log : List (Event T Data)} (trace : Trace ⟨contents,.idle,0⟩ Serves disk log) :
    disk.sectors = written contents log := by
  induction trace with
  | start => rfl
  | step _ serves ih =>
    cases serves with
    | requested idle issues =>
      cases issues with
      | read => exact ih
      | write => simp [written,← ih]
    | done | returned => exact ih

omit [DecidableEq T] in
theorem trace_busy {log : List (Event T Data)} (trace : Trace ⟨contents,.idle,0⟩ Serves disk log)
    (stage : disk.stage = .busy t number transfer) :
    ∃ before asked sectors, log = .requested t number transfer :: before ∧
      Issues (written contents before) asked transfer sectors := by
  cases trace with
  | start => cases stage
  | step prior serves =>
    cases serves with
    | requested idle issues =>
      cases stage
      exact ⟨_,_,_,rfl,trace_written prior ▸ issues⟩
    | done | returned => cases stage

omit [DecidableEq T] in
theorem trace_finished {log : List (Event T Data)} (trace : Trace ⟨contents,.idle,0⟩ Serves disk log)
    (stage : disk.stage = .finished t number transfer) :
    ∃ before asked sectors, log = .done number :: .requested t number transfer :: before ∧
      Issues (written contents before) asked transfer sectors := by
  cases trace with
  | start => cases stage
  | step prior serves =>
    cases serves with
    | done busy =>
      cases stage
      obtain ⟨before,asked,sectors,rfl,issues⟩ := trace_busy prior busy
      exact ⟨before,asked,sectors,rfl,issues⟩
    | requested | returned => cases stage

-- A call returns right after the completion of its own request, and what it read
-- is what the requests before it had written.
omit [DecidableEq T] in
theorem trace_returned {contents : Int → Data} {newer older : List (Event T Data)}
    (trace : Trace ⟨contents,.idle,0⟩ Serves disk (newer ++ .returned t number transfer :: older)) :
    ∃ before, older = .done number :: .requested t number transfer :: before ∧
      ∀ sectorNumber data, transfer = .read sectorNumber data → data = written contents before sectorNumber := by
  obtain ⟨x,y,prior,serves⟩ := trace.split
  cases serves with
  | returned stage =>
    obtain ⟨before,asked,sectors,rfl,issues⟩ := trace_finished prior stage
    refine ⟨before,rfl,?_⟩
    rintro sectorNumber data rfl
    cases issues
    rfl

-- The request that the latest call of the thread was for.
def lastCall (t : T) : List (Event T Data) → Option (Request Data)
  | [] => none
  | .called u asked :: older => if u = t then some asked else lastCall t older
  | _ :: older => lastCall t older

-- The transfer is of the sector that was asked for, and writes the data that was given.
inductive Answers : Request Data → Transfer Data → Prop where
  | read : Answers (.read sectorNumber) (.read sectorNumber data)
  | write : Answers (.write sectorNumber data) (.write sectorNumber data)

theorem Issues.answers (issues : Issues sectors asked transfer sectors') : Answers asked transfer := by
  cases issues with
  | read => exact .read
  | write => exact .write

-- The call that a thread has made and not returned from, once its request is issued.
def Pc.serving : Pc Data → Option (Nat × Transfer Data)
  | .testing number transfer | .asleep number transfer | .leaving number transfer => some (number,transfer)
  | .outside | .entering _ | .ended => none

-- Where the code is when the serial disk is at a stage.
inductive Matches (s : State T Data) : Stage T Data → Prop where
  | idle : (∀ t, (s.pc t).serving = none) → s.active = false → s.scheduled = [] → s.semaphore = ⟨0,[]⟩ →
      Matches s .idle
  | testing : (∀ u, u ≠ t → (s.pc u).serving = none) → s.pc t = .testing number transfer → s.active = true →
      s.scheduled = [number] → s.semaphore = ⟨0,[]⟩ → Matches s (.busy t number transfer)
  | asleep : (∀ u, u ≠ t → (s.pc u).serving = none) → s.pc t = .asleep number transfer → s.active = true →
      s.scheduled = [number] → s.semaphore = ⟨0,[t]⟩ → Matches s (.busy t number transfer)
  | credited : (∀ u, u ≠ t → (s.pc u).serving = none) → s.pc t = .testing number transfer → s.active = false →
      s.scheduled = [] → s.semaphore = ⟨1,[]⟩ → Matches s (.finished t number transfer)
  | leaving : (∀ u, u ≠ t → (s.pc u).serving = none) → s.pc t = .leaving number transfer → s.active = false →
      s.scheduled = [] → s.semaphore = ⟨0,[]⟩ → Matches s (.finished t number transfer)

-- All that was reported, newest first, and what the serial disk sees of it.
def reported (history : List (Entry (Agent T) Unit Empty (Event T Data))) : List (Event T Data) :=
  history.flatMap Entry.events

def Event.served : Event T Data → Bool
  | .called _ _ => false
  | .requested _ _ _ | .done _ | .returned _ _ _ => true

def log (history : List (Entry (Agent T) Unit Empty (Event T Data))) : List (Event T Data) :=
  (reported history).filter Event.served

section
variable {s s' : State T Data} {contents : Int → Data} {asleep : Agent T → Bool}

-- The thread whose request is under way owns the lock.
theorem serving_active (serving : (s.pc t).serving ≠ none) : (program T contents).Active s (.thread t) () := by
  constructor
  · cases place : s.pc t <;> simp_all [Pc.serving,program,Pc.held]
  · cases place : s.pc t <;> simp_all [Pc.serving,program,Pc.site,Site.needs]

theorem Matches.moves (matches_ : Matches s stage) (was : (s.pc t).serving = none) (now : pc.serving = none) :
    Matches {s with pc := Function.update s.pc t pc} stage := by
  have others : ∀ u, (s.pc u).serving = none → (Function.update s.pc t pc u).serving = none := by
    intro u none_
    by_cases same : u = t
    · subst same; simpa using now
    · simpa [same] using none_
  have keeps : ∀ u place, s.pc u = place → place.serving ≠ none → Function.update s.pc t pc u = place := by
    intro u place here busy
    have other : u ≠ t := by rintro rfl; exact busy (here ▸ was)
    simpa [other] using here
  cases matches_ with
  | idle free active scheduled semaphore => exact .idle (fun u => others u (free u)) active scheduled semaphore
  | testing free place active scheduled semaphore =>
    exact .testing (fun u other => others u (free u other)) (keeps _ _ place (by simp [Pc.serving])) active scheduled semaphore
  | asleep free place active scheduled semaphore =>
    exact .asleep (fun u other => others u (free u other)) (keeps _ _ place (by simp [Pc.serving])) active scheduled semaphore
  | credited free place active scheduled semaphore =>
    exact .credited (fun u other => others u (free u other)) (keeps _ _ place (by simp [Pc.serving])) active scheduled
      semaphore
  | leaving free place active scheduled semaphore =>
    exact .leaving (fun u other => others u (free u other)) (keeps _ _ place (by simp [Pc.serving])) active scheduled
      semaphore

-- A thread that has the lock and has not issued its request finds the disk idle.
theorem Matches.alone (matches_ : Matches s stage) (ready : (program T contents).Ready s asleep (.thread t))
    (place : s.pc t = .entering asked) : stage = .idle ∧ (∀ u, (s.pc u).serving = none) ∧ s.active = false ∧
      s.scheduled = [] ∧ s.semaphore = ⟨0,[]⟩ := by
  have free : ∀ u, (s.pc u).serving = none := by
    intro u
    by_contra busy
    have other : u ≠ t := by rintro rfl; simp [place,Pc.serving] at busy
    exact ready.alone () (by simp [program,place,Pc.held]) (.thread u) (by simpa using other) (serving_active busy)
  cases matches_ with
  | idle _ active scheduled semaphore => exact ⟨rfl,free,active,scheduled,semaphore⟩
  | @testing t number transfer _ here | @asleep t number transfer _ here | @credited t number transfer _ here
  | @leaving t number transfer _ here =>
    have none_ := free t
    simp [here,Pc.serving] at none_

-- The one thread under way is the one whose place is known.
theorem Matches.unique (free : ∀ u, u ≠ t → (s.pc u).serving = none) (busy : (s.pc u).serving ≠ none) : u = t := by
  by_contra other
  exact busy (free u other)

theorem others_keep (free : ∀ u, u ≠ t → (s.pc u).serving = none) (pc : Pc Data) :
    ∀ u, u ≠ t → (Function.update s.pc t pc u).serving = none := by
  intro u other
  simpa [other] using free u other

theorem handle_matches (matches_ : Matches s stage) (waiting : s.scheduled = number :: rest) :
    ∃ t transfer, stage = .busy t number transfer ∧ Matches (handleInterrupt s rest) (.finished t number transfer) ∧
      (handleInterrupt s rest).sectors = s.sectors ∧ (handleInterrupt s rest).requests = s.requests := by
  cases matches_ with
  | idle _ _ scheduled | credited _ _ _ scheduled | leaving _ _ _ scheduled => simp [scheduled] at waiting
  | @testing t n transfer free place active scheduled semaphore =>
    rw [scheduled] at waiting
    cases waiting
    refine ⟨t,transfer,rfl,.credited (t := t) ?_ ?_ ?_ ?_ ?_,?_,?_⟩ <;> simp [handleInterrupt,Semaphore.v,semaphore,place]
    exact free
  | @asleep t n transfer free place active scheduled semaphore =>
    rw [scheduled] at waiting
    cases waiting
    refine ⟨t,transfer,rfl,.credited (t := t) ?_ ?_ ?_ ?_ ?_,?_,?_⟩ <;> simp [handleInterrupt,Semaphore.v,semaphore,place]
    exact others_keep free _

theorem step_serial (matches_ : Matches s stage) (trace : Trace ⟨contents,.idle,0⟩ Serves ⟨s.sectors,stage,s.requests⟩ past)
    (ready : (program T contents).Ready s asleep agent) (changes : Changes s agent s' op events) :
    ∃ stage', Matches s' stage' ∧
      Trace ⟨contents,.idle,0⟩ Serves ⟨s'.sectors,stage',s'.requests⟩ (events.filter Event.served ++ past) := by
  cases changes with
  | ends place => exact ⟨stage,matches_.moves (by simp [place,Pc.serving]) (by simp [Pc.serving]),trace⟩
  | calls place => exact ⟨stage,matches_.moves (by simp [place,Pc.serving]) (by simp [Pc.serving]),trace⟩
  | @requests t asked transfer sectors place _ issues =>
    obtain ⟨rfl,free,active,scheduled,semaphore⟩ := matches_.alone ready place
    refine ⟨.busy t s.requests transfer,.testing (t := t) ?_ ?_ rfl ?_ semaphore,trace.step (.requested rfl issues)⟩
    · exact others_keep (fun u _ => free u) _
    · simp
    · simp [scheduled]
  | @sleeps t number transfer place empty =>
    cases matches_ with
    | idle free => exact absurd (free t) (by simp [place,Pc.serving])
    | @testing u n transfer' free here active scheduled semaphore =>
      obtain rfl := Matches.unique free (u := t) (by simp [place,Pc.serving])
      cases place.symm.trans here
      refine ⟨_,.asleep (t := t) (others_keep free _) (by simp) active scheduled ?_,trace⟩
      simp [semaphore]
    | @asleep u n transfer' free here | @leaving u n transfer' free here =>
      obtain rfl := Matches.unique free (u := t) (by simp [place,Pc.serving])
      cases place.symm.trans here
    | credited free here active scheduled semaphore => simp [semaphore] at empty
  | @takes t number transfer place some_ =>
    cases matches_ with
    | idle free => exact absurd (free t) (by simp [place,Pc.serving])
    | testing _ _ _ _ semaphore | asleep _ _ _ _ semaphore | leaving _ _ _ _ semaphore => simp [semaphore] at some_
    | @credited u n transfer' free here active scheduled semaphore =>
      obtain rfl := Matches.unique free (u := t) (by simp [place,Pc.serving])
      cases place.symm.trans here
      refine ⟨_,.leaving (t := t) (others_keep free _) (by simp) active scheduled ?_,trace⟩
      simp [semaphore]
  | @leaves t number transfer place =>
    cases matches_ with
    | idle free => exact absurd (free t) (by simp [place,Pc.serving])
    | @testing u n transfer' free here | @asleep u n transfer' free here | @credited u n transfer' free here =>
      obtain rfl := Matches.unique free (u := t) (by simp [place,Pc.serving])
      cases place.symm.trans here
    | @leaving u n transfer' free here active scheduled semaphore =>
      obtain rfl := Matches.unique free (u := t) (by simp [place,Pc.serving])
      cases place.symm.trans here
      refine ⟨.idle,.idle ?_ active scheduled semaphore,trace.step (.returned rfl)⟩
      intro u
      by_cases same : u = t
      · subst same; simp [Pc.serving]
      · simpa [same] using free u same
  | interrupts waiting =>
    obtain ⟨t,transfer,rfl,after,sectors,requests⟩ := handle_matches matches_ waiting
    rw [sectors,requests]
    exact ⟨_,after,trace.step (.done rfl)⟩

-- The code refines the serial disk.
theorem runs_serial (path : (program T contents).Runs history asleep s) : ∃ stage, Matches s stage ∧
    Trace ⟨contents,.idle,0⟩ Serves ⟨s.sectors,stage,s.requests⟩ (log history) := by
  induction path with
  | initial => exact ⟨.idle,.idle (fun _ => rfl) rfl rfl rfl,.start⟩
  | step _ ready executed _ ih =>
    obtain ⟨stage,matches_,trace⟩ := ih
    rw [log,reported,List.flatMap_cons,List.filter_append]
    exact step_serial matches_ trace ready (exec_changes executed)

-- What a thread is about is what its latest call was for.
def Asked (past : List (Event T Data)) (t : T) : Pc Data → Prop
  | .outside | .ended => True
  | .entering asked => lastCall t past = some asked
  | .testing _ transfer | .asleep _ transfer | .leaving _ transfer =>
    ∃ asked, lastCall t past = some asked ∧ Answers asked transfer

theorem asked_same {past newer : List (Event T Data)} {pc : Pc Data} (asked : Asked past t pc) (call : lastCall t newer = lastCall t past) : Asked newer t pc := by
  cases pc with
  | outside | ended => trivial
  | entering | testing | asleep | leaving => simpa only [Asked,call] using asked

-- A step of one thread leaves what the others are about.
theorem asked_update (asked : ∀ u, Asked past u (s.pc u)) (calls : ∀ u, u ≠ t → lastCall u newer = lastCall u past)
    (now : Asked newer t pc) (u : T) : Asked newer u (Function.update s.pc t pc u) := by
  by_cases same : u = t
  · subst same
    simpa using now
  · simpa [same] using asked_same (asked u) (calls u same)

theorem step_asked (asked : ∀ u, Asked past u (s.pc u)) (changes : Changes s agent s' op events) :
    ∀ u, Asked (events ++ past) u (s'.pc u) := by
  cases changes with
  | ends place => exact asked_update asked (fun _ _ => rfl) trivial
  | @calls t request place =>
    refine asked_update asked ?_ ?_
    · intro u other
      rw [List.singleton_append,lastCall,if_neg (Ne.symm other)]
    · rw [Asked,List.singleton_append,lastCall,if_pos rfl]
  | @requests t request transfer sectors place _ issues =>
    have mine := asked t
    rw [place] at mine
    exact asked_update asked (fun _ _ => rfl) ⟨request,mine,issues.answers⟩
  | @sleeps t number transfer place | @takes t number transfer place =>
    have mine := asked t
    rw [place] at mine
    exact asked_update asked (fun _ _ => rfl) mine
  | leaves place => exact asked_update asked (fun _ _ => rfl) trivial
  | interrupts waiting =>
    unfold handleInterrupt
    dsimp only
    split
    · exact fun u => asked_same (asked u) rfl
    · rename_i t woken
      split
      · rename_i number transfer place
        have mine := asked t
        rw [show s.pc t = .asleep number transfer from place] at mine
        exact asked_update asked (fun _ _ => rfl) mine
      · exact fun u => asked_same (asked u) rfl

-- What a thread asks of the device and what it returns with.
def Event.carries (t : T) (transfer : Transfer Data) (event : Event T Data) : Prop :=
  ∃ number, event = .requested t number transfer ∨ event = .returned t number transfer

theorem step_answers (asked : ∀ u, Asked past u (s.pc u)) (changes : Changes s agent s' op events)
    (split_ : events = newer ++ event :: older) (carries : Event.carries t transfer event) :
    ∃ request, lastCall t (older ++ past) = some request ∧ Answers request transfer := by
  have single : ∀ {only : Event T Data}, [only] = newer ++ event :: older → event = only ∧ older = [] := by
    intro only same
    cases newer with
    | nil =>
      rw [List.nil_append] at same
      cases same
      exact ⟨rfl,rfl⟩
    | cons first newer => simp at same
  obtain ⟨number,carries⟩ := carries
  cases changes with
  | ends place | sleeps place | takes place => simp at split_
  | calls place | interrupts waiting =>
    obtain ⟨rfl,rfl⟩ := single split_
    rcases carries with wrong | wrong <;> cases wrong
  | requests place _ issues =>
    obtain ⟨rfl,rfl⟩ := single split_
    have mine := asked t
    rcases carries with same | wrong
    · cases same
      rw [place] at mine
      exact ⟨_,mine,issues.answers⟩
    · cases wrong
  | leaves place =>
    obtain ⟨rfl,rfl⟩ := single split_
    have mine := asked t
    rcases carries with wrong | same
    · cases wrong
    · cases same
      rw [place] at mine
      exact mine

-- The device is asked for what the callers asked for, and they return with it.
theorem runs_asked (path : (program T contents).Runs history asleep s) : (∀ u, Asked (reported history) u (s.pc u)) ∧
    ∀ newer event older t transfer, reported history = newer ++ event :: older → event.carries t transfer →
      ∃ request, lastCall t older = some request ∧ Answers request transfer := by
  induction path with
  | initial => exact ⟨fun _ => trivial,fun newer event older t transfer wrong => by simp [reported] at wrong⟩
  | step _ ready executed _ ih =>
    obtain ⟨asked,answers⟩ := ih
    have changes := exec_changes executed
    refine ⟨step_asked asked changes,?_⟩
    intro newer event older t transfer split_ carries
    rw [reported,List.flatMap_cons] at split_
    rcases List.append_eq_append_iff.mp split_ with ⟨more,front,back⟩ | ⟨more,front,back⟩
    · exact answers more event older t transfer back carries
    · cases more with
      | nil => exact answers [] event older t transfer back.symm carries
      | cons first more =>
        rw [List.cons_append] at back
        cases back
        exact step_answers asked changes front carries

-- The value is 1 only between the completion and the P of its request.
omit [DecidableEq T] in
theorem Matches.value (matches_ : Matches s stage) : s.semaphore.value = 0 ∨
    s.semaphore.value = 1 ∧ ∃ t, (s.pc t).serving ≠ none := by
  cases matches_ with
  | idle _ _ _ semaphore => exact .inl (by simp [semaphore])
  | testing _ _ _ _ semaphore | asleep _ _ _ _ semaphore | leaving _ _ _ _ semaphore => exact .inl (by simp [semaphore])
  | @credited t number transfer _ place _ _ semaphore =>
    exact .inr ⟨by simp [semaphore],t,by simp [place,Pc.serving]⟩

end

-- The device is never asked while it is busy, the semaphore has no unit that is
-- not the lock owner's, the log of the calls is one of the serial disk, and what a call
-- asks for and returns with is the sector, and the data, of its own arguments.
theorem synchDisk_serializes {contents : Int → Data} {m : Machine (Agent T) Unit Empty (State T Data) (Event T Data)}
    (reached : Machine.Reached (program T contents) m) :
    (∀ t input, ¬Machine.Faults (program T contents) m (.thread t) input .active) ∧
    ((m.kernel.lock ()).isBusy = false → m.state.semaphore.value = 0) ∧
    0 ≤ m.state.semaphore.value ∧ m.state.semaphore.value ≤ 1 ∧
    (∀ t, (m.state.pc t).serving ≠ none → (m.kernel.lock ()).ownerThread = some (.thread t)) ∧
    (∀ newer t number transfer older, log m.history = newer ++ .returned t number transfer :: older →
      ∃ before, older = .done number :: .requested t number transfer :: before ∧
        ∀ sectorNumber data, transfer = .read sectorNumber data → data = written contents before sectorNumber) ∧
    (∀ newer event older t transfer, reported m.history = newer ++ event :: older → event.carries t transfer →
      ∃ asked, lastCall t older = some asked ∧ Answers asked transfer) := by
  obtain ⟨valid,coupled⟩ := Machine.reached_valid (disciplined T contents) reached
  have path := Machine.reached_runs (disciplined T contents) reached
  obtain ⟨stage,matches_,trace⟩ := runs_serial path
  have owner : ∀ t, (m.state.pc t).serving ≠ none → (m.kernel.lock ()).ownerThread = some (.thread t) :=
    fun t busy => Machine.active_owns valid coupled (serving_active busy)
  refine ⟨?_,?_,?_,?_,owner,?_,(runs_asked path).2⟩
  · rintro t input ⟨ready,outside,failed⟩
    have alone := Machine.exec_ready valid coupled ready outside
    obtain ⟨asked,place,busy⟩ := exec_active failed
    obtain ⟨_,_,idle,_⟩ := matches_.alone alone place
    simp [idle] at busy
  · intro idle
    rcases matches_.value with zero | ⟨_,t,busy⟩
    · exact zero
    · have taken := (valid.locks.busy ()).mpr (by simp [owner t busy])
      simp [idle] at taken
  · rcases matches_.value with zero | ⟨one,_⟩ <;> omega
  · rcases matches_.value with zero | ⟨one,_⟩ <;> omega
  · intro newer t number transfer older split
    rw [split] at trace
    exact trace_returned trace

-- One thread writes a sector and another reads it back. The first interrupt comes
-- before the P of its request, the second while the reader sleeps in P.
def writeThenRead : Option (Machine (Agent Bool) Unit Empty (State Bool Nat) (Event Bool Nat)) := do
  let wrote ← (Machine.initial (program Bool fun _ => 0)).dispatch (program Bool fun _ => 0) (some (.write 3 8))
    [.thread false,.thread false,.diskDone,.thread false,.thread false]
  wrote.dispatch (program Bool fun _ => 0) (some (.read 3))
    [.thread true,.thread true,.thread true,.diskDone,.thread true,.thread true]

theorem synchDisk_serializes_read : ∃ m older, writeThenRead = some m ∧
    reported m.history = .returned true 1 (.read 3 8) :: older ∧ lastCall true older = some (.read 3) ∧
    (∃ asked, lastCall true older = some asked ∧ Answers asked (.read 3 8)) ∧
    ∃ before : List (Event Bool Nat), log m.history = .returned true 1 (.read 3 8) :: .done 1 :: .requested true 1 (.read 3 8) :: before ∧
      8 = written (fun _ => 0) before 3 := by
  have logged : (writeThenRead.map fun m => reported m.history) =
      some [.returned true 1 (.read 3 8),.done 1,.requested true 1 (.read 3 8),.called true (.read 3),
        .returned false 0 (.write 3 8),.done 0,.requested false 0 (.write 3 8),.called false (.write 3 8)] := by decide +kernel
  obtain ⟨m,ran,result⟩ := Option.map_eq_some_iff.mp logged
  have served : log m.history = [.returned true 1 (.read 3 8),.done 1,.requested true 1 (.read 3 8),
      .returned false 0 (.write 3 8),.done 0,.requested false 0 (.write 3 8)] := by
    rw [log,result]
    rfl
  have reached : Machine.Reached (program Bool fun _ => 0) m := by
    simp only [writeThenRead,Option.bind_eq_bind,Option.bind_eq_some_iff] at ran
    obtain ⟨wrote,first,second⟩ := ran
    exact Machine.dispatch_reached (Machine.dispatch_reached .initial first) second
  obtain ⟨_,_,_,_,_,serial,asked⟩ := synchDisk_serializes reached
  refine ⟨m,_,ran,result,rfl,asked [] _ _ true (.read 3 8) result ⟨1,.inr rfl⟩,?_⟩
  obtain ⟨before,same,delivered⟩ := serial [] _ _ _ _ served
  refine ⟨before,?_,delivered 3 8 rfl⟩
  rw [served,same]

end
end Nachos.SynchDisk
