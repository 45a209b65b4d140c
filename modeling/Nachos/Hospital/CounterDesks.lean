import Nachos.Hospital.Counter

namespace Nachos.Hospital
open Monitor Tally Rendezvous

-- What is written at a counter. A tray is the buckets of one desk.
structure Books (D : Nat) (X : Type) where
  line : Line D
  tray : Fin D → X
  total : Int

inductive Paper (N : Nat) where
  | paid (p : Fin N) (amount : Int)
  | recorded (token amount : Int)
  deriving DecidableEq

-- The names and places of one counter. `early` are the program counters of
-- patients that have not come to it yet.
structure Counter (n : Counts) (D : Nat) (B X : Type) where
  here : Station
  lineLock : LockId n
  deskLock : Fin D → LockId n
  paymentLock : LockId n
  breakCv : ConditionId n
  lineEmptyCv : ConditionId n
  deskCv : Fin D → ConditionId n
  clerk : Fin D → ThreadId n
  pc : State n → Fin D → ClerkPc B
  books : State n → Books D X
  visit : PatientPc n → Option (VisitPc D)
  early : PatientPc n → Bool
  -- The patient puts down what it asks with, the clerk answers, the patient pays
  -- and the clerk takes the payment.
  posting : Patient n → X → X
  answering : State n → X → Option (B × X)
  paying : X → X
  recording : X → X
  due : X → Int
  collected : B → X → Int
  token : B → Int
  price : State n → Fin n.numberOfPatients → Int
  fair : ∀ {s p x about y}, answering s (posting (s.patient p) x) = some (about,y) →
    token about = (s.patient p).myPatientToken ∧ due y = price s p ∧ collected about (paying y) = price s p
  paper : Event n → Option (Fin D × Paper n.numberOfPatients)
  clerk_inj : ∀ i j, clerk i = clerk j → i = j
  clerk_patient : ∀ i p, clerk i ≠ .patient p
  desk_line : ∀ i, deskLock i ≠ lineLock
  held_clerk : ∀ s i, held s (clerk i) = (pc s i).held lineLock (deskLock i) paymentLock
  site_clerk : ∀ s i, site s (clerk i) = (pc s i).site lineLock (deskLock i) paymentLock breakCv (deskCv i)
  held_visit : ∀ {place at_}, visit place = some at_ → place.held = at_.held lineLock deskLock
  site_visit : ∀ {place at_}, visit place = some at_ → place.site = at_.site lineLock deskLock lineEmptyCv deskCv
  lock_desk : ∀ i, lockOf (deskCv i) = deskLock i
  lock_line : lockOf lineEmptyCv = lineLock
  sleeps_line : ∀ {s u}, site s u = .sleeping lineEmptyCv →
    ∃ p, u = .patient p ∧ visit (s.patient p).pc = some .lineWaited
  sleeps_desk : ∀ {s u i}, site s u = .sleeping (deskCv i) →
    (u = clerk i ∧ (pc s i = .patientWaited ∨ ∃ about, pc s i = .answerWaited about)) ∨
    ∃ p, u = .patient p ∧ visit (s.patient p).pc = some (.answerWaited i)
  -- What happens elsewhere leaves the counter alone.
  station_line : stationOf lineLock = here
  station_desk : ∀ i, stationOf (deskLock i) = here
  home_clerk : ∀ s i, home s (clerk i) = here
  visit_home : ∀ {place at_}, visit place = some at_ → place.home = here
  visit_away : ∀ {place}, Away here place → visit place = none ∨ visit place = some .start
  paper_home : ∀ {event}, eventStation event ≠ here → paper event = none
  apart : ∀ {b}, b = .receptionistBreakCv ∨ b = .doorboyBreakCv ∨ b = .cashierBreakCv ∨ b = .pharmacistBreakCv →
    b ≠ lineEmptyCv ∧ ∀ i, b ≠ deskCv i
  frame : ∀ {s s' draw t op events}, Changes s draw t s' op events → home s t ≠ here →
    pc s' = pc s ∧ books s' = books s ∧
      ∀ p, t = .patient p → early (s.patient p).pc = (early (s'.patient p).pc || (visit (s'.patient p).pc).isSome)

namespace Counter

def serverOf : ClerkPc B → Bool → Server
  | .loop,_ | .lineAcquired,_ | .breakWaited,_ => .away
  | .lineSignalled,_ | .deskAcquired,_ => .opening
  | .lineReleased,_ => .opened
  | .patientWaited,true => .resting
  | .patientWaited,false => .called
  | .answerSignalled _,_ => .answered
  | .answerWaited _,true => .lingering
  | .answerWaited _,false | .paymentAcquired _,_ => .dismissed
  | .paymentReleased,_ => .closing

def clientOf : Option (VisitPc D) → Bool → Option (Fin D × Client)
  | some (.lineReleased d),_ => some (d,.assigned)
  | some (.deskAcquired d),_ => some (d,.entering)
  | some (.deskSignalled d),_ => some (d,.calling)
  | some (.answerWaited d),true => some (d,.posted)
  | some (.answerWaited d),false => some (d,.answered)
  | some (.leaveSignalled d),_ => some (d,.leaving)
  | _,_ => none

def waitingOf : Option (VisitPc D) → Bool → Option Bool
  | some .lineWaited,asleep => some asleep
  | _,_ => none

def freshOf (early : Bool) : Option (VisitPc D) → Bool
  | some .start | some .lineAcquired | some .lineWaited => true
  | some _ => false
  | none => early

variable {n : Counts} (c : Counter n D B X)

def view (s : State n) (asleep : ThreadId n → Bool) : View D n.numberOfPatients where
  desks := {
    server := fun i => serverOf (c.pc s i) (asleep (c.clerk i))
    free := fun i => (c.books s).line.state i = 0
    reserved := fun _ => false
    client := fun p => clientOf (c.visit (s.patient p).pc) (asleep (.patient p))
    fresh := fun p => freshOf (c.early (s.patient p).pc) (c.visit (s.patient p).pc)}
  availableCount := (c.books s).line.availableCount
  lineLength := (c.books s).line.lineLength
  waiting p := waitingOf (c.visit (s.patient p).pc) (asleep (.patient p))

-- The steps that cashiers and pharmacists share, with what the desks see of them
-- and what goes on paper.
inductive ClerkMoves (s : State n) (i : Fin D) : ClerkPc B → Books D X → ClerkPc B → Op (LockId n) (ConditionId n) →
    Option (Fin D × Move (Fin n.numberOfPatients)) → List (Fin D × Paper n.numberOfPatients) → Prop where
  | comes : ClerkMoves s i .loop (c.books s) .lineAcquired (.acquire c.lineLock) none []
  | breaks : (c.books s).line.lineLength = 0 →
      ClerkMoves s i .lineAcquired
        {c.books s with line := {(c.books s).line with state := Function.update (c.books s).line.state i 2}} .breakWaited
        (.wait c.breakCv c.lineLock) none []
  | opens : before = .lineAcquired ∨ before = .breakWaited →
      ClerkMoves s i before {c.books s with line := (c.books s).line.opens i} .lineSignalled
        (.signal c.lineEmptyCv c.lineLock) (some (i,.opens)) []
  | enters : ClerkMoves s i .lineSignalled (c.books s) .deskAcquired (.acquire (c.deskLock i)) none []
  | leavesLine : ClerkMoves s i .deskAcquired (c.books s) .lineReleased (.release c.lineLock) (some (i,.stays)) []
  | rests : ClerkMoves s i .lineReleased (c.books s) .patientWaited (.wait (c.deskCv i) (c.deskLock i))
      (some (i,.stays)) []
  | answers : c.answering s ((c.books s).tray i) = some (about,x) →
      ClerkMoves s i .patientWaited {c.books s with tray := Function.update (c.books s).tray i x}
        (.answerSignalled about) (.signal (c.deskCv i) (c.deskLock i)) (some (i,.answers)) []
  | lingers : ClerkMoves s i (.answerSignalled about) (c.books s) (.answerWaited about)
      (.wait (c.deskCv i) (c.deskLock i)) (some (i,.stays)) []
  | collects : ClerkMoves s i (.answerWaited about) (c.books s) (.paymentAcquired about) (.acquire c.paymentLock) none []
  | records : ClerkMoves s i (.paymentAcquired about)
      {c.books s with
        tray := Function.update (c.books s).tray i (c.recording ((c.books s).tray i))
        total := (c.books s).total + c.collected about ((c.books s).tray i)}
      .paymentReleased (.release c.paymentLock) (some (i,.closes))
      [(i,.recorded (c.token about) (c.collected about ((c.books s).tray i)))]
  | closes : ClerkMoves s i .paymentReleased (c.books s) .loop (.release (c.deskLock i)) (some (i,.stays)) []

inductive VisitMoves (s : State n) (p : Fin n.numberOfPatients) : VisitPc D → Books D X → Option (VisitPc D) →
    Op (LockId n) (ConditionId n) → Option (Fin D × Move (Fin n.numberOfPatients)) →
    List (Fin D × Paper n.numberOfPatients) → Prop where
  | comes : VisitMoves s p .start (c.books s) (some .lineAcquired) (.acquire c.lineLock) none []
  | joins : (c.books s).line.availableCount = 0 →
      VisitMoves s p .lineAcquired
        {c.books s with line := {(c.books s).line with lineLength := (c.books s).line.lineLength + 1}}
        (some .lineWaited) (.wait c.lineEmptyCv c.lineLock) none []
  | again : (c.books s).line.availableCount = 0 →
      VisitMoves s p .lineWaited (c.books s) (some .lineWaited) (.wait c.lineEmptyCv c.lineLock) none []
  | claims : (c.books s).line.state d = 0 →
      VisitMoves s p .lineAcquired
        {c.books s with line := {(c.books s).line with
          availableCount := (c.books s).line.availableCount - 1
          state := Function.update (c.books s).line.state d 1}}
        (some (.lineReleased d)) (.release c.lineLock) (some (d,.assigned p)) []
  | claimsAfter : (c.books s).line.state d = 0 →
      VisitMoves s p .lineWaited
        {c.books s with line := ⟨(c.books s).line.availableCount - 1,(c.books s).line.lineLength - 1,
          Function.update (c.books s).line.state d 1⟩}
        (some (.lineReleased d)) (.release c.lineLock) (some (d,.assigned p)) []
  | arrives : VisitMoves s p (.lineReleased d) (c.books s) (some (.deskAcquired d)) (.acquire (c.deskLock d))
      (some (d,.moves p .assigned .entering)) []
  | calls : VisitMoves s p (.deskAcquired d) (c.books s) (some (.deskSignalled d))
      (.signal (c.deskCv d) (c.deskLock d)) (some (d,.moves p .entering .calling)) []
  | posts : VisitMoves s p (.deskSignalled d)
      {c.books s with
        tray := Function.update (c.books s).tray d (c.posting (s.patient p) ((c.books s).tray d))}
      (some (.answerWaited d)) (.wait (c.deskCv d) (c.deskLock d)) (some (d,.moves p .calling .posted)) []
  | leaves : VisitMoves s p (.answerWaited d)
      {c.books s with tray := Function.update (c.books s).tray d (c.paying ((c.books s).tray d))}
      (some (.leaveSignalled d)) (.signal (c.deskCv d) (c.deskLock d)) (some (d,.moves p .answered .leaving))
      [(d,.paid p (c.due ((c.books s).tray d)))]
  | goes : VisitMoves s p (.leaveSignalled d) (c.books s) none (.release (c.deskLock d)) (some (d,.goes p)) []

section
variable {c} {s s' : State n} {asleep asleep' : ThreadId n → Bool}

theorem view_clerk (pcs : c.pc s' = Function.update (c.pc s) i next) (patients : s'.patient = s.patient) :
    c.view s' asleep = {c.view s asleep with
      desks := {(c.view s asleep).desks with
        server := Function.update (c.view s asleep).desks.server i (serverOf next (asleep (c.clerk i)))
        free := fun d => (c.books s').line.state d = 0}
      availableCount := (c.books s').line.availableCount
      lineLength := (c.books s').line.lineLength} := by
  refine View.ext (Desks.ext ?_ rfl rfl ?_ ?_) rfl rfl ?_
  · funext d
    by_cases same : d = i
    · subst same; simp [view,pcs]
    · simp [view,pcs,same]
  all_goals simp [view,patients]

theorem view_rests (i : Fin D) (b : Bool) :
    c.view s (Function.update asleep (c.clerk i) b) = {c.view s asleep with
      desks := {(c.view s asleep).desks with
        server := Function.update (c.view s asleep).desks.server i (serverOf (c.pc s i) b)}} := by
  have patients : ∀ p, Function.update asleep (c.clerk i) b (.patient p) = asleep (.patient p) :=
    fun p => Function.update_of_ne (c.clerk_patient i p).symm _ _
  refine View.ext (Desks.ext ?_ rfl rfl ?_ rfl) rfl rfl ?_
  · funext d
    by_cases same : d = i
    · subst same; simp [view]
    · have differs : c.clerk d ≠ c.clerk i := fun equal => same (c.clerk_inj d i equal)
      simp [view,same,differs]
  all_goals simp [view,patients]

theorem view_visit (pcs : c.pc s' = c.pc s) (patients : s'.patient = Function.update s.patient p me) :
    c.view s' asleep = {c.view s asleep with
      desks := {(c.view s asleep).desks with
        free := fun d => (c.books s').line.state d = 0
        client := Function.update (c.view s asleep).desks.client p (clientOf (c.visit me.pc) (asleep (.patient p)))
        fresh := Function.update (c.view s asleep).desks.fresh p (freshOf (c.early me.pc) (c.visit me.pc))}
      availableCount := (c.books s').line.availableCount
      lineLength := (c.books s').line.lineLength
      waiting := Function.update (c.view s asleep).waiting p (waitingOf (c.visit me.pc) (asleep (.patient p)))} := by
  refine View.ext (Desks.ext ?_ rfl rfl ?_ ?_) rfl rfl ?_
  · simp [view,pcs]
  all_goals
    funext q
    by_cases same : q = p
    · subst same; simp [view,patients]
    · simp [view,patients,same]

theorem view_sleeps (p : Fin n.numberOfPatients) (b : Bool) :
    c.view s (Function.update asleep (.patient p) b) = {c.view s asleep with
      desks := {(c.view s asleep).desks with
        client := Function.update (c.view s asleep).desks.client p (clientOf (c.visit (s.patient p).pc) b)}
      waiting := Function.update (c.view s asleep).waiting p (waitingOf (c.visit (s.patient p).pc) b)} := by
  refine View.ext (Desks.ext ?_ rfl rfl ?_ rfl) rfl rfl ?_
  · simp [view,c.clerk_patient]
  all_goals
    funext q
    by_cases same : q = p
    · subst same; simp [view]
    · simp [view,same]

theorem clientOf_posted (here : clientOf at_ b = some ((d : Fin D),.posted)) : at_ = some (.answerWaited d) ∧ b = true := by
  revert here
  fun_cases clientOf at_ b <;> simp_all

theorem clientOf_calling (here : clientOf at_ b = some ((d : Fin D),.calling)) : at_ = some (.deskSignalled d) := by
  revert here
  fun_cases clientOf at_ b <;> simp_all

theorem clientOf_leaving (here : clientOf at_ b = some ((d : Fin D),.leaving)) : at_ = some (.leaveSignalled d) := by
  revert here
  fun_cases clientOf at_ b <;> simp_all

theorem waitingOf_asleep (here : waitingOf (D := D) at_ b = some true) : at_ = some .lineWaited ∧ b = true := by
  revert here
  fun_cases waitingOf at_ b <;> simp_all

theorem serverOf_resting (here : serverOf at_ b = .resting) : at_ = .patientWaited (B := B) ∧ b = true := by
  revert here
  fun_cases serverOf at_ b <;> simp_all

theorem serverOf_lingering (here : serverOf at_ b = .lingering) : (∃ about : B, at_ = .answerWaited about) ∧ b = true := by
  revert here
  fun_cases serverOf at_ b <;> simp_all

theorem serverOf_opening (here : serverOf at_ b = .opening) : at_ = .lineSignalled (B := B) ∨ at_ = .deskAcquired := by
  revert here
  fun_cases serverOf at_ b <;> simp_all

theorem serverOf_opened (here : serverOf at_ b = .opened) : at_ = .lineReleased (B := B) := by
  revert here
  fun_cases serverOf at_ b <;> simp_all

theorem serverOf_answered (here : serverOf at_ b = .answered) : ∃ about : B, at_ = .answerSignalled about := by
  revert here
  fun_cases serverOf at_ b <;> simp_all

-- Clerks and patients in the middle of a critical section.
theorem opening_active (place : (c.view s asleep).desks.server i = .opening) :
    (program n).Active s (c.clerk i) c.lineLock := by
  have differs := c.desk_line i
  rcases serverOf_opening place with pc | pc
  all_goals simp [Program.Active,program,c.held_clerk,c.site_clerk,pc,ClerkPc.held,ClerkPc.site,Site.needs,differs]

theorem opened_active (place : (c.view s asleep).desks.server i = .opened) :
    (program n).Active s (c.clerk i) (c.deskLock i) := by
  have pc := serverOf_opened place
  simp [Program.Active,program,c.held_clerk,c.site_clerk,pc,ClerkPc.held,ClerkPc.site,Site.needs]

theorem answered_active (place : (c.view s asleep).desks.server i = .answered) :
    (program n).Active s (c.clerk i) (c.deskLock i) := by
  obtain ⟨about,pc⟩ := serverOf_answered place
  simp [Program.Active,program,c.held_clerk,c.site_clerk,pc,ClerkPc.held,ClerkPc.site,Site.needs]

theorem calling_active (place : (c.view s asleep).desks.client p = some (d,.calling)) :
    (program n).Active s (.patient p) (c.deskLock d) := by
  have at_ := clientOf_calling place
  simp [Program.Active,program,held,site,c.held_visit at_,c.site_visit at_,VisitPc.held,VisitPc.site,Site.needs]

theorem leaving_active (place : (c.view s asleep).desks.client p = some (d,.leaving)) :
    (program n).Active s (.patient p) (c.deskLock d) := by
  have at_ := clientOf_leaving place
  simp [Program.Active,program,held,site,c.held_visit at_,c.site_visit at_,VisitPc.held,VisitPc.site,Site.needs]

-- A Signal at a desk, as the view has it. The caller is awake, so what it did
-- before the Signal does not matter.
theorem wakes_view (s' : State n) (awake : asleep t = false)
    (sleeps : (program n).Sleeps s t asleep (.signal (c.deskCv i) l) woken asleep')
    (clerks : ∀ d, c.clerk d ≠ t → c.pc s' d = c.pc s d)
    (patients : ∀ p, .patient p ≠ t → (s'.patient p).pc = (s.patient p).pc) :
    ∃ desks, Wakes (c.view s' asleep).desks i desks ∧ c.view s' asleep' = {c.view s' asleep with desks := desks} := by
  cases sleeps with
  | @wakes u d l sleeping site =>
    have other : u ≠ t := by rintro rfl; simp [awake] at sleeping
    rcases c.sleeps_desk site with ⟨rfl,pc⟩ | ⟨p,rfl,place⟩
    · have same := clerks i other
      refine ⟨_,?_,view_rests i false⟩
      rcases pc with pc | ⟨about,pc⟩
      · simp only [same,pc,serverOf]
        exact .resting (by simp [view,same,pc,sleeping,serverOf])
      · simp only [same,pc,serverOf]
        exact .lingering (by simp [view,same,pc,sleeping,serverOf])
    · have place : c.visit (s'.patient p).pc = some (.answerWaited i) := by rw [patients p other]; exact place
      refine ⟨_,.client (p := p) (by simp [view,place,sleeping,clientOf]),?_⟩
      rw [view_sleeps]
      simp only [place,clientOf]
      exact View.ext rfl rfl rfl (Function.update_eq_self_iff.mpr (by simp [view,place,waitingOf]))
  | unheard nobody =>
    refine ⟨_,.nobody ?_ ?_ ?_,rfl⟩
    · intro place
      obtain ⟨pc,sleeping⟩ := serverOf_resting place
      have other : c.clerk i ≠ t := by rintro rfl; simp [awake] at sleeping
      rw [clerks i other] at pc
      exact nobody (c.clerk i) sleeping (by simp [program,c.site_clerk,pc,ClerkPc.site])
    · intro place
      obtain ⟨⟨about,pc⟩,sleeping⟩ := serverOf_lingering place
      have other : c.clerk i ≠ t := by rintro rfl; simp [awake] at sleeping
      rw [clerks i other] at pc
      exact nobody (c.clerk i) sleeping (by simp [program,c.site_clerk,pc,ClerkPc.site])
    · intro p place
      obtain ⟨at_,sleeping⟩ := clientOf_posted place
      have other : .patient p ≠ t := by rintro rfl; simp [awake] at sleeping
      rw [patients p other] at at_
      exact nobody (.patient p) sleeping (by simp [program,site,c.site_visit at_,VisitPc.site])

theorem clerk_step (ready : (program n).Ready s asleep (c.clerk i))
    (moves : c.ClerkMoves s i (c.pc s i) (c.books s') next op label papers)
    (pcs : c.pc s' = Function.update (c.pc s) i next) (patients : s'.patient = s.patient)
    (sleeps : (program n).Sleeps s (c.clerk i) asleep op woken asleep') :
    Step (c.view s asleep) label (c.view s' asleep') := by
  have awake := ready.awake
  have server : (c.view s asleep).desks.server i = serverOf (c.pc s i) false := by simp [view,awake]
  have held : (program n).held s (c.clerk i) = _ := c.held_clerk s i
  have here : c.pc s' i = next := by simp [pcs]
  have others : ∀ d, c.clerk d ≠ c.clerk i → c.pc s' d = c.pc s d := by
    intro d other
    have differs : d ≠ i := by rintro rfl; exact other rfl
    simp [pcs,differs]
  -- Steps that leave the line alone, awake and asleep.
  have stays : (c.books s').line = (c.books s).line → c.view s' asleep = {c.view s asleep with
      desks := {(c.view s asleep).desks with
        server := Function.update (c.view s asleep).desks.server i (serverOf next false)}} := by
    intro same
    rw [view_clerk pcs patients,same,awake]
    rfl
  have waits : (c.books s').line = (c.books s).line → c.view s' (Function.update asleep (c.clerk i) true) = {c.view s asleep with
      desks := {(c.view s asleep).desks with
        server := Function.update (c.view s asleep).desks.server i (serverOf next true)}} := by
    intro same
    rw [view_rests,stays same,here]
    simp
  have idles : (c.books s').line = (c.books s).line → serverOf next false = (c.view s asleep).desks.server i →
      c.view s' asleep = c.view s asleep := by
    intro line same
    rw [stays line,same,Function.update_eq_self]
  generalize now : c.books s' = books at moves
  generalize place : c.pc s i = before at moves
  rw [place] at server held
  cases moves with
  | comes =>
    cases sleeps
    rw [idles (by rw [now]) server.symm]
    exact .idles
  | breaks empty =>
    cases sleeps
    rw [view_rests,view_clerk pcs patients,now,here]
    have same : Function.update (c.view s asleep).desks.server i .away = (c.view s asleep).desks.server :=
      Function.update_eq_self_iff.mpr server.symm
    have free : (fun d => decide (Function.update (c.books s).line.state i 2 d = 0)) =
        Function.update (c.view s asleep).desks.free i false := by
      funext d
      by_cases at_ : d = i
      · subst at_; simp
      · simp [at_,view]
    simp only [serverOf,same,free]
    exact .breaks server
  | opens first =>
    have away : (c.view s asleep).desks.server i = .away := by
      rcases first with rfl | rfl <;> exact server
    have free : (fun d => decide ((c.books s').line.state d = 0)) = Function.update (c.view s asleep).desks.free i true := by
      funext d
      by_cases at_ : d = i
      · subst at_; simp [now,Line.opens]
      · simp [now,Line.opens,at_,view]
    have opened : c.view s' asleep = {c.view s asleep with
        desks := {(c.view s asleep).desks with
          server := Function.update (c.view s asleep).desks.server i .opening
          free := Function.update (c.view s asleep).desks.free i true}
        availableCount := (c.view s asleep).availableCount + 1} := by
      rw [view_clerk pcs patients,free,now]
      rfl
    cases sleeps with
    | @wakes u d l sleeping site =>
      obtain ⟨p,rfl,visit⟩ := c.sleeps_line site
      have client : Function.update (c.view s asleep).desks.client p none = (c.view s asleep).desks.client :=
        Function.update_eq_self_iff.mpr (by simp [view,visit,clientOf])
      rw [view_sleeps,opened,patients,visit]
      simp only [clientOf,waitingOf,client]
      exact .opens away (by simp [view,visit,waitingOf,sleeping])
    | unheard nobody =>
      rw [opened]
      refine .opensAlone away ?_
      intro p waiting
      obtain ⟨visit,sleeping⟩ := waitingOf_asleep waiting
      exact nobody (.patient p) sleeping (by simp [program,site,c.site_visit visit,VisitPc.site])
  | enters =>
    cases sleeps
    rw [idles (by rw [now]) server.symm]
    exact .idles
  | leavesLine =>
    cases sleeps
    rw [stays (by rw [now])]
    exact .serves (.enters server) rfl
  | rests =>
    cases sleeps
    rw [waits (by rw [now])]
    exact .serves (.rests server) rfl
  | answers =>
    obtain ⟨desks,wakes,result⟩ := wakes_view s' awake sleeps others (by simp [patients])
    rw [stays (by rw [now])] at wakes result
    rw [result]
    refine .serves (.answers (Or.inr ⟨server,?_⟩) wakes) wakes.free
    intro p calling
    refine ready.alone (c.deskLock i) ?_ (.patient p) (c.clerk_patient i p).symm (calling_active calling)
    simp [held,ClerkPc.held]
  | lingers =>
    cases sleeps
    rw [waits (by rw [now])]
    exact .serves (.lingers server) rfl
  | collects =>
    cases sleeps
    rw [idles (by rw [now]) server.symm]
    exact .idles
  | records =>
    cases sleeps
    rw [stays (by rw [now])]
    refine .serves (.dismisses server ?_ (Or.inl rfl)) rfl
    intro p leaving
    refine ready.alone (c.deskLock i) ?_ (.patient p) (c.clerk_patient i p).symm (leaving_active leaving)
    simp [held,ClerkPc.held]
  | closes =>
    cases sleeps
    rw [stays (by rw [now])]
    exact .serves (.closes server) rfl

theorem visit_step (ready : (program n).Ready s asleep (.patient p)) (place : c.visit (s.patient p).pc = some at_)
    (moves : c.VisitMoves s p at_ (c.books s') next op label papers) (after : c.visit me.pc = next)
    (late : next = none → c.early me.pc = false) (pcs : c.pc s' = c.pc s)
    (patients : s'.patient = Function.update s.patient p me)
    (sleeps : (program n).Sleeps s (.patient p) asleep op woken asleep') :
    Step (c.view s asleep) label (c.view s' asleep') := by
  have awake := ready.awake
  have held : (program n).held s (.patient p) = at_.held c.lineLock c.deskLock := c.held_visit place
  have client : (c.view s asleep).desks.client p = clientOf (some at_) false := by simp [view,place,awake]
  have waiting : (c.view s asleep).waiting p = waitingOf (some at_) false := by simp [view,place,awake]
  have fresh : (c.view s asleep).desks.fresh p = freshOf (c.early (s.patient p).pc) (some at_) := by simp [view,place]
  have others : ∀ q, ThreadId.patient q ≠ .patient p → (s'.patient q).pc = (s.patient q).pc := by
    intro q other
    have differs : q ≠ p := by rintro rfl; exact other rfl
    simp [patients,differs]
  have moved : ∀ b, c.view s' (Function.update asleep (.patient p) b) = {c.view s asleep with
      desks := {(c.view s asleep).desks with
        free := fun d => (c.books s').line.state d = 0
        client := Function.update (c.view s asleep).desks.client p (clientOf next b)
        fresh := Function.update (c.view s asleep).desks.fresh p (freshOf (c.early me.pc) next)}
      availableCount := (c.books s').line.availableCount
      lineLength := (c.books s').line.lineLength
      waiting := Function.update (c.view s asleep).waiting p (waitingOf next b)} := by
    intro b
    rw [view_sleeps,view_visit pcs patients,patients]
    simp [after]
  -- In front of the line only the line changes, at the desk only the client.
  have inLine : clientOf next true = clientOf (some at_) false → freshOf (c.early me.pc) next = true →
      freshOf (c.early (s.patient p).pc) (some at_) = true → (c.books s').line.state = (c.books s).line.state →
      c.view s' (Function.update asleep (.patient p) true) = {c.view s asleep with
        availableCount := (c.books s').line.availableCount
        lineLength := (c.books s').line.lineLength
        waiting := Function.update (c.view s asleep).waiting p (waitingOf next true)} := by
    intro one two three line
    rw [moved,one,two,line]
    rw [three] at fresh
    exact View.ext (Desks.ext rfl rfl rfl (Function.update_eq_self_iff.mpr client.symm)
      (Function.update_eq_self_iff.mpr fresh.symm)) rfl rfl rfl
  have atDesk : ∀ b, (c.books s').line = (c.books s).line → waitingOf (some at_) false = none →
      freshOf (c.early (s.patient p).pc) (some at_) = false → waitingOf next b = none →
      freshOf (c.early me.pc) next = false →
      c.view s' (Function.update asleep (.patient p) b) = {c.view s asleep with
        desks := {(c.view s asleep).desks with
          client := Function.update (c.view s asleep).desks.client p (clientOf next b)}} := by
    intro b line one two three four
    rw [moved,line,three,four]
    rw [one] at waiting
    rw [two] at fresh
    exact View.ext (Desks.ext rfl rfl rfl rfl (Function.update_eq_self_iff.mpr fresh.symm)) rfl rfl
      (Function.update_eq_self_iff.mpr waiting.symm)
  have walks := moved false
  have still := atDesk false
  rw [show Function.update asleep (.patient p) false = asleep from Function.update_eq_self_iff.mpr awake.symm]
    at walks still
  have free : ∀ d, (fun e => decide (Function.update (c.books s).line.state d 1 e = 0)) =
      Function.update (c.view s asleep).desks.free d false := by
    intro d
    funext e
    by_cases same : e = d
    · subst same; simp
    · simp [same,view]
  have closed : c.lineLock ∈ (program n).held s (.patient p) → ∀ d, (c.view s asleep).desks.server d ≠ .opening := by
    intro line d opening
    exact ready.alone _ line (c.clerk d) (c.clerk_patient d p) (opening_active opening)
  generalize now : c.books s' = books at moves
  cases moves with
  | comes =>
    cases sleeps
    rw [walks,now]
    have same : (c.view s asleep) = {c.view s asleep with
      desks := {(c.view s asleep).desks with
        client := Function.update (c.view s asleep).desks.client p none
        fresh := Function.update (c.view s asleep).desks.fresh p true}
      waiting := Function.update (c.view s asleep).waiting p none} :=
      View.ext (Desks.ext rfl rfl rfl (Function.update_eq_self_iff.mpr client.symm).symm
        (Function.update_eq_self_iff.mpr fresh.symm).symm) rfl rfl (Function.update_eq_self_iff.mpr waiting.symm).symm
    exact same ▸ .idles
  | joins zero =>
    cases sleeps
    rw [inLine rfl rfl rfl (by rw [now]),now]
    exact .joins waiting zero
  | again zero =>
    cases sleeps
    rw [inLine rfl rfl rfl (by rw [now]),now]
    exact .again waiting zero
  | @claims d isFree =>
    cases sleeps
    have step := Step.claims (v := c.view s asleep) (p := p) (d := d) (by simp [waiting,waitingOf]) fresh
      (by simp [view,isFree]) (closed (by simp [held,VisitPc.held]) d)
    rw [if_pos (show _ = none from waiting)] at step
    rw [walks,now]
    simp only [free]
    exact step
  | @claimsAfter d isFree =>
    cases sleeps
    have step := Step.claims (v := c.view s asleep) (p := p) (d := d) (by simp [waiting,waitingOf]) fresh
      (by simp [view,isFree]) (closed (by simp [held,VisitPc.held]) d)
    rw [if_neg (by simp [waiting,waitingOf])] at step
    rw [walks,now]
    simp only [free]
    exact step
  | arrives =>
    cases sleeps
    rw [still (by rw [now]) rfl rfl rfl rfl]
    exact .serves (.arrives client) rfl
  | @calls d =>
    obtain ⟨desks,wakes,result⟩ := wakes_view s' awake sleeps (by simp [pcs]) others
    rw [still (by rw [now]) rfl rfl rfl rfl] at wakes result
    rw [result]
    refine .serves (.calls client ?_ wakes) wakes.free
    intro opened
    refine ready.alone (c.deskLock d) ?_ (c.clerk d) (c.clerk_patient d p) (opened_active opened)
    simp [held,VisitPc.held]
  | @posts d =>
    cases sleeps
    rw [atDesk true (by rw [now]) rfl rfl rfl rfl]
    exact .serves (.posts client) rfl
  | @leaves d =>
    obtain ⟨desks,wakes,result⟩ := wakes_view s' awake sleeps (by simp [pcs]) others
    rw [still (by rw [now]) rfl rfl rfl rfl] at wakes result
    rw [result]
    refine .serves (.leaves client ?_ wakes) wakes.free
    intro answered
    refine ready.alone (c.deskLock d) ?_ (c.clerk d) (c.clerk_patient d p) (answered_active answered)
    simp [held,VisitPc.held]
  | goes =>
    cases sleeps
    rw [still (by rw [now]) rfl rfl rfl (late rfl)]
    exact .serves (.goes client) rfl

-- Asleep or not makes a difference only on the conditions of the counter.
theorem serverOf_awake (site : (at_ : ClerkPc B).site line desk payment breaks served = .sleeping d) (other : d ≠ served)
    (b b' : Bool) : serverOf at_ b = serverOf at_ b' := by
  cases at_ <;> simp_all [serverOf,ClerkPc.site]

theorem visit_awake (site : (at_ : VisitPc D).site line desk lineEmpty served = .sleeping d) (first : d ≠ lineEmpty)
    (other : ∀ i, d ≠ served i) (b b' : Bool) :
    clientOf (some at_) b = clientOf (some at_) b' ∧ waitingOf (some at_) b = waitingOf (some at_) b' := by
  cases at_ <;> simp_all [clientOf,waitingOf,VisitPc.site]
  exact absurd site.symm (other _)

theorem sleeps_apart (sleeps : (program n).Sleeps s t asleep op woken asleep')
    (silent : ∀ d, conditionOf op = some d → d ≠ c.lineEmptyCv ∧ ∀ i, d ≠ c.deskCv i) (u : ThreadId n) :
    asleep' u = asleep u ∨ u = t ∨ ∃ d, site s u = .sleeping d ∧ d ≠ c.lineEmptyCv ∧ ∀ i, d ≠ c.deskCv i := by
  cases sleeps with
  | wait =>
    by_cases same : u = t
    · exact Or.inr (Or.inl same)
    · exact Or.inl (by simp [same])
  | @wakes v d l _ site =>
    by_cases same : u = v
    · exact Or.inr (Or.inr ⟨d,same ▸ site,silent d rfl⟩)
    · exact Or.inl (by simp [same])
  | acquire | release | unheard | skip | stop => exact Or.inl rfl

theorem view_elsewhere (changes : Changes s draw t s' op events) (away : home s t ≠ c.here)
    (sleeps : (program n).Sleeps s t asleep op woken asleep')
    (silent : ∀ d, conditionOf op = some d → d ≠ c.lineEmptyCv ∧ ∀ i, d ≠ c.deskCv i) :
    c.view s' asleep' = c.view s asleep := by
  obtain ⟨pcs,books,early⟩ := c.frame changes away
  have same := sleeps_apart sleeps silent
  have servers : ∀ i, serverOf (c.pc s i) (asleep' (c.clerk i)) = serverOf (c.pc s i) (asleep (c.clerk i)) := by
    intro i
    rcases same (c.clerk i) with same | rfl | ⟨d,site,_,other⟩
    · rw [same]
    · exact absurd (c.home_clerk s i) away
    · rw [c.site_clerk] at site
      exact serverOf_awake site (other i) _ _
  have patients : ∀ p, clientOf (c.visit (s'.patient p).pc) (asleep' (.patient p)) =
        clientOf (c.visit (s.patient p).pc) (asleep (.patient p)) ∧
      waitingOf (c.visit (s'.patient p).pc) (asleep' (.patient p)) =
        waitingOf (c.visit (s.patient p).pc) (asleep (.patient p)) ∧
      freshOf (c.early (s'.patient p).pc) (c.visit (s'.patient p).pc) =
        freshOf (c.early (s.patient p).pc) (c.visit (s.patient p).pc) := by
    intro p
    rcases patients_elsewhere changes away p with ⟨still,own⟩ | ⟨own,before,after⟩
    · rw [still]
      cases visit : c.visit (s.patient p).pc with
      | none => exact ⟨rfl,rfl,rfl⟩
      | some at_ =>
        rcases same (.patient p) with same | own' | ⟨d,site,first,other⟩
        · rw [same]; exact ⟨rfl,rfl,rfl⟩
        · exact absurd own'.symm own
        · have site : (s.patient p).pc.site = .sleeping d := site
          rw [c.site_visit visit] at site
          obtain ⟨one,two⟩ := visit_awake site first other (asleep' (.patient p)) (asleep (.patient p))
          exact ⟨one,two,rfl⟩
    · have outside : c.visit (s.patient p).pc = none := by
        cases visit : c.visit (s.patient p).pc with
        | none => rfl
        | some at_ => exact absurd (c.visit_home visit) before
      have early := early p own
      rw [outside]
      rcases c.visit_away after with visit | visit <;> simp_all [clientOf,waitingOf,freshOf]
  refine View.ext (Desks.ext ?_ ?_ rfl ?_ ?_) ?_ ?_ ?_
  all_goals simp [view,pcs,books,servers,patients]

-- The steps of threads that have nothing to do with the counter.
theorem silent_elsewhere (changes : Changes s draw t s' op events) (going : site s t ≠ .ended)
    (away : home s t ≠ c.here) : ∀ d, conditionOf op = some d → d ≠ c.lineEmptyCv ∧ ∀ i, d ≠ c.deskCv i := by
  intro d condition
  by_cases manager : t = .hospitalManager
  · subst manager
    cases changes with
    | manager ran =>
      rcases manager_signals ran with none_ | ⟨b,rfl,which⟩
      · simp [none_] at condition
      · cases Option.some.inj condition
        exact c.apart which
  · have station := op_home changes going manager condition
    constructor
    · rintro rfl
      exact away (by rw [← station,c.lock_line,c.station_line])
    · rintro i rfl
      exact away (by rw [← station,c.lock_desk,c.station_desk])

end

end Counter
end Nachos.Hospital
