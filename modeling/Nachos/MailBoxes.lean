import Nachos.PostOffice

-- What happens at one mailbox is a run of its SynchList.
namespace Nachos.PostOffice
open Monitor

section
variable {M T : Type} [DecidableEq M] [DecidableEq T]

-- Where a thread is in the SynchList of a box, `here` if the box is of its machine.
def WorkerPc.inBox (here : Bool) (box : Int) : WorkerPc M → SynchList.Pc (Mail M)
  | .putting number pc => if here ∧ number = box then pc else .outside
  | .testing | .asleep | .receiving => .outside

def ClientPc.inBox (here : Bool) (box : Int) : ClientPc M → SynchList.Pc (Mail M)
  | .getting number pc => if here ∧ number = box then pc else .outside
  | .outside | .sending _ _ _ | .testing _ _ | .asleep _ _ | .leaving _ _ | .got _ | .ended => .outside

def inBox (s : State M T) (m : M) (box : Int) : Agent M T → SynchList.Pc (Mail M)
  | .worker n => (s.worker n).inBox (n = m) box
  | .client n t => (s.client n t).inBox (n = m) box
  | .poll _ | .sendDone _ => .outside

def mailbox (s : State M T) (m : M) (box : Int) : SynchList.State (Agent M T) (Mail M) :=
  ⟨s.boxes m box,inBox s m box⟩

def sleepsAt (s : State M T) (asleep : Agent M T → Bool) (m : M) (box : Int) (agent : Agent M T) : Bool :=
  (inBox s m box agent).waits && asleep agent

theorem inBox_setWorker (s : State M T) (n : M) (pc : WorkerPc M) (m : M) (box : Int) :
    inBox (s.setWorker n pc) m box = Function.update (inBox s m box) (.worker n) (pc.inBox (n = m) box) := by
  funext agent
  cases agent with
  | worker u =>
    by_cases same : u = n
    · subst same; simp [inBox,State.setWorker]
    · simp [inBox,State.setWorker,same]
  | client | poll | sendDone => simp [inBox,State.setWorker]

theorem inBox_setClient (s : State M T) (n : M) (t : T) (pc : ClientPc M) (m : M) (box : Int) :
    inBox (s.setClient n t pc) m box = Function.update (inBox s m box) (.client n t) (pc.inBox (n = m) box) := by
  funext agent
  cases agent with
  | client u v =>
    by_cases machine : u = n
    · subst machine
      by_cases thread : v = t
      · subst thread; simp [inBox,State.setClient]
      · simp [inBox,State.setClient,thread]
    · simp [inBox,State.setClient,machine]
  | worker | poll | sendDone => simp [inBox,State.setClient]

omit [DecidableEq T] in
theorem inBox_woken {s after : State M T} (woken : Woken s after) (m : M) (box : Int) :
    inBox after m box = inBox s m box := by
  funext agent
  cases agent with
  | worker n =>
    rcases woken.worker n with same | ⟨before,now⟩
    · simp [inBox,same]
    · simp [inBox,before,now,WorkerPc.inBox]
  | client n t =>
    rcases woken.client n t with same | ⟨number,success,before,now⟩
    · simp [inBox,same]
    · simp [inBox,before,now,ClientPc.inBox]
  | poll | sendDone => rfl

-- A thread in the SynchList of a box holds and needs its lock as the code there says.
theorem inBox_held (numBoxes : Int) {s : State M T} {agent : Agent M T} (inside : () ∈ (inBox s m box agent).held) :
    .messages m box ∈ (program M T numBoxes).held s agent ∧
      (program M T numBoxes).site s agent = (inBox s m box agent).site.placed (.messages m box) ⟨m,box⟩ := by
  cases agent with
  | worker n =>
    cases place : s.worker n with
    | putting number pc =>
      simp only [inBox,place,WorkerPc.inBox,decide_eq_true_eq] at inside ⊢
      split at inside
      · rename_i same
        obtain ⟨rfl,rfl⟩ := same
        refine ⟨?_,?_⟩
        · simp only [program,place,WorkerPc.held]
          exact List.mem_map.mpr ⟨(),inside,rfl⟩
        · simp [program,place,WorkerPc.site]
      · simp [SynchList.Pc.held] at inside
    | testing | asleep | receiving => simp [inBox,place,WorkerPc.inBox,SynchList.Pc.held] at inside
  | client n t =>
    cases place : s.client n t with
    | getting number pc =>
      simp only [inBox,place,ClientPc.inBox,decide_eq_true_eq] at inside ⊢
      split at inside
      · rename_i same
        obtain ⟨rfl,rfl⟩ := same
        refine ⟨?_,?_⟩
        · simp only [program,place,ClientPc.held]
          exact List.mem_map.mpr ⟨(),inside,rfl⟩
        · simp [program,place,ClientPc.site]
      · simp [SynchList.Pc.held] at inside
    | outside | sending | testing | asleep | leaving | got | ended =>
      simp [inBox,place,ClientPc.inBox,SynchList.Pc.held] at inside
  | poll | sendDone => simp [inBox,SynchList.Pc.held] at inside

-- Asleep on the condition of the box.
theorem inBox_sleeping (numBoxes : Int) {s : State M T} {agent : Agent M T} :
    (program M T numBoxes).site s agent = .sleeping ⟨m,box⟩ ↔ (inBox s m box agent).waits = true := by
  constructor
  · intro site
    cases agent with
    | worker n =>
      cases place : s.worker n with
      | putting number pc =>
        simp only [program,place,WorkerPc.site] at site
        cases pc <;> cases site
        simp [inBox,place,WorkerPc.inBox,SynchList.Pc.waits]
      | testing | asleep | receiving => simp [program,place,WorkerPc.site] at site
    | client n t =>
      cases place : s.client n t with
      | getting number pc =>
        simp only [program,place,ClientPc.site] at site
        cases pc <;> cases site
        simp [inBox,place,ClientPc.inBox,SynchList.Pc.waits]
      | outside | sending | testing | asleep | leaving | got | ended => simp [program,place,ClientPc.site] at site
    | poll | sendDone => simp [program] at site
  · intro waits
    have place : inBox s m box agent = .waiting := by
      cases pc : inBox s m box agent <;> simp_all [SynchList.Pc.waits]
    have inside : () ∈ (inBox s m box agent).held := by simp [place,SynchList.Pc.held]
    rw [(inBox_held numBoxes inside).2,place]
    rfl

omit [DecidableEq M] in
theorem advance_waits {list list' : List (Mail M)} (advanced : SynchList.advance list request pc = .ok (list',now,op,events)) :
    (op = .wait () () ∧ now.waits = true) ∨ (op ≠ .wait () () ∧ now.waits = false) := by
  cases pc with
  | outside => cases request <;> cases advanced <;> exact .inr ⟨by simp,rfl⟩
  | appending | appended | signalled | removed | ended => cases advanced; exact .inr ⟨by simp,rfl⟩
  | removing | waiting =>
    cases list with
    | nil =>
      simp only [SynchList.advance,List.isEmpty_nil,if_true] at advanced
      cases advanced
      exact .inl ⟨rfl,rfl⟩
    | cons =>
      simp only [SynchList.advance,List.isEmpty_cons] at advanced
      cases advanced
      exact .inr ⟨by simp,rfl⟩

-- A thread that is ready is ready in the SynchList of the box it is at.
theorem ready_inBox {s : State M T} (ready : (program M T numBoxes).Ready s asleep agent)
    (going : (inBox s m box agent).site ≠ .ended) :
    (SynchList.program (Agent M T) (Mail M)).Ready (mailbox s m box) (sleepsAt s asleep m box) agent := by
  refine ⟨by simp [sleepsAt,ready.awake],going,?_⟩
  intro l holds u other active
  have inside : () ∈ (inBox s m box agent).held := holds
  have there : () ∈ (inBox s m box u).held := active.1
  have needs : (inBox s m box u).site.needs (fun _ => ()) ≠ some () := active.2
  refine ready.alone (.messages m box) (inBox_held numBoxes inside).1 u other ⟨(inBox_held numBoxes there).1,?_⟩
  rw [(inBox_held numBoxes there).2]
  cases site : (inBox s m box u).site with
  | entering | sleeping => simp [site,Site.needs] at needs
  | free | ended => simp [Site.placed,Site.needs]

theorem sleeps_inBox {s s' : State M T} (ready : (program M T numBoxes).Ready s asleep agent)
    (advanced : SynchList.advance (s.boxes m box) request (inBox s m box agent) = .ok (list,now,op,events))
    (moved : inBox s' m box = Function.update (inBox s m box) agent now)
    (sleeps : (program M T numBoxes).Sleeps s agent asleep (op.placed (.messages m box) ⟨m,box⟩) woken asleep') :
    (SynchList.program (Agent M T) (Mail M)).Sleeps (mailbox s m box) agent (sleepsAt s asleep m box) op woken
      (sleepsAt s' asleep' m box) := by
  -- A step that is not a Wait leaves the thread off the condition.
  have awake : now.waits = false → sleepsAt s' asleep m box = sleepsAt s asleep m box := by
    intro away
    funext u
    by_cases self : u = agent
    · subst self; simp [sleepsAt,moved,away,ready.awake]
    · simp [sleepsAt,moved,self]
  cases op with
  | wait c l =>
    obtain ⟨_,waits⟩ := (advance_waits advanced).resolve_right fun other => other.1 rfl
    cases sleeps
    have equal : sleepsAt s' (Function.update asleep agent true) m box =
        Function.update (sleepsAt s asleep m box) agent true := by
      funext u
      by_cases self : u = agent
      · subst self; simp [sleepsAt,moved,waits]
      · simp [sleepsAt,moved,self]
    rw [equal]
    exact .wait
  | signal c l =>
    obtain ⟨_,away⟩ := (advance_waits advanced).resolve_left fun other => by cases other.1
    cases sleeps with
    | @wakes u _ _ asleep_ site =>
      have waits := (inBox_sleeping numBoxes).mp site
      have equal : sleepsAt s' (Function.update asleep u false) m box =
          Function.update (sleepsAt s asleep m box) u false := by
        funext v
        by_cases self : v = u
        · subst self; simp [sleepsAt]
        · have same := congrFun (awake away) v
          simpa [sleepsAt,self] using same
      rw [equal]
      refine .wakes (by simp [sleepsAt,waits,asleep_]) ?_
      change (inBox s m box u).site = .sleeping c
      cases pc : inBox s m box u <;> simp_all [SynchList.Pc.waits,SynchList.Pc.site]
    | unheard nobody =>
      rw [awake away]
      refine .unheard ?_
      intro u sleeping _
      simp only [sleepsAt,Bool.and_eq_true] at sleeping
      exact nobody u sleeping.2 ((inBox_sleeping numBoxes).mpr sleeping.1)
  | acquire l =>
    obtain ⟨_,away⟩ := (advance_waits advanced).resolve_left fun other => by cases other.1
    cases sleeps
    rw [awake away]
    exact .acquire
  | release l =>
    obtain ⟨_,away⟩ := (advance_waits advanced).resolve_left fun other => by cases other.1
    cases sleeps
    rw [awake away]
    exact .release
  | skip =>
    obtain ⟨_,away⟩ := (advance_waits advanced).resolve_left fun other => by cases other.1
    cases sleeps
    rw [awake away]
    exact .skip
  | stop =>
    obtain ⟨_,away⟩ := (advance_waits advanced).resolve_left fun other => by cases other.1
    cases sleeps
    rw [awake away]
    exact .stop

-- A step at the box, as a step of its SynchList.
theorem box_runs {s s' : State M T}
    (path : (SynchList.program (Agent M T) (Mail M)).Runs history (sleepsAt s asleep m box) (mailbox s m box))
    (ready : (program M T numBoxes).Ready s asleep agent) (going : (inBox s m box agent).site ≠ .ended)
    (advanced : SynchList.advance (s.boxes m box) request (inBox s m box agent) = .ok (list,now,op,events))
    (stored : s'.boxes m box = list) (moved : inBox s' m box = Function.update (inBox s m box) agent now)
    (sleeps : (program M T numBoxes).Sleeps s agent asleep (op.placed (.messages m box) ⟨m,box⟩) woken asleep') :
    (SynchList.program (Agent M T) (Mail M)).Runs (⟨agent,op,woken,events⟩ :: history) (sleepsAt s' asleep' m box)
      (mailbox s' m box) := by
  have executed : (SynchList.program (Agent M T) (Mail M)).exec agent (mailbox s m box) request =
      .ok (mailbox s' m box,op,events) := by
    simp only [SynchList.program,mailbox,advanced,stored,moved]
    rfl
  exact .step path (ready_inBox ready going) executed (sleeps_inBox ready advanced moved sleeps)

-- The operation is not one on the condition of the box.
def Apart (m : M) (box : Int) (op : Op (LockId M) (ConditionId M)) : Prop :=
  ∀ l, op ≠ .wait ⟨m,box⟩ l ∧ op ≠ .signal ⟨m,box⟩ l

theorem sleeps_elsewhere {s s' : State M T} (ready : (program M T numBoxes).Ready s asleep agent)
    (changes : Changes s agent s' op events) (same : inBox s' m box = inBox s m box) (apart : Apart m box op)
    (sleeps : (program M T numBoxes).Sleeps s agent asleep op woken asleep') :
    sleepsAt s' asleep' m box = sleepsAt s asleep m box := by
  funext u
  cases sleeps with
  | acquire | release | skip | stop | unheard => simp [sleepsAt,same]
  | @wait c l =>
    by_cases self : u = agent
    · subst self
      have away : (inBox s' m box u).waits = false := by
        by_contra waits
        have here := (inBox_sleeping numBoxes).mpr (by simpa using waits)
        cases exec_follows numBoxes changes ready.going with
        | wait _ _ _ site =>
          rw [here] at site
          cases site
          exact (apart l).1 rfl
      rw [same] at away
      simp [sleepsAt,same,away]
    · simp [sleepsAt,same,self]
  | @wakes v c l asleep_ site =>
    by_cases self : u = v
    · subst self
      have away : (inBox s m box u).waits = false := by
        by_contra waits
        have here := (inBox_sleeping numBoxes).mpr (by simpa using waits)
        rw [here] at site
        cases site
        exact (apart l).2 rfl
      simp [sleepsAt,same,away]
    · simp [sleepsAt,same,self]

-- What is reported of the SynchList of one box.
def boxEvent (m : M) (box : Int) : Event M → Option (SynchList.Event (Mail M))
  | .messages n number event => if n = m ∧ number = box then some event else none
  | .called .. | .sent .. | .sendDone .. | .sendReturned .. | .polled .. | .received .. => none

theorem boxEvent_same (m : M) (box : Int) (events : List (SynchList.Event (Mail M))) :
    (events.map (Event.messages m box)).filterMap (boxEvent m box) = events := by
  rw [List.filterMap_map]
  simp [boxEvent,Function.comp_def]

theorem boxEvent_other (other : ¬(n = m ∧ number = box)) (events : List (SynchList.Event (Mail M))) :
    (events.map (Event.messages n number)).filterMap (boxEvent m box) = [] := by
  rw [List.filterMap_map]
  simp [boxEvent,Function.comp_def,other]

-- The run of the SynchList of a box goes on, with what the step reports of it.
def Extends (s' : State M T) (asleep' : Agent M T → Bool) (m : M) (box : Int) (events : List (Event M))
    (history : List (Entry (Agent M T) Unit Unit (SynchList.Event (Mail M)))) : Prop :=
  ∃ longer, (SynchList.program (Agent M T) (Mail M)).Runs longer (sleepsAt s' asleep' m box) (mailbox s' m box) ∧
    ∀ kind, SynchList.passed kind longer = SynchList.passed kind history ++
      (events.filterMap (boxEvent m box)).filterMap kind

section
variable {s s' : State M T} {history : List (Entry (Agent M T) Unit Unit (SynchList.Event (Mail M)))}
  {asleep asleep' : Agent M T → Bool} {agent : Agent M T} {n m : M} {number box : Int}

theorem extends_elsewhere
    (path : (SynchList.program (Agent M T) (Mail M)).Runs history (sleepsAt s asleep m box) (mailbox s m box))
    (ready : (program M T numBoxes).Ready s asleep agent) (changes : Changes s agent s' op events)
    (sleeps : (program M T numBoxes).Sleeps s agent asleep op woken asleep') (stored : s'.boxes m box = s.boxes m box)
    (same : inBox s' m box = inBox s m box) (apart : Apart m box op) (none_ : events.filterMap (boxEvent m box) = []) :
    Extends s' asleep' m box events history := by
  refine ⟨history,?_,by simp [none_]⟩
  have boxed : mailbox s' m box = mailbox s m box := by simp [mailbox,stored,same]
  rw [sleeps_elsewhere ready changes same apart sleeps,boxed]
  exact path

theorem extends_here
    (path : (SynchList.program (Agent M T) (Mail M)).Runs history (sleepsAt s asleep m box) (mailbox s m box))
    (ready : (program M T numBoxes).Ready s asleep agent) (going : (inBox s m box agent).site ≠ .ended)
    (advanced : SynchList.advance (s.boxes m box) request (inBox s m box agent) = .ok (list,now,op,events))
    (stored : s'.boxes m box = list) (moved : inBox s' m box = Function.update (inBox s m box) agent now)
    (sleeps : (program M T numBoxes).Sleeps s agent asleep (op.placed (.messages m box) ⟨m,box⟩) woken asleep')
    (reported : reports.filterMap (boxEvent m box) = events) :
    Extends s' asleep' m box reports history := by
  refine ⟨_,box_runs path ready going advanced stored moved sleeps,?_⟩
  intro kind
  rw [SynchList.passed_cons,reported]

omit [DecidableEq T] in
theorem setBox_same (s : State M T) (m : M) (box : Int) (list : List (Mail M)) : (s.setBox m box list).boxes m box = list := by
  simp [State.setBox]

omit [DecidableEq T] in
theorem setBox_other (s : State M T) (list : List (Mail M)) (other : ¬(n = m ∧ number = box)) :
    (s.setBox n number list).boxes m box = s.boxes m box := by
  by_cases machine : m = n
  · subst machine
    have differs : box ≠ number := by rintro rfl; exact other ⟨rfl,rfl⟩
    simp [State.setBox,differs]
  · simp [State.setBox,machine]

omit [DecidableEq M] in
theorem placed_apart (other : ¬(n = m ∧ number = box)) (op : Op Unit Unit) :
    Apart m box (op.placed (.messages n number) ⟨n,number⟩) := by
  intro l
  cases op <;> simp only [Op.placed,ne_eq,reduceCtorEq,not_false_eq_true,and_self,and_true,true_and]
  all_goals
    intro same
    cases same
    exact other ⟨rfl,rfl⟩

-- A worker or client that is outside of the SynchList before and after the step.
theorem worker_outside (before : WorkerPc.inBox (n = m) box (s.worker n) = .outside)
    (now : WorkerPc.inBox (n = m) box pc = .outside) : inBox (s.setWorker n pc) m box = inBox s m box := by
  rw [inBox_setWorker,now]
  exact Function.update_eq_self_iff.mpr before.symm

theorem client_outside (before : ClientPc.inBox (n = m) box (s.client n t) = .outside)
    (now : ClientPc.inBox (n = m) box pc = .outside) : inBox (s.setClient n t pc) m box = inBox s m box := by
  rw [inBox_setClient,now]
  exact Function.update_eq_self_iff.mpr before.symm

-- A step of a worker or a client in the SynchList of a box, seen from any box.
theorem extends_listed
    (path : (SynchList.program (Agent M T) (Mail M)).Runs history (sleepsAt s asleep m box) (mailbox s m box))
    (ready : (program M T numBoxes).Ready s asleep agent)
    (changes : Changes s agent s' op' reports)
    (sleeps : (program M T numBoxes).Sleeps s agent asleep op' woken asleep')
    (placed : op' = op.placed (.messages n number) ⟨n,number⟩)
    (advanced : SynchList.advance (s.boxes n number) request pc = .ok (list,now,op,events)) (going : pc.site ≠ .ended)
    (stored : s'.boxes = (s.setBox n number list).boxes)
    (reported : reports.filterMap (boxEvent m box) = (events.map (Event.messages n number)).filterMap (boxEvent m box))
    (before : inBox s m box agent = if n = m ∧ number = box then pc else .outside)
    (moved : inBox s' m box = Function.update (inBox s m box) agent (if n = m ∧ number = box then now else .outside)) :
    Extends s' asleep' m box reports history := by
  subst placed
  by_cases here : n = m ∧ number = box
  · obtain ⟨rfl,rfl⟩ := here
    rw [if_pos ⟨rfl,rfl⟩] at before moved
    refine extends_here path ready (before ▸ going) (before ▸ advanced) ?_ moved sleeps ?_
    · rw [stored,setBox_same]
    · rw [reported,boxEvent_same]
  · rw [if_neg here] at before moved
    refine extends_elsewhere path ready changes sleeps ?_ ?_ (placed_apart here op) ?_
    · rw [stored,setBox_other s list here]
    · rw [moved]
      exact Function.update_eq_self_iff.mpr before.symm
    · rw [reported,boxEvent_other here]

theorem step_mailbox
    (path : (SynchList.program (Agent M T) (Mail M)).Runs history (sleepsAt s asleep m box) (mailbox s m box))
    (ready : (program M T numBoxes).Ready s asleep agent) (changes : Changes s agent s' op events)
    (sleeps : (program M T numBoxes).Sleeps s agent asleep op woken asleep') :
    Extends s' asleep' m box events history := by
  have elsewhere := extends_elsewhere path ready changes sleeps
  cases changes with
  | idles => exact elsewhere rfl rfl (fun l => by simp) rfl
  | reads =>
    refine elsewhere ?_ (inBox_woken (incoming_woken _ _) m box) (fun l => by simp) rfl
    exact congrFun (congrFun (congrArg State.boxes (incoming_woken _ _).rest) m) box
  | completes =>
    refine elsewhere ?_ (inBox_woken (sent_woken _ _) m box) (fun l => by simp) rfl
    exact congrFun (congrFun (congrArg State.boxes (sent_woken _ _).rest) m) box
  | dozes place | hears place =>
    exact elsewhere rfl (worker_outside (by simp [State.setAvailable,place,WorkerPc.inBox]) rfl) (fun l => by simp) rfl
  | calls _ _ _ place | checks place | ends place | leaves place =>
    exact elsewhere rfl (client_outside (by simp [place,ClientPc.inBox]) rfl) (fun l => by simp) rfl
  | sleeps place | takes place =>
    exact elsewhere rfl (client_outside (by simp [State.setSent,place,ClientPc.inBox]) rfl) (fun l => by simp) rfl
  | posts place sent =>
    obtain ⟨_,_,_,_,_,wire,rfl,_⟩ := send_ok sent
    exact elsewhere rfl (client_outside (by simp [place,ClientPc.inBox]) rfl) (fun l => by simp) rfl
  | @receives n after pktHdr buffer place read same =>
    have advanced : SynchList.advance (s.boxes n buffer.mailHdr.to_) (.append (mailOf pktHdr buffer)) .outside =
        .ok (_,_,.acquire (),[]) := rfl
    cases read
    refine extends_listed path ready (.receives place rfl same) sleeps rfl advanced (by simp [SynchList.Pc.site]) ?_ rfl ?_ ?_
    · rw [setBox_self]
      rfl
    · simp [inBox,place,WorkerPc.inBox]
    · rw [inBox_setWorker]
      congr 1
      simp [WorkerPc.inBox]
  | @puts n number pc list now op events place advanced =>
    refine extends_listed path ready (.puts place advanced) sleeps rfl advanced ?_ rfl rfl ?_ ?_
    · intro ended
      exact ready.going (by simp [program,place,WorkerPc.site,ended,Site.placed])
    · simp [inBox,place,WorkerPc.inBox]
    · rw [inBox_setWorker]
      congr 1
      by_cases done : pc = .signalled
      · subst done
        cases advanced
        simp [WorkerPc.inBox]
      · simp [done,WorkerPc.inBox]
  | @asks n t number place =>
    have advanced : SynchList.advance (s.boxes n number) .remove .outside = .ok (_,_,.acquire (),[]) := rfl
    refine extends_listed path ready (.asks place) sleeps rfl advanced (by simp [SynchList.Pc.site]) ?_ rfl ?_ ?_
    · rw [setBox_self]
      rfl
    · simp [inBox,place,ClientPc.inBox]
    · rw [inBox_setClient]
      congr 1
      simp [ClientPc.inBox]
  | @gets n t number pc list now op events next place advanced got other =>
    refine extends_listed path ready (.gets place advanced got other) sleeps rfl advanced ?_ rfl rfl ?_ ?_
    · intro ended
      exact ready.going (by simp [program,place,ClientPc.site,ended,Site.placed])
    · simp [inBox,place,ClientPc.inBox]
    · rw [inBox_setClient]
      congr 1
      by_cases done : ∃ mail, pc = .removed mail
      · obtain ⟨mail,rfl⟩ := done
        cases advanced
        simp [got mail rfl,ClientPc.inBox]
      · simp [other fun mail same => done ⟨mail,same⟩,ClientPc.inBox]

end

-- What the steps of a history reported of one kind, oldest first.
def passed (kind : Event M → Option α) (history : List (Entry (Agent M T) (LockId M) (ConditionId M) (Event M))) : List α :=
  history.reverse.flatMap fun entry => entry.events.filterMap kind

omit [DecidableEq M] [DecidableEq T] in
theorem passed_cons (kind : Event M → Option α) (entry : Entry (Agent M T) (LockId M) (ConditionId M) (Event M))
    (history : List (Entry (Agent M T) (LockId M) (ConditionId M) (Event M))) :
    passed kind (entry :: history) = passed kind history ++ entry.events.filterMap kind := by
  simp [passed]

theorem runs_mailbox (path : (program M T numBoxes).Runs history asleep s) (m : M) (box : Int) :
    ∃ listed, (SynchList.program (Agent M T) (Mail M)).Runs listed (sleepsAt s asleep m box) (mailbox s m box) ∧
      ∀ kind, SynchList.passed kind listed = passed (fun event => (boxEvent m box event).bind kind) history := by
  induction path with
  | initial =>
    refine ⟨[],?_,fun _ => rfl⟩
    have quiet : sleepsAt (program M T numBoxes).initial (fun _ => false) m box = fun _ => false := by
      funext agent
      simp [sleepsAt]
    have empty : mailbox (program M T numBoxes).initial m box = (SynchList.program (Agent M T) (Mail M)).initial := by
      simp only [mailbox,SynchList.program]
      congr 1
      funext agent
      cases agent <;> rfl
    rw [quiet,empty]
    exact .initial
  | step _ ready executed sleeps ih =>
    obtain ⟨listed,path,same⟩ := ih
    obtain ⟨longer,runs,more⟩ := step_mailbox path ready (exec_changes executed) sleeps
    refine ⟨longer,runs,?_⟩
    intro kind
    rw [more,same,passed_cons,List.filterMap_filterMap]

end
end Nachos.PostOffice
