import Nachos.MailBoxes
import Nachos.Library.Completion

-- The sends of a machine: its Network does one at a time, and a Send returns after
-- the completion of its own packet.
namespace Nachos.PostOffice
open Monitor Protocol

section
variable {M T : Type} [DecidableEq M] [DecidableEq T] {s s' : State M T}

-- The worker only appends, and to the box of its mail; clients only remove. Each
-- semaphore is one for the threads of its machine.
structure Roles (s : State M T) : Prop where
  worker : ∀ m box pc, s.worker m = .putting box pc →
    (∃ mail, pc = .appending mail ∧ mail.buffer.mailHdr.to_ = box) ∨ pc = .appended ∨ pc = .signalled
  client : ∀ m t box pc, s.client m t = .getting box pc → pc = .removing ∨ pc = .waiting ∨ ∃ mail, pc = .removed mail
  sent : ∀ m agent, agent ∈ (s.messageSent m).queue → ∃ t, agent = .client m t
  available : ∀ m agent, agent ∈ (s.messageAvailable m).queue → agent = .worker m

omit [DecidableEq M] [DecidableEq T] in
theorem initial_roles : Roles (initial M T) := by
  refine ⟨?_,?_,?_,?_⟩ <;> simp [initial,Semaphore.new]

omit [DecidableEq T] in
theorem setWorker_roles (roles : Roles s) (fits : ∀ box at_, pc = .putting box at_ →
    (∃ mail, at_ = .appending mail ∧ mail.buffer.mailHdr.to_ = box) ∨ at_ = .appended ∨ at_ = .signalled) :
    Roles (s.setWorker m pc) := by
  refine ⟨?_,roles.client,roles.sent,roles.available⟩
  intro n box at_ place
  by_cases same : n = m
  · subst same
    exact fits box at_ (by simpa [State.setWorker] using place)
  · exact roles.worker n box at_ (by simpa [State.setWorker,same] using place)

theorem setClient_roles (roles : Roles s) (fits : ∀ box at_, pc = .getting box at_ →
    at_ = .removing ∨ at_ = .waiting ∨ ∃ mail, at_ = .removed mail) : Roles (s.setClient m t pc) := by
  refine ⟨roles.worker,?_,roles.sent,roles.available⟩
  intro n u box at_ place
  rw [client_setClient] at place
  split at place
  · exact fits box at_ place
  · exact roles.client n u box at_ place

omit [DecidableEq T] in
theorem setAvailable_roles (roles : Roles s) (fits : ∀ agent ∈ semaphore.queue, agent = .worker m) :
    Roles (s.setAvailable m semaphore) := by
  refine ⟨roles.worker,roles.client,roles.sent,?_⟩
  intro n agent queued
  by_cases same : n = m
  · subst same
    exact fits agent (by simpa [State.setAvailable] using queued)
  · exact roles.available n agent (by simpa [State.setAvailable,same] using queued)

omit [DecidableEq T] in
theorem setSent_roles (roles : Roles s) (fits : ∀ agent ∈ semaphore.queue, ∃ t, agent = .client m t) :
    Roles (s.setSent m semaphore) := by
  refine ⟨roles.worker,roles.client,?_,roles.available⟩
  intro n agent queued
  by_cases same : n = m
  · subst same
    exact fits agent (by simpa [State.setSent] using queued)
  · exact roles.sent n agent (by simpa [State.setSent,same] using queued)

-- The rest of the state does not matter.
omit [DecidableEq M] [DecidableEq T] in
theorem Roles.same {after : State M T} (roles : Roles s) (worker : after.worker = s.worker)
    (client : after.client = s.client)
    (sent : after.messageSent = s.messageSent) (available : after.messageAvailable = s.messageAvailable) : Roles after :=
  ⟨worker ▸ roles.worker,client ▸ roles.client,sent ▸ roles.sent,available ▸ roles.available⟩

omit [DecidableEq M] [DecidableEq T] in
theorem woken_roles {after : State M T} (roles : Roles s) (woken : Woken s after) : Roles after := by
  have sent : after.messageSent = s.messageSent := by rw [woken.rest]
  have available : after.messageAvailable = s.messageAvailable := by rw [woken.rest]
  refine ⟨?_,?_,sent ▸ roles.sent,available ▸ roles.available⟩
  · intro m box pc place
    rcases woken.worker m with same | ⟨_,now⟩
    · exact roles.worker m box pc (same ▸ place)
    · simp [now] at place
  · intro m t box pc place
    rcases woken.client m t with same | ⟨number,success,_,now⟩
    · exact roles.client m t box pc (same ▸ place)
    · simp [now] at place

-- The queue after V is what is left of the queue before.
omit [DecidableEq M] [DecidableEq T] in
theorem v_queue (semaphore : Semaphore (Agent M T)) : ∀ agent ∈ semaphore.v.1.queue, agent ∈ semaphore.queue := by
  intro agent queued
  cases waiting : semaphore.queue with
  | nil => simp [Semaphore.v,waiting] at queued
  | cons first rest =>
    simp only [Semaphore.v,waiting] at queued
    simp [queued]

-- What a worker in Append can do next.
omit [DecidableEq M] in
theorem append_advances
    (place : (∃ mail, pc = .appending mail ∧ mail.buffer.mailHdr.to_ = box) ∨ pc = .appended ∨ pc = .signalled)
    {list : List (Mail M)} (advanced : SynchList.advance list .finish pc = .ok (list',now,op,events)) :
    (∃ mail, pc = .appending mail ∧ mail.buffer.mailHdr.to_ = box ∧ now = .appended ∧ events = [.appended mail]) ∨
      (pc = .appended ∧ now = .signalled ∧ events = []) ∨ (pc = .signalled ∧ events = []) := by
  rcases place with ⟨mail,rfl,to_⟩ | rfl | rfl
  · cases advanced
    exact .inl ⟨mail,rfl,to_,rfl,rfl⟩
  · cases advanced
    exact .inr (.inl ⟨rfl,rfl,rfl⟩)
  · cases advanced
    exact .inr (.inr ⟨rfl,rfl⟩)

-- What a client in Remove can do next.
omit [DecidableEq M] in
theorem remove_advances {list : List (Mail M)}
    (place : pc = .removing ∨ pc = .waiting ∨ ∃ mail, pc = .removed mail)
    (advanced : SynchList.advance list .finish pc = .ok (list',now,op,events)) :
    ((∃ mail, pc = .removed mail) ∨ now = .waiting ∨ ∃ mail, now = .removed mail) ∧ ∀ mail, .appended mail ∉ events := by
  have loops : SynchList.advance list .finish .waiting = .ok (list',now,op,events) →
      (now = .waiting ∨ ∃ mail, now = .removed mail) ∧ ∀ mail, .appended mail ∉ events := by
    intro advanced
    cases list with
    | nil =>
      simp only [SynchList.advance,List.isEmpty_nil,if_true] at advanced
      cases advanced
      exact ⟨.inl rfl,by simp⟩
    | cons mail rest =>
      simp only [SynchList.advance,List.isEmpty_cons] at advanced
      cases advanced
      exact ⟨.inr ⟨mail,rfl⟩,by simp⟩
  rcases place with rfl | rfl | ⟨mail,rfl⟩
  · obtain ⟨after,none_⟩ := loops advanced
    exact ⟨.inr after,none_⟩
  · obtain ⟨after,none_⟩ := loops advanced
    exact ⟨.inr after,none_⟩
  · cases advanced
    exact ⟨.inl ⟨mail,rfl⟩,by simp⟩

theorem step_roles (roles : Roles s) (changes : Changes s agent s' op events) : Roles s' := by
  cases changes with
  | idles => exact roles
  | dozes place empty =>
    refine setWorker_roles (setAvailable_roles roles ?_) (by simp)
    intro agent queued
    rcases List.mem_append.mp queued with before | now
    · exact roles.available _ agent before
    · exact List.mem_singleton.mp now
  | hears place some_ => exact setWorker_roles (setAvailable_roles roles (roles.available _)) (by simp)
  | receives place read same =>
    cases read
    refine setWorker_roles (roles.same rfl rfl rfl rfl) ?_
    rintro box at_ ⟨rfl,rfl⟩
    exact .inl ⟨_,rfl,rfl⟩
  | @puts m box pc list now op events place advanced =>
    refine setWorker_roles (roles.same rfl rfl rfl rfl) ?_
    intro number at_ here
    rcases append_advances (roles.worker m box pc place) advanced with ⟨mail,rfl,_,rfl,_⟩ | ⟨rfl,rfl,_⟩ | ⟨rfl,_⟩
    · simp at here
      exact .inr (.inl here.2.symm)
    · simp at here
      exact .inr (.inr here.2.symm)
    · simp at here
  | calls | leaves | checks | ends => exact setClient_roles roles (by simp)
  | posts place sent =>
    obtain ⟨_,_,_,_,_,wire,rfl,_⟩ := send_ok sent
    exact setClient_roles (roles.same rfl rfl rfl rfl) (by simp)
  | @sleeps m t number success place empty =>
    refine setClient_roles (setSent_roles roles ?_) (by simp)
    intro agent queued
    rcases List.mem_append.mp queued with before | now
    · exact roles.sent _ agent before
    · exact ⟨t,List.mem_singleton.mp now⟩
  | takes place some_ => exact setClient_roles (setSent_roles roles (roles.sent _)) (by simp)
  | asks place =>
    refine setClient_roles roles ?_
    intro box at_ here
    cases here
    exact .inl rfl
  | @gets m t box pc list now op events next place advanced got other =>
    refine setClient_roles (roles.same rfl rfl rfl rfl) ?_
    intro number at_ here
    rcases (remove_advances (roles.client m t box pc place) advanced).1 with ⟨mail,rfl⟩ | after
    · rw [got mail rfl] at here
      cases here
    · by_cases done : ∃ mail, pc = .removed mail
      · obtain ⟨mail,rfl⟩ := done
        rw [got mail rfl] at here
        cases here
      · rw [other fun mail same => done ⟨mail,same⟩] at here
        cases here
        exact .inr after
  | @reads m sender mail rest empty arrives =>
    refine woken_roles ?_ (incoming_woken _ _)
    refine setAvailable_roles (roles.same rfl rfl rfl rfl) ?_
    exact fun agent queued => roles.available m agent (v_queue _ agent queued)
  | @completes m number rest waiting =>
    refine woken_roles ?_ (sent_woken _ _)
    refine setSent_roles (roles.same rfl rfl rfl rfl) ?_
    exact fun agent queued => roles.sent m agent (v_queue _ agent queued)

-- A client's call of Send, once its packet has gone to the network.
def phaseOf : ClientPc M → Completion.Phase Bool
  | .testing number success => .testing number success
  | .asleep number success => .asleep number success
  | .leaving number success => .leaving number success
  | .outside | .sending _ _ _ | .getting _ _ | .got _ | .ended => .away

def phaseAt (s : State M T) (m : M) : Agent M T → Completion.Phase Bool
  | .client n t => if n = m then phaseOf (s.client n t) else .away
  | .worker _ | .poll _ | .sendDone _ => .away

-- The sends of one machine.
def desk (s : State M T) (m : M) : Completion.Desk (Agent M T) Bool :=
  ⟨s.scheduled m,(s.messageSent m).value,(s.messageSent m).queue,phaseAt s m⟩

def sendEvent (m : M) : Event M → Option (Completion.Event Bool)
  | .sent n mail success => if n = m then some (.requested mail.buffer.number success) else none
  | .sendDone n number => if n = m then some (.done number) else none
  | .sendReturned n number success => if n = m then some (.returned number success) else none
  | .called .. | .polled .. | .received .. | .messages .. => none

theorem phaseAt_setClient (s : State M T) (n : M) (t : T) (pc : ClientPc M) :
    phaseAt (s.setClient n t pc) n = Function.update (phaseAt s n) (.client n t) (phaseOf pc) := by
  funext agent
  cases agent with
  | client u v =>
    by_cases machine : u = n
    · subst machine
      by_cases thread : v = t
      · subst thread; simp [phaseAt,State.setClient]
      · simp [phaseAt,State.setClient,thread]
    · simp [phaseAt,machine]
  | worker | poll | sendDone => simp [phaseAt]

theorem phaseAt_elsewhere (s : State M T) (t : T) (pc : ClientPc M) (other : m ≠ n) :
    phaseAt (s.setClient n t pc) m = phaseAt s m := by
  funext agent
  cases agent with
  | client u v =>
    by_cases machine : u = m
    · subst machine; simp [phaseAt,State.setClient,other]
    · simp [phaseAt,machine]
  | worker | poll | sendDone => rfl

-- A client that is not in P or before its Release, before and after the step.
theorem phaseAt_away (s : State M T) (before : phaseOf (s.client n t) = .away) (now : phaseOf pc = .away) (m : M) :
    phaseAt (s.setClient n t pc) m = phaseAt s m := by
  by_cases machine : m = n
  · subst machine
    rw [phaseAt_setClient,now]
    exact Function.update_eq_self_iff.mpr (by simpa [phaseAt] using before.symm)
  · exact phaseAt_elsewhere s t pc machine

-- What V on messageSent does.
theorem packetSent_cases (roles : Roles s) (m : M) :
    ((s.messageSent m).queue = [] ∧ packetSent s m = s.setSent m ⟨Signed.wrap 32 ((s.messageSent m).value + 1),[]⟩) ∨
    ∃ t later, (s.messageSent m).queue = .client m t :: later ∧
      phaseAt (packetSent s m) m =
        Function.update (phaseAt s m) (.client m t) (phaseAt s m (.client m t)).woken ∧
      (∀ n, n ≠ m → phaseAt (packetSent s m) n = phaseAt s n) ∧
      (packetSent s m).messageSent = Function.update s.messageSent m ⟨Signed.wrap 32 ((s.messageSent m).value + 1),later⟩ ∧
      (packetSent s m).scheduled = s.scheduled := by
  cases waiting : (s.messageSent m).queue with
  | nil => exact .inl ⟨rfl,by simp [packetSent,Semaphore.v,waiting,State.wake]⟩
  | cons first later =>
    obtain ⟨t,rfl⟩ := roles.sent m first (by simp [waiting])
    refine .inr ⟨t,later,rfl,?_⟩
    have unfolded : packetSent s m = (s.setSent m ⟨Signed.wrap 32 ((s.messageSent m).value + 1),later⟩).wake (some (.client m t)) := by
      simp [packetSent,Semaphore.v,waiting]
    have phase : phaseAt s m (.client m t) = phaseOf (s.client m t) := by simp [phaseAt]
    rw [unfolded,phase]
    by_cases asleep : ∃ number success, s.client m t = .asleep number success
    · obtain ⟨number,success,place⟩ := asleep
      have woken : (s.setSent m ⟨Signed.wrap 32 ((s.messageSent m).value + 1),later⟩).wake (some (.client m t)) =
          (s.setSent m ⟨Signed.wrap 32 ((s.messageSent m).value + 1),later⟩).setClient m t (.testing number success) := by
        simp [State.wake,State.setSent,place]
      rw [woken,place]
      exact ⟨phaseAt_setClient _ _ _ _,fun n other => phaseAt_elsewhere _ _ _ other,rfl,rfl⟩
    · have still : (s.setSent m ⟨Signed.wrap 32 ((s.messageSent m).value + 1),later⟩).wake (some (.client m t)) =
          s.setSent m ⟨Signed.wrap 32 ((s.messageSent m).value + 1),later⟩ := by
        simp only [State.wake]
        split
        · rename_i number success place
          exact absurd ⟨number,success,place⟩ asleep
        · rfl
      have same : (phaseOf (s.client m t)).woken = phaseOf (s.client m t) := by
        cases place : s.client m t with
        | asleep number success => exact absurd ⟨number,success,place⟩ asleep
        | outside | sending | testing | leaving | getting | got | ended => rfl
      rw [still,same]
      exact ⟨(Function.update_eq_self_iff.mpr phase.symm).symm,fun _ _ => rfl,rfl,rfl⟩

-- What V on messageAvailable does.
theorem incoming_cases (roles : Roles s) (m : M) :
    ∃ queue, incomingPacket s m = s.setAvailable m ⟨Signed.wrap 32 ((s.messageAvailable m).value + 1),queue⟩ ∨
      (s.worker m = .asleep ∧
        incomingPacket s m = (s.setAvailable m ⟨Signed.wrap 32 ((s.messageAvailable m).value + 1),queue⟩).setWorker m .testing) := by
  cases waiting : (s.messageAvailable m).queue with
  | nil => exact ⟨[],.inl (by simp [incomingPacket,Semaphore.v,waiting,State.wake])⟩
  | cons first later =>
    obtain rfl := roles.available m first (by simp [waiting])
    refine ⟨later,?_⟩
    have unfolded : incomingPacket s m =
        (s.setAvailable m ⟨Signed.wrap 32 ((s.messageAvailable m).value + 1),later⟩).wake (some (.worker m)) := by
      simp [incomingPacket,Semaphore.v,waiting]
    rw [unfolded]
    cases place : s.worker m with
    | asleep => exact .inr ⟨rfl,by simp [State.wake,State.setAvailable,place]⟩
    | testing | receiving | putting => exact .inl (by simp [State.wake,State.setAvailable,place])

-- A thread with the send lock whose packet has not gone out is alone.
theorem posting_alone (ready : (program M T numBoxes).Ready s asleep (.client m t))
    (place : s.client m t = .sending pktHdr mailHdr data) : ∀ agent, phaseAt s m agent = .away := by
  intro agent
  cases agent with
  | worker | poll | sendDone => rfl
  | client n u =>
    by_contra busy
    simp only [phaseAt] at busy
    split at busy
    · rename_i machine
      subst machine
      have other : Agent.client n u ≠ .client n t := by
        intro same
        cases same
        simp [place,phaseOf] at busy
      refine ready.alone (.sendLock n) (by simp [program,place,ClientPc.held]) _ other ⟨?_,?_⟩
      · cases here : s.client n u <;> simp_all [phaseOf,program,ClientPc.held]
      · cases here : s.client n u <;> simp_all [phaseOf,program,ClientPc.site,Site.needs]
    · exact busy rfl

theorem sendEvent_listed (n m : M) (box : Int) (events : List (SynchList.Event (Mail M))) :
    (events.map (Event.messages m box)).filterMap (sendEvent n) = [] := by
  rw [List.filterMap_map]
  simp [sendEvent,Function.comp_def]

omit [DecidableEq T] in
theorem desk_same (scheduled : s'.scheduled n = s.scheduled n) (sent : s'.messageSent n = s.messageSent n)
    (phase : phaseAt s' n = phaseAt s n) : desk s' n = desk s n := by
  simp only [desk,scheduled,sent,phase]

theorem desk_setClient (s : State M T) (n : M) (t : T) (pc : ClientPc M) : desk (s.setClient n t pc) n =
    {desk s n with phase := Function.update (desk s n).phase (.client n t) (phaseOf pc)} := by
  simp only [desk,phaseAt_setClient]
  rfl

omit [DecidableEq T] in
theorem desk_setSent (s : State M T) (n : M) (semaphore : Semaphore (Agent M T)) :
    desk (s.setSent n semaphore) n = {desk s n with value := semaphore.value, queue := semaphore.queue} := by
  simp only [desk,State.setSent,Function.update_self]
  rfl

theorem desk_incoming (roles : Roles s) (m n : M) : desk (incomingPacket s m) n = desk s n := by
  obtain ⟨queue,same | ⟨_,same⟩⟩ := incoming_cases roles m
  · rw [same]
    rfl
  · rw [same]
    rfl

-- The two ways a completion ends: the caller has not come to its P yet, or sleeps there.
theorem desk_sendDone (roles : Roles s) (m : M) (rest : List Nat) :
    ((desk s m).queue = [] ∧
      desk (sendDone s m rest) m = {desk s m with scheduled := rest, value := Signed.wrap 32 ((desk s m).value + 1)}) ∨
    ∃ agent later, (desk s m).queue = agent :: later ∧ desk (sendDone s m rest) m =
      ⟨rest,Signed.wrap 32 ((desk s m).value + 1),later,Function.update (desk s m).phase agent ((desk s m).phase agent).woken⟩ := by
  have kept : Roles {s with
      scheduled := Function.update s.scheduled m rest
      sendBusy := Function.update s.sendBusy m false} := roles.same rfl rfl rfl rfl
  rcases packetSent_cases kept m with ⟨nobody,after⟩ | ⟨t,later,queue,phase,_,semaphore,scheduled⟩
  · refine .inl ⟨nobody,?_⟩
    have queue : (s.messageSent m).queue = [] := nobody
    rw [sendDone,after,desk_setSent]
    simp only [desk,Function.update_self,queue]
    rfl
  · refine .inr ⟨.client m t,later,queue,?_⟩
    simp only [desk,sendDone,phase,semaphore,scheduled,Function.update_self]
    rfl

theorem desk_otherDone (roles : Roles s) (rest : List Nat) (other : n ≠ m) : desk (sendDone s m rest) n = desk s n := by
  have kept : Roles {s with
      scheduled := Function.update s.scheduled m rest
      sendBusy := Function.update s.sendBusy m false} := roles.same rfl rfl rfl rfl
  rcases packetSent_cases kept m with ⟨nobody,after⟩ | ⟨t,later,queue,_,phase,semaphore,scheduled⟩
  · rw [sendDone,after]
    refine desk_same ?_ ?_ rfl
    · simp [State.setSent,other]
    · simp [State.setSent,other]
  · refine desk_same ?_ ?_ (phase n other)
    · rw [sendDone,scheduled]
      simp [other]
    · rw [sendDone,semaphore]
      simp [other]

theorem desk_rests {events : List (Event M)} (same : desk s' n = desk s n) (none_ : events.filterMap (sendEvent n) = []) :
    Completion.Moves (desk s n) (desk s' n) (events.filterMap (sendEvent n)) := by
  rw [same,none_]
  exact .rests

theorem desk_moves (roles : Roles s) (ready : (program M T numBoxes).Ready s asleep agent)
    (changes : Changes s agent s' op events) (n : M) :
    Completion.Moves (desk s n) (desk s' n) (events.filterMap (sendEvent n)) := by
  have reported : ∀ {event : Event M} (e : Completion.Event Bool), sendEvent n event = some e →
      [event].filterMap (sendEvent n) = [e] := by
    intro event e same
    simp [same]
  cases changes with
  | idles | dozes | hears => exact desk_rests rfl rfl
  | receives _ read =>
    cases read
    exact desk_rests rfl rfl
  | puts => exact desk_rests rfl (sendEvent_listed _ _ _ _)
  | @reads m sender mail rest empty arrives =>
    refine desk_rests ((desk_incoming ?_ m n).trans rfl) rfl
    exact roles.same rfl rfl rfl rfl
  | calls _ _ _ place | checks place | ends place | asks place =>
    exact desk_rests (desk_same rfl rfl (phaseAt_away s (by rw [place]; rfl) (by rfl) n)) rfl
  | @gets m t box pc list now op events next place advanced got other =>
    have away : phaseOf next = .away := by
      by_cases done : ∃ mail, pc = .removed mail
      · obtain ⟨mail,rfl⟩ := done
        rw [got mail rfl]
        rfl
      · rw [other fun mail same => done ⟨mail,same⟩]
        rfl
    have before : phaseOf ((s.setBox m box list).client m t) = .away := by
      rw [State.setBox,place]
      rfl
    exact desk_rests (desk_same rfl rfl (phaseAt_away _ before away n)) (sendEvent_listed _ _ _ _)
  | @posts m t pktHdr mailHdr data fate after mail success place sent =>
    have alone := posting_alone ready place
    obtain ⟨_,_,_,_,rfl,wire,rfl,_⟩ := send_ok sent
    by_cases machine : n = m
    · subst machine
      rw [desk_setClient,reported (.requested s.sends success) (by simp [sendEvent])]
      simp only [desk,Function.update_self]
      exact .requests alone
    · refine desk_rests (desk_same ?_ rfl (phaseAt_elsewhere _ _ _ machine)) (by simp [sendEvent,Ne.symm machine])
      simp [machine,State.setClient]
  | @sleeps m t number success place empty =>
    have here : (desk s m).phase (.client m t) = .testing number success := by simp [desk,phaseAt,place,phaseOf]
    by_cases machine : n = m
    · subst machine
      rw [desk_setClient,desk_setSent]
      exact .sleeps here empty
    · refine desk_rests (desk_same rfl ?_ (phaseAt_elsewhere _ _ _ machine)) rfl
      simp [machine,State.setClient,State.setSent]
  | @takes m t number success place some_ =>
    have here : (desk s m).phase (.client m t) = .testing number success := by simp [desk,phaseAt,place,phaseOf]
    by_cases machine : n = m
    · subst machine
      rw [desk_setClient,desk_setSent]
      exact .takes here some_
    · refine desk_rests (desk_same rfl ?_ (phaseAt_elsewhere _ _ _ machine)) rfl
      simp [machine,State.setClient,State.setSent]
  | @leaves m t number success place =>
    have here : (desk s m).phase (.client m t) = .leaving number success := by simp [desk,phaseAt,place,phaseOf]
    by_cases machine : n = m
    · subst machine
      rw [desk_setClient]
      rw [reported (.returned number success) (by simp [sendEvent])]
      exact .leaves here
    · exact desk_rests (desk_same rfl rfl (phaseAt_elsewhere _ _ _ machine)) (by simp [sendEvent,Ne.symm machine])
  | @completes m number rest waiting =>
    by_cases machine : n = m
    · subst machine
      rw [reported (.done number) (by simp [sendEvent])]
      rcases desk_sendDone roles n rest with ⟨nobody,after⟩ | ⟨agent,later,queue,after⟩
      · rw [after]
        exact .completes waiting nobody
      · rw [after]
        exact .wakes waiting queue
    · exact desk_rests (desk_otherDone roles rest machine) (by simp [sendEvent,Ne.symm machine])

theorem runs_roles (path : (program M T numBoxes).Runs history asleep s) : Roles s := by
  induction path with
  | initial => exact initial_roles
  | step _ _ executed _ ih => exact step_roles ih (exec_changes executed)

-- What the Network of one machine was asked and answered, oldest first.
def sendLog (m : M) (history : List (Entry (Agent M T) (LockId M) (ConditionId M) (Event M))) :
    List (Completion.Event Bool) :=
  passed (sendEvent m) history

theorem runs_served (path : (program M T numBoxes).Runs history asleep s) (m : M) :
    ∃ stage, Completion.Fits (desk s m) stage ∧ Trace .idle Completion.Serves stage (sendLog m history).reverse := by
  induction path with
  | initial =>
    refine ⟨.idle,.idle ?_ rfl rfl rfl,.start⟩
    intro agent
    cases agent <;> simp [desk,phaseAt,program,initial,phaseOf]
  | @step history asleep s agent input s' op events woken asleep' prior ready executed sleeps ih =>
    obtain ⟨stage,fits,trace⟩ := ih
    have moves := desk_moves (runs_roles prior) ready (exec_changes executed) m
    obtain ⟨after,fits',logged⟩ := Completion.step_fits fits moves
    refine ⟨after,fits',?_⟩
    rw [sendLog,passed_cons]
    rcases logged with ⟨none_,rfl⟩ | ⟨event,one,serves⟩
    · simpa [none_,sendLog] using trace
    · rw [one,List.reverse_append]
      exact .step trace serves

-- A Send returns right after the completion of its own packet.
theorem runs_credited (path : (program M T numBoxes).Runs history asleep s)
    (log : sendLog m history = older ++ Completion.Event.returned number success :: newer) :
    ∃ before, older = before ++ [Completion.Event.requested number success,Completion.Event.done number] := by
  obtain ⟨stage,_,trace⟩ := runs_served path m
  rw [log,List.reverse_append,List.reverse_cons,List.append_assoc] at trace
  obtain ⟨before,reversed⟩ := Completion.trace_returned trace
  exact ⟨before.reverse,by simpa using congrArg List.reverse reversed⟩

end
end Nachos.PostOffice
