import Nachos.PostOfficeRuns

-- What the callers of Send hand over, against what Receive returns.
namespace Nachos.PostOffice
open Monitor

-- What a message is besides the number the model gives it.
structure Message (M : Type) where
  pktHdr : PacketHeader M
  mailHdr : MailHeader
  data : List UInt8
  deriving DecidableEq, Repr

def messageOf (mail : Mail M) : Message M := ⟨mail.pktHdr,mail.buffer.mailHdr,mail.buffer.data⟩

-- What is to come out of Receive for a call on the machine: the caller's two headers, with
-- the sender and the length filled in, and as much of its data as the MailHeader says.
def Call.message (source : M) (call : Call M) : Message M :=
  ⟨{call.pktHdr with from_ := source, length := call.mailHdr.length + headerSize},call.mailHdr,
    call.data.take call.mailHdr.length⟩

def calledWith : Event M → Option (Call M)
  | .called _ call => some call
  | .sent .. | .sendDone .. | .sendReturned .. | .polled .. | .received .. | .messages .. => none

variable {M T : Type} [DecidableEq M] [DecidableEq T]

-- The arguments of the latest call of Send by the thread.
def lastCall (m : M) (t : T) : History M T → Option (Call M)
  | [] => none
  | entry :: older =>
    if entry.thread = .client m t then (entry.events.findSome? calledWith).or (lastCall m t older) else lastCall m t older

-- The calls whose packets a machine handed to its network, in this order.
def sentCalls (source : M) : History M T → List (Call M)
  | [] => []
  | entry :: older => match entry.thread with
    | .client _ t =>
      sentCalls source older ++ (entry.events.filterMap (sentMail source)).flatMap fun _ => (lastCall source t older).toList
    | .worker _ | .poll _ | .sendDone _ => sentCalls source older

section
variable {s s' : State M T} {history : History M T} {events : List (Event M)}

-- A thread in front of Network::Send has filled in the headers of its call, and the packets
-- that went out are those of the calls.
structure Called (history : History M T) (s : State M T) : Prop where
  sending : ∀ m t pktHdr mailHdr data, s.client m t = .sending pktHdr mailHdr data →
    ∃ call, lastCall m t history = some call ∧ call.message m = ⟨pktHdr,mailHdr,data⟩
  sent : ∀ source, (passed (sentMail source) history).map messageOf = (sentCalls source history).map (Call.message source)

theorem lastCall_rests (quiet : events.findSome? calledWith = none) (m : M) (t : T) :
    lastCall m t (⟨agent,op,woken,events⟩ :: history) = lastCall m t history := by
  rw [lastCall,quiet,Option.none_or,ite_self]

theorem sentCalls_rests {source : M} (unsent : events.filterMap (sentMail source) = []) :
    sentCalls source (⟨agent,op,woken,events⟩ :: history) = sentCalls source history := by
  cases agent with
  | client n t => simp [sentCalls,unsent]
  | worker | poll | sendDone => rfl

theorem sent_rests (called : Called history s) (unsent : ∀ source, events.filterMap (sentMail source) = []) (source : M) :
    (passed (sentMail source) (⟨agent,op,woken,events⟩ :: history)).map messageOf =
      (sentCalls source (⟨agent,op,woken,events⟩ :: history)).map (Call.message source) := by
  rw [passed_cons,unsent,List.append_nil,sentCalls_rests (unsent source),called.sent]

-- A step with no call of Send and no packet.
theorem Called.rests (called : Called history s) (quiet : events.findSome? calledWith = none)
    (unsent : ∀ source, events.filterMap (sentMail source) = [])
    (sending : ∀ m t pktHdr mailHdr data, s'.client m t = .sending pktHdr mailHdr data →
      s.client m t = .sending pktHdr mailHdr data) :
    Called (⟨agent,op,woken,events⟩ :: history) s' := by
  refine ⟨?_,sent_rests called unsent⟩
  intro m t pktHdr mailHdr data place
  rw [lastCall_rests quiet]
  exact called.sending m t pktHdr mailHdr data (sending m t pktHdr mailHdr data place)

omit [DecidableEq M] in
theorem listed_quiet (m : M) (box : Int) (events : List (SynchList.Event (Mail M))) :
    (events.map (Event.messages m box)).findSome? calledWith = none := by
  rw [List.findSome?_eq_none_iff]
  intro event member
  obtain ⟨_,_,rfl⟩ := List.mem_map.mp member
  rfl

theorem setClient_unsent {pc : ClientPc M} (other : ∀ pktHdr mailHdr data, pc ≠ .sending pktHdr mailHdr data) :
    ∀ n u pktHdr mailHdr data, (s.setClient m t pc).client n u = .sending pktHdr mailHdr data →
      s.client n u = .sending pktHdr mailHdr data := by
  intro n u pktHdr mailHdr data place
  rw [client_setClient] at place
  split at place
  · exact absurd place (other pktHdr mailHdr data)
  · exact place

omit [DecidableEq M] [DecidableEq T] in
theorem woken_unsent {after : State M T} (woken : Woken s after) :
    ∀ m t pktHdr mailHdr data, after.client m t = .sending pktHdr mailHdr data → s.client m t = .sending pktHdr mailHdr data := by
  intro m t pktHdr mailHdr data place
  rcases woken.client m t with same | ⟨number,success,_,now⟩
  · exact same ▸ place
  · simp [now] at place

theorem calls_called (called : Called history s) (call : Call M) :
    Called (⟨.client m t,op,woken,[.called m call]⟩ :: history)
      (s.setClient m t (.sending (call.message m).pktHdr (call.message m).mailHdr (call.message m).data)) := by
  refine ⟨?_,sent_rests called fun _ => rfl⟩
  intro n u pktHdr mailHdr data place
  rw [client_setClient] at place
  split at place
  · rename_i same
    obtain ⟨rfl,rfl⟩ := same
    refine ⟨call,by simp [lastCall,calledWith],?_⟩
    cases place
    rfl
  · rename_i same
    have differs : Agent.client m t ≠ .client n u := by
      intro wrong
      cases wrong
      exact same ⟨rfl,rfl⟩
    rw [lastCall,if_neg differs]
    exact called.sending n u pktHdr mailHdr data place

-- The packet of a call is its message.
omit [DecidableEq T] in
theorem sent_message {call : Call M} (made : call.message m = ⟨pktHdr,mailHdr,data⟩)
    (sent : send s m pktHdr ⟨mailHdr,data,0⟩ fate = .ok (after,mail,success)) : messageOf mail = call.message m := by
  obtain ⟨_,_,_,_,rfl,_⟩ := send_ok sent
  cases made
  simp [messageOf,Call.message,Buffer.bcopy,List.take_take]

theorem posts_called (called : Called history s) (place : s.client m t = .sending pktHdr mailHdr data)
    (sent : send s m pktHdr ⟨mailHdr,data,0⟩ fate = .ok (after,mail,success)) :
    Called (⟨.client m t,op,woken,[.sent m mail success]⟩ :: history)
      (after.setClient m t (.testing mail.buffer.number success)) := by
  obtain ⟨call,last,made⟩ := called.sending m t pktHdr mailHdr data place
  have packet := sent_message made sent
  obtain ⟨_,_,_,_,_,wire,rfl,_⟩ := send_ok sent
  refine ⟨?_,?_⟩
  · intro n u pktHdr' mailHdr' data' here
    rw [lastCall_rests rfl]
    exact called.sending n u pktHdr' mailHdr' data' (setClient_unsent (s := {s with wire,..}) (by simp) n u _ _ _ here)
  · intro source
    by_cases goes : m = source ∧ success = true
    · obtain ⟨rfl,rfl⟩ := goes
      rw [passed_cons,sentCalls,List.map_append,called.sent]
      simp [sentMail,last,packet]
    · have unsent : ∀ mail, [Event.sent m mail success].filterMap (sentMail source) = [] := fun _ => by simp [sentMail,goes]
      rw [passed_cons,unsent,List.append_nil,sentCalls_rests (unsent _),called.sent]

theorem step_called (called : Called history s) (changes : Changes s agent s' op events) :
    Called (⟨agent,op,woken,events⟩ :: history) s' := by
  cases changes with
  | idles | dozes | hears => exact called.rests rfl (fun _ => rfl) fun _ _ _ _ _ => id
  | puts => exact called.rests (listed_quiet _ _ _) (fun _ => listed_silent (fun _ _ _ => rfl) _ _ _) fun _ _ _ _ _ => id
  | receives _ read =>
    cases read
    exact called.rests rfl (fun _ => rfl) fun _ _ _ _ _ => id
  | calls pktHdr mailHdr data => exact calls_called called ⟨pktHdr,mailHdr,data⟩
  | posts place sent => exact posts_called called place sent
  | sleeps | takes | leaves | asks | checks | ends =>
    exact called.rests rfl (fun _ => rfl) (setClient_unsent (by simp))
  | gets place advanced got other =>
    refine called.rests (listed_quiet _ _ _) (fun _ => listed_silent (fun _ _ _ => rfl) _ _ _) (setClient_unsent ?_)
    intro pktHdr mailHdr data here
    rcases gets_next got other with ⟨mail,rfl⟩ | rfl <;> cases here
  | reads =>
    refine called.rests rfl (fun _ => rfl) ?_
    intro n t pktHdr mailHdr data here
    have before := woken_unsent (incoming_woken _ _) n t pktHdr mailHdr data here
    exact before
  | completes =>
    refine called.rests rfl (fun _ => rfl) ?_
    intro n t pktHdr mailHdr data here
    have before := woken_unsent (sent_woken _ _) n t pktHdr mailHdr data here
    exact before

theorem runs_called (path : (program M T numBoxes).Runs history asleep s) : Called history s := by
  induction path with
  | initial => exact ⟨by simp [program,initial],fun _ => rfl⟩
  | step _ _ executed _ ih => exact step_called ih (exec_changes executed)

-- What was sent to a box, as the callers gave it.
theorem Called.addressed (called : Called history s) (source m : M) (box : Int) :
    ((passed (sentMail source) history).filter fun mail => mail.pktHdr.to_ = m ∧ mail.buffer.mailHdr.to_ = box).map messageOf =
      ((sentCalls source history).filter fun call => call.pktHdr.to_ = m ∧ call.mailHdr.to_ = box).map (Call.message source) := by
  have same := congrArg (List.filter fun message => message.pktHdr.to_ = m ∧ message.mailHdr.to_ = box) (called.sent source)
  rw [List.filter_map,List.filter_map] at same
  exact same

-- What a thread in Send has not handed to its network yet.
def ClientPc.unsent : ClientPc M → List (Message M)
  | .sending pktHdr mailHdr data => [⟨pktHdr,mailHdr,data⟩]
  | .outside | .testing .. | .asleep .. | .leaving .. | .getting .. | .got _ | .ended => []

-- The packet of a Send, whatever becomes of it.
def handedMail : Event M → Option (Mail M)
  | .sent _ mail _ => some mail
  | .called .. | .sendDone .. | .sendReturned .. | .polled .. | .received .. | .messages .. => none

-- The steps of one thread.
def stepsOf (m : M) (t : T) (history : History M T) : History M T :=
  history.filter fun entry => entry.thread = .client m t

-- A thread's packets are those of its calls, one for each, but for a call whose packet is
-- still to be handed over.
def HandsOver (history : History M T) (s : State M T) : Prop :=
  ∀ m t, (passed handedMail (stepsOf m t history)).map messageOf ++ (s.client m t).unsent =
    (passed calledWith (stepsOf m t history)).map (Call.message m)

theorem stepsOf_own (m : M) (t : T) :
    stepsOf m t (⟨.client m t,op,woken,events⟩ :: history) = ⟨.client m t,op,woken,events⟩ :: stepsOf m t history := by
  simp [stepsOf]

theorem stepsOf_other {agent : Agent M T} (other : agent ≠ .client m t) :
    stepsOf m t (⟨agent,op,woken,events⟩ :: history) = stepsOf m t history := by
  simp [stepsOf,other]

theorem passed_rests {α : Type} {kind : Event M → Option α} (quiet : events.filterMap kind = []) (agent : Agent M T) (m : M) (t : T) :
    passed kind (stepsOf m t (⟨agent,op,woken,events⟩ :: history)) = passed kind (stepsOf m t history) := by
  by_cases own : agent = .client m t
  · subst own
    rw [stepsOf_own,passed_cons,quiet,List.append_nil]
  · rw [stepsOf_other own]

theorem HandsOver.rests (hands : HandsOver history s) (quiet : events.filterMap calledWith = [])
    (unhanded : events.filterMap handedMail = []) (same : ∀ m t, (s'.client m t).unsent = (s.client m t).unsent) :
    HandsOver (⟨agent,op,woken,events⟩ :: history) s' := by
  intro m t
  rw [passed_rests unhanded,passed_rests quiet,same]
  exact hands m t

-- A step of one thread, against the calls and packets of the others.
theorem HandsOver.own {after : State M T} (hands : HandsOver history s) (pc : ClientPc M) (others : after.client = s.client)
    (mine : (passed handedMail (stepsOf m t history) ++ events.filterMap handedMail).map messageOf ++ pc.unsent =
      (passed calledWith (stepsOf m t history) ++ events.filterMap calledWith).map (Call.message m)) :
    HandsOver (⟨.client m t,op,woken,events⟩ :: history) (after.setClient m t pc) := by
  intro n u
  rw [client_setClient,others]
  by_cases here : n = m ∧ u = t
  · obtain ⟨rfl,rfl⟩ := here
    rw [if_pos ⟨rfl,rfl⟩,stepsOf_own,passed_cons,passed_cons]
    exact mine
  · have other : Agent.client m t ≠ .client n u := by
      intro wrong
      cases wrong
      exact here ⟨rfl,rfl⟩
    rw [if_neg here,stepsOf_other other]
    exact hands n u

theorem setClient_rests {pc : ClientPc M} (before : (s.client m t).unsent = []) (now : pc.unsent = []) :
    ∀ n u, ((s.setClient m t pc).client n u).unsent = (s.client n u).unsent := by
  intro n u
  rw [client_setClient]
  split
  · rename_i here
    obtain ⟨rfl,rfl⟩ := here
    rw [now,before]
  · rfl

omit [DecidableEq M] [DecidableEq T] in
theorem woken_rests {after : State M T} (woken : Woken s after) : ∀ m t, (after.client m t).unsent = (s.client m t).unsent := by
  intro m t
  rcases woken.client m t with same | ⟨number,success,asleep,now⟩
  · rw [same]
  · rw [asleep,now]
    rfl

theorem step_handsOver (called : Called history s) (hands : HandsOver history s) (changes : Changes s agent s' op events) :
    HandsOver (⟨agent,op,woken,events⟩ :: history) s' := by
  cases changes with
  | idles | dozes | hears => exact hands.rests rfl rfl fun _ _ => rfl
  | puts => exact hands.rests (listed_silent (fun _ _ _ => rfl) _ _ _) (listed_silent (fun _ _ _ => rfl) _ _ _) fun _ _ => rfl
  | receives _ read =>
    cases read
    exact hands.rests rfl rfl fun _ _ => rfl
  | @calls m t pktHdr mailHdr data place =>
    have before := hands m t
    rw [place,ClientPc.unsent,List.append_nil] at before
    refine hands.own _ rfl ?_
    simp [before,handedMail,calledWith,ClientPc.unsent,Call.message]
  | @posts m t pktHdr mailHdr data fate after mail success place sent =>
    obtain ⟨call,_,made⟩ := called.sending m t pktHdr mailHdr data place
    have packet := (sent_message made sent).trans made
    obtain ⟨_,_,_,_,_,wire,rfl,_⟩ := send_ok sent
    have before := hands m t
    rw [place,ClientPc.unsent] at before
    refine hands.own _ rfl ?_
    simp [← before,handedMail,calledWith,ClientPc.unsent,packet]
  | sleeps place | takes place | leaves place | asks place | checks place | ends place =>
    exact hands.rests rfl rfl (setClient_rests (by simp [State.setSent,place,ClientPc.unsent]) (by simp [ClientPc.unsent]))
  | gets place advanced got other =>
    refine hands.rests (listed_silent (fun _ _ _ => rfl) _ _ _) (listed_silent (fun _ _ _ => rfl) _ _ _)
      (setClient_rests (by rw [State.setBox,place]; rfl) ?_)
    rcases gets_next got other with ⟨mail,rfl⟩ | rfl <;> rfl
  | reads => exact hands.rests rfl rfl fun m t => woken_rests (incoming_woken _ _) m t
  | completes => exact hands.rests rfl rfl fun m t => woken_rests (sent_woken _ _) m t

theorem runs_handsOver (path : (program M T numBoxes).Runs history asleep s) : HandsOver history s := by
  induction path with
  | initial => exact fun _ _ => rfl
  | step prior _ executed _ ih => exact step_handsOver (runs_called prior) ih (exec_changes executed)

-- One message from machine 0 to box 0 of machine 1.
def oneMessage : List (Choice (Agent (Fin 2) Unit) (Input (Fin 2))) :=
  [.exec (.client 0 ()) (.send ⟨1,0,0⟩ ⟨0,3,2⟩ [72,105]),.exec (.client 0 ()) (.fate .carried),.exec (.sendDone 0) .finish,
    .exec (.client 0 ()) .finish,.exec (.client 0 ()) .finish,.exec (.poll 1) (.arrives 0),
    .exec (.worker 1) .finish,.exec (.worker 1) .finish,.exec (.worker 1) .finish,.exec (.worker 1) .finish,
    .exec (.worker 1) .finish,.exec (.client 1 ()) (.receive 0),.exec (.client 1 ()) .finish,.exec (.client 1 ()) .finish]

end
end Nachos.PostOffice
