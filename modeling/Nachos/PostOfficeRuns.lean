import Nachos.PostOfficeSends

-- Packets from Send to Receive: each stage of the way holds, in order, what has come
-- there and not gone on.
namespace Nachos.PostOffice
open Monitor

section
variable {M T : Type} [DecidableEq M] [DecidableEq T] {s s' : State M T}

-- A packet as a Send makes it: nothing of it is lost in the copies on the way.
def Framed (mail : Mail M) : Prop :=
  mail.pktHdr.length = mail.buffer.mailHdr.length + headerSize ∧ mail.buffer.data.length ≤ mail.buffer.mailHdr.length

omit [DecidableEq M] in
theorem Framed.some_ {mail : Mail M} (framed : Framed mail) : mail.pktHdr.length ≠ 0 := by
  have positive : 0 < headerSize := by decide
  have length := framed.1
  omega

omit [DecidableEq M] in
theorem Framed.bcopy {mail : Mail M} (framed : Framed mail) : mail.buffer.bcopy mail.pktHdr.length = mail.buffer := by
  simp only [Buffer.bcopy,framed.1,Nat.add_sub_cancel]
  rw [List.take_of_length_le framed.2]

omit [DecidableEq M] in
theorem Framed.mailOf {mail : Mail M} (framed : Framed mail) : mailOf mail.pktHdr mail.buffer = mail := by
  simp only [PostOffice.mailOf]
  rw [List.take_of_length_le framed.2]

structure Framing (s : State M T) : Prop where
  sending : ∀ m t pktHdr mailHdr data, s.client m t = .sending pktHdr mailHdr data →
    Framed ⟨pktHdr,⟨mailHdr,data,0⟩⟩
  wire : ∀ source m, ∀ mail ∈ s.wire source m, Framed mail ∧ mail.pktHdr.from_ = source ∧ mail.pktHdr.to_ = m
  inbox : ∀ m, (s.inHdr m).length ≠ 0 → Framed ⟨s.inHdr m,s.inbox m⟩

omit [DecidableEq M] [DecidableEq T] in
theorem initial_framing : Framing (initial M T) := by
  refine ⟨?_,?_,?_⟩ <;> simp [initial]

-- A step that leaves the network alone.
omit [DecidableEq M] [DecidableEq T] in
theorem Framing.keeps (framing : Framing s)
    (sending : ∀ m t pktHdr mailHdr data, s'.client m t = .sending pktHdr mailHdr data →
      s.client m t = .sending pktHdr mailHdr data ∨ Framed ⟨pktHdr,⟨mailHdr,data,0⟩⟩)
    (wire : s'.wire = s.wire) (inHdr : s'.inHdr = s.inHdr) (inbox : s'.inbox = s.inbox) : Framing s' := by
  refine ⟨?_,wire ▸ framing.wire,by rw [inHdr,inbox]; exact framing.inbox⟩
  intro m t pktHdr mailHdr data place
  rcases sending m t pktHdr mailHdr data place with before | framed
  · exact framing.sending m t pktHdr mailHdr data before
  · exact framed

theorem setClient_sending {pc : ClientPc M}
    (fits : ∀ pktHdr mailHdr data, pc = .sending pktHdr mailHdr data → Framed ⟨pktHdr,⟨mailHdr,data,0⟩⟩) :
    ∀ n u pktHdr mailHdr data, (s.setClient m t pc).client n u = .sending pktHdr mailHdr data →
      s.client n u = .sending pktHdr mailHdr data ∨ Framed ⟨pktHdr,⟨mailHdr,data,0⟩⟩ := by
  intro n u pktHdr mailHdr data place
  rw [client_setClient] at place
  split at place
  · exact .inr (fits pktHdr mailHdr data place)
  · exact .inl place

omit [DecidableEq M] [DecidableEq T] in
theorem woken_sending {after : State M T} (woken : Woken s after) :
    ∀ m t pktHdr mailHdr data, after.client m t = .sending pktHdr mailHdr data →
      s.client m t = .sending pktHdr mailHdr data ∨ Framed ⟨pktHdr,⟨mailHdr,data,0⟩⟩ := by
  intro m t pktHdr mailHdr data place
  rcases woken.client m t with same | ⟨number,success,_,now⟩
  · exact .inl (same ▸ place)
  · simp [now] at place

omit [DecidableEq M] [DecidableEq T] in
theorem Framing.woken {after : State M T} (framing : Framing s) (woken : Woken s after) : Framing after :=
  framing.keeps (woken_sending woken) (by rw [woken.rest]) (by rw [woken.rest]) (by rw [woken.rest])

theorem update_wire (wire : M → M → List (Mail M)) (mails : List (Mail M)) (source' source m' m : M) :
    Function.update wire source' (Function.update (wire source') m' mails) source m =
      if source = source' ∧ m = m' then mails else wire source m := by
  by_cases sender : source = source'
  · subst sender
    by_cases machine : m = m'
    · subst machine
      simp
    · simp [machine]
  · simp [sender]

omit [DecidableEq M] in
theorem gets_next {pc : SynchList.Pc (Mail M)} (got : ∀ mail, pc = .removed mail → next = ClientPc.got mail)
    (other : (∀ mail, pc ≠ .removed mail) → next = .getting box now) :
    (∃ mail, next = .got mail) ∨ next = .getting box now := by
  by_cases done : ∃ mail, pc = .removed mail
  · obtain ⟨mail,removed⟩ := done
    exact .inl ⟨mail,got mail removed⟩
  · exact .inr (other fun mail same => done ⟨mail,same⟩)

theorem step_framing (framing : Framing s) (changes : Changes s agent s' op events) : Framing s' := by
  cases changes with
  | idles => exact framing
  | dozes | hears | puts => exact framing.keeps (fun _ _ _ _ _ => .inl) rfl rfl rfl
  | @receives m after pktHdr buffer place read same =>
    cases read
    refine ⟨framing.sending,framing.wire,?_⟩
    intro n some_
    by_cases machine : n = m
    · subst machine
      simp [State.setWorker] at some_
    · simp only [State.setWorker,ne_eq,machine,not_false_eq_true,Function.update_of_ne] at some_ ⊢
      exact framing.inbox n some_
  | @calls m t pktHdr mailHdr data place short =>
    refine framing.keeps (setClient_sending ?_) rfl rfl rfl
    rintro _ _ _ ⟨⟩
    exact ⟨rfl,by simp⟩
  | @posts m t pktHdr mailHdr data fate after mail success place sent =>
    have framed := framing.sending m t pktHdr mailHdr data place
    obtain ⟨_,_,_,own,rfl,wire,rfl,carried⟩ := send_ok sent
    have framed' :
        Framed (⟨pktHdr,{Buffer.bcopy ⟨mailHdr,data,0⟩ pktHdr.length with number := s.sends}⟩ : Mail M) := by
      refine ⟨framed.1,?_⟩
      simp only [framed.bcopy]
      exact framed.2
    refine ⟨?_,?_,framing.inbox⟩
    · intro n u pktHdr' mailHdr' data' here
      exact (setClient_sending (s := s) (by simp) n u pktHdr' mailHdr' data' here).elim (framing.sending _ _ _ _ _) id
    · intro source n other member
      rcases carried with rfl | ⟨_,rfl⟩
      · exact framing.wire source n other member
      · have there : other ∈ Function.update s.wire m (Function.update (s.wire m) pktHdr.to_ _) source n := member
        rw [update_wire] at there
        split at there
        · rename_i same
          obtain ⟨rfl,rfl⟩ := same
          rcases List.mem_append.mp there with before | now
          · exact framing.wire _ _ other before
          · obtain rfl := List.mem_singleton.mp now
            exact ⟨framed',own,rfl⟩
        · exact framing.wire source n other there
  | sleeps | takes | leaves | asks | checks | ends =>
    exact framing.keeps (setClient_sending (by simp)) rfl rfl rfl
  | gets place advanced got other =>
    refine framing.keeps (setClient_sending ?_) rfl rfl rfl
    intro pktHdr mailHdr data here
    rcases gets_next got other with ⟨mail,rfl⟩ | rfl <;> cases here
  | @reads m sender mail rest empty arrives =>
    have arrived := framing.wire sender m mail (by simp [arrives])
    refine Framing.woken ?_ (incoming_woken _ _)
    refine ⟨framing.sending,?_,?_⟩
    · intro source n other member
      have there : other ∈ Function.update s.wire sender (Function.update (s.wire sender) m rest) source n := member
      rw [update_wire] at there
      split at there
      · rename_i same
        obtain ⟨rfl,rfl⟩ := same
        exact framing.wire _ _ other (by simp [arrives,there])
      · exact framing.wire source n other there
    · intro n some_
      by_cases machine : n = m
      · subst machine
        simpa [State.setAvailable,arrived.1.bcopy] using arrived.1
      · simp only [State.setAvailable,ne_eq,machine,not_false_eq_true,Function.update_of_ne] at some_ ⊢
        exact framing.inbox n some_
  | completes =>
    refine Framing.woken ?_ (sent_woken _ _)
    exact ⟨framing.sending,framing.wire,framing.inbox⟩

-- A unit of messageAvailable, or a worker that took one, is a packet in the inbox.
def Units (s : State M T) (m : M) : Prop :=
  0 ≤ (s.messageAvailable m).value ∧
    (s.messageAvailable m).value + (if s.worker m = .receiving then 1 else 0) = if (s.inHdr m).length = 0 then 0 else 1

omit [DecidableEq T] in
theorem units_at (units : ∀ n, Units s n) (here : Units s' m) (elsewhere : ∀ n, n ≠ m →
    s'.messageAvailable n = s.messageAvailable n ∧ s'.worker n = s.worker n ∧ s'.inHdr n = s.inHdr n) :
    ∀ n, Units s' n := by
  intro n
  by_cases same : n = m
  · exact same ▸ here
  · obtain ⟨semaphore,worker,inHdr⟩ := elsewhere n same
    unfold Units
    rw [semaphore,worker,inHdr]
    exact units n

-- V moves a thread from its sleep to the test of P only.
omit [DecidableEq T] in
theorem woken_units {after : State M T} (units : ∀ m, Units s m) (woken : Woken s after) : ∀ m, Units after m := by
  intro m
  have semaphore : after.messageAvailable = s.messageAvailable := by rw [woken.rest]
  have inHdr : after.inHdr = s.inHdr := by rw [woken.rest]
  have receiving : after.worker m = .receiving ↔ s.worker m = .receiving := by
    rcases woken.worker m with same | ⟨before,now⟩
    · rw [same]
    · simp [before,now]
  have unit := units m
  unfold Units at unit ⊢
  rw [semaphore,inHdr]
  simpa only [receiving] using unit

omit [DecidableEq M] [DecidableEq T] in
theorem v_value (semaphore : Semaphore (Agent M T)) : semaphore.v.1.value = Signed.wrap 32 (semaphore.value + 1) := by
  cases waiting : semaphore.queue <;> simp [Semaphore.v,waiting]

theorem step_units (framing : Framing s) (units : ∀ m, Units s m)
    (changes : Changes s agent s' op events) : ∀ m, Units s' m := by
  cases changes with
  | idles | calls | sleeps | takes | leaves | asks | gets | checks | ends => exact units
  | posts place sent =>
    obtain ⟨_,_,_,_,_,wire,rfl,_⟩ := send_ok sent
    exact units
  | completes =>
    refine woken_units ?_ (sent_woken _ _)
    exact units
  | @dozes m place empty =>
    refine units_at (m := m) units ?_ (fun n other => by simp [State.setWorker,State.setAvailable,other])
    have before := units m
    simp [Units,place,State.setWorker,State.setAvailable] at before ⊢
    exact before
  | @hears m place some_ =>
    refine units_at (m := m) units ?_ (fun n other => by simp [State.setWorker,State.setAvailable,other])
    have before := units m
    simp only [Units,place,reduceCtorEq,if_false,Int.add_zero] at before
    have full : (s.inHdr m).length ≠ 0 := by
      intro empty
      rw [if_pos empty] at before
      exact some_ before.2
    have one : (s.messageAvailable m).value = 1 := by
      rw [if_neg full] at before
      exact before.2
    simp [Units,State.setWorker,State.setAvailable,one,full]
  | @receives m after pktHdr buffer place read same =>
    cases read
    refine units_at (m := m) units ?_ (fun n other => by simp [State.setWorker,other])
    have before := units m
    simp [Units,place,State.setWorker] at before ⊢
    split at before <;> omega
  | @puts m box pc list now op events place advanced =>
    refine units_at (m := m) units ?_ (fun n other => by simp [State.setWorker,State.setBox,other])
    have before := units m
    have busy : (if pc = .signalled then WorkerPc.testing else .putting box now) ≠ .receiving := by
      split <;> simp
    simp [Units,place,busy,State.setWorker,State.setBox] at before ⊢
    exact before
  | @reads m sender mail rest empty arrives =>
    have arrived := framing.wire sender m mail (by simp [arrives])
    have before := units m
    have some_ := arrived.1.some_
    refine woken_units ?_ (incoming_woken _ m)
    refine units_at (m := m) units ?_ (fun n other => by simp [State.setAvailable,other])
    have free : (s.messageAvailable m).value = 0 ∧ s.worker m ≠ .receiving := by
      obtain ⟨low,counts⟩ := before
      rw [if_pos empty] at counts
      split at counts
      · omega
      · exact ⟨by simpa using counts,‹_›⟩
    simp [Units,State.setAvailable,some_,v_value,free]

-- The packets that a machine handed to its network, took off its socket, and got from
-- Network::Receive.
def sentMail (m : M) : Event M → Option (Mail M)
  | .sent n mail success => if n = m ∧ success then some mail else none
  | .called .. | .sendDone .. | .sendReturned .. | .polled .. | .received .. | .messages .. => none

def polledMail (m : M) : Event M → Option (Mail M)
  | .polled n mail => if n = m then some mail else none
  | .called .. | .sent .. | .sendDone .. | .sendReturned .. | .received .. | .messages .. => none

def receivedMail (m : M) : Event M → Option (Mail M)
  | .received n mail => if n = m then some mail else none
  | .called .. | .sent .. | .sendDone .. | .sendReturned .. | .polled .. | .messages .. => none

-- The Mail put into a box, and returned from it.
def appendedMail (m : M) (box : Int) (event : Event M) : Option (Mail M) :=
  (boxEvent m box event).bind fun
    | .appended mail => some mail
    | _ => none

def returnedMail (m : M) (box : Int) (event : Event M) : Option (Mail M) :=
  (boxEvent m box event).bind fun
    | .returned mail => some mail
    | _ => none

omit [DecidableEq M] in
theorem listed_silent {α : Type} {kind : Event M → Option α} (silent : ∀ n box event, kind (.messages n box event) = none)
    (n : M) (box : Int) (events : List (SynchList.Event (Mail M))) :
    (events.map (Event.messages n box)).filterMap kind = [] := by
  rw [List.filterMap_map]
  simp [silent]

def inInbox (s : State M T) (m : M) : List (Mail M) :=
  if (s.inHdr m).length = 0 then [] else [⟨s.inHdr m,s.inbox m⟩]

def inHand (s : State M T) (m : M) (box : Int) : List (Mail M) :=
  match s.worker m with
  | .putting number (.appending mail) => if number = box then [mail] else []
  | _ => []

-- Newest first.
abbrev History (M T : Type) := List (Entry (Agent M T) (LockId M) (ConditionId M) (Event M))

section
variable {history : History M T}

-- The worker gets each packet before the next is taken off the socket.
def Taken (history : History M T) (s : State M T) (m : M) : Prop :=
  passed (polledMail m) history = passed (receivedMail m) history ++ inInbox s m

omit [DecidableEq T] in
theorem Taken.rests {events : List (Event M)} (taken : Taken history s m) (polled : events.filterMap (polledMail m) = [])
    (received : events.filterMap (receivedMail m) = []) (inHdr : s'.inHdr m = s.inHdr m) (inbox : s'.inbox m = s.inbox m) :
    Taken (⟨agent,op,woken,events⟩ :: history) s' m := by
  unfold Taken inInbox at taken ⊢
  rw [passed_cons,passed_cons,polled,received,inHdr,inbox]
  simpa using taken

-- What Network::Receive returns, and copies, when the worker calls it.
omit [DecidableEq T] in
theorem received_inbox (framing : Framing s) (units : ∀ m, Units s m) (place : s.worker m = .receiving) :
    (s.inHdr m).length ≠ 0 ∧ (receive s m).1.buffer m = s.inbox m := by
  have some_ : (s.inHdr m).length ≠ 0 := by
    intro empty
    obtain ⟨low,counts⟩ := units m
    rw [if_pos place,if_pos empty] at counts
    omega
  refine ⟨some_,?_⟩
  simp only [receive,if_pos some_,Function.update_self]
  exact (framing.inbox m some_).bcopy

theorem step_taken (framing : Framing s) (units : ∀ m, Units s m) (taken : Taken history s m)
    (changes : Changes s agent s' op events) : Taken (⟨agent,op,woken,events⟩ :: history) s' m := by
  cases changes with
  | idles | dozes | hears | calls | sleeps | takes | leaves | asks | checks | ends => exact taken.rests rfl rfl rfl rfl
  | puts | gets =>
    exact taken.rests (listed_silent (fun _ _ _ => rfl) _ _ _) (listed_silent (fun _ _ _ => rfl) _ _ _) rfl rfl
  | posts place sent =>
    obtain ⟨_,_,_,_,_,wire,rfl,_⟩ := send_ok sent
    exact taken.rests rfl rfl rfl rfl
  | completes =>
    refine taken.rests rfl rfl ?_ ?_
    · exact congrFun (congrArg State.inHdr (sent_woken _ _).rest) m
    · exact congrFun (congrArg State.inbox (sent_woken _ _).rest) m
  | @receives n after pktHdr buffer place read same =>
    obtain ⟨some_,copied⟩ := received_inbox framing units place
    cases read
    obtain rfl : buffer = s.inbox n := same.symm.trans copied
    by_cases here : m = n
    · subst here
      unfold Taken inInbox at taken ⊢
      rw [if_neg some_] at taken
      rw [passed_cons,passed_cons,taken]
      simp [polledMail,receivedMail,State.setWorker]
    · refine taken.rests rfl (by simp [receivedMail,Ne.symm here]) ?_ rfl
      simp [State.setWorker,here]
  | @reads n sender mail rest empty arrives =>
    have arrived := framing.wire sender n mail (by simp [arrives])
    have inHdr := congrArg State.inHdr (incoming_woken {s with
      wire := Function.update s.wire sender (Function.update (s.wire sender) n rest)
      inHdr := Function.update s.inHdr n mail.pktHdr
      inbox := Function.update s.inbox n (mail.buffer.bcopy mail.pktHdr.length)} n).rest
    have inbox := congrArg State.inbox (incoming_woken {s with
      wire := Function.update s.wire sender (Function.update (s.wire sender) n rest)
      inHdr := Function.update s.inHdr n mail.pktHdr
      inbox := Function.update s.inbox n (mail.buffer.bcopy mail.pktHdr.length)} n).rest
    by_cases here : m = n
    · subst here
      unfold Taken inInbox at taken ⊢
      rw [if_pos empty] at taken
      rw [passed_cons,passed_cons,taken,inHdr,inbox]
      simp [polledMail,receivedMail,State.setAvailable,arrived.1.some_,arrived.1.bcopy]
    · refine taken.rests (by simp [polledMail,Ne.symm here]) rfl ?_ ?_
      · rw [inHdr]
        simp [State.setAvailable,here]
      · rw [inbox]
        simp [State.setAvailable,here]

-- What came from the network for a box and is not yet in it is in the worker's hand.
def Put (history : History M T) (s : State M T) (m : M) (box : Int) : Prop :=
  (passed (receivedMail m) history).filter (fun mail => mail.buffer.mailHdr.to_ = box) =
    passed (appendedMail m box) history ++ inHand s m box

omit [DecidableEq T] in
theorem Put.rests {events : List (Event M)} (put : Put history s m box)
    (received : events.filterMap (receivedMail m) = [])
    (appended : events.filterMap (appendedMail m box) = []) (hand : inHand s' m box = inHand s m box) :
    Put (⟨agent,op,woken,events⟩ :: history) s' m box := by
  unfold Put at put ⊢
  rw [passed_cons,passed_cons,received,appended,hand]
  simpa using put

omit [DecidableEq T] in
theorem hand_setWorker (s : State M T) (n : M) (pc : WorkerPc M) (other : m ≠ n) :
    inHand (s.setWorker n pc) m box = inHand s m box := by
  simp [inHand,State.setWorker,other]

omit [DecidableEq M] [DecidableEq T] in
theorem hand_woken {after : State M T} (woken : Woken s after) (m : M) (box : Int) :
    inHand after m box = inHand s m box := by
  unfold inHand
  rcases woken.worker m with same | ⟨before,now⟩
  · rw [same]
  · rw [before,now]

omit [DecidableEq M] [DecidableEq T] in
theorem hand_idle (idle : ∀ number mail, s.worker m ≠ .putting number (.appending mail)) : inHand s m box = [] := by
  unfold inHand
  split
  · rename_i number mail place
    exact absurd place (idle number mail)
  · rfl

theorem appended_listed (n m : M) (number box : Int) (events : List (SynchList.Event (Mail M))) :
    (events.map (Event.messages n number)).filterMap (appendedMail m box) =
      if n = m ∧ number = box then events.filterMap fun
        | .appended mail => some mail
        | _ => none
      else [] := by
  by_cases here : n = m ∧ number = box
  · rw [if_pos here,List.filterMap_map]
    simp [appendedMail,boxEvent,here]
  · rw [if_neg here,List.filterMap_map]
    simp [appendedMail,boxEvent,here]

theorem appended_none {events : List (SynchList.Event (Mail M))} (none_ : ∀ mail, .appended mail ∉ events) (n m : M)
    (number box : Int) : (events.map (Event.messages n number)).filterMap (appendedMail m box) = [] := by
  rw [appended_listed]
  split
  · refine List.filterMap_eq_nil_iff.mpr ?_
    intro event member
    cases event with
    | appended mail => exact absurd member (none_ mail)
    | removed | returned => rfl
  · rfl

theorem step_put (roles : Roles s) (framing : Framing s) (units : ∀ m, Units s m) (put : Put history s m box)
    (changes : Changes s agent s' op events) : Put (⟨agent,op,woken,events⟩ :: history) s' m box := by
  cases changes with
  | idles | calls | sleeps | takes | leaves | asks | checks | ends => exact put.rests rfl rfl rfl
  | @dozes n place empty | @hears n place some_ =>
    refine put.rests rfl rfl ?_
    by_cases here : m = n
    · subst here
      rw [hand_idle (s := s) (by simp [place]),hand_idle (by simp [State.setWorker])]
    · exact hand_setWorker _ _ _ here
  | @gets n t number pc list now op events next place advanced got other =>
    exact put.rests (listed_silent (fun _ _ _ => rfl) _ _ _)
      (appended_none (remove_advances (roles.client n t number pc place) advanced).2 _ _ _ _) rfl
  | posts place sent =>
    obtain ⟨_,_,_,_,_,wire,rfl,_⟩ := send_ok sent
    exact put.rests rfl rfl rfl
  | completes => exact put.rests rfl rfl (hand_woken (sent_woken _ _) m box)
  | reads => exact put.rests rfl rfl (hand_woken (incoming_woken _ _) m box)
  | @receives n after pktHdr buffer place read same =>
    obtain ⟨some_,copied⟩ := received_inbox framing units place
    have made := (framing.inbox n some_).mailOf
    cases read
    obtain rfl : buffer = s.inbox n := same.symm.trans copied
    by_cases here : m = n
    · subst here
      have before : inHand s m box = [] := hand_idle (by simp [place])
      unfold Put at put ⊢
      have silent : [Event.received m ⟨s.inHdr m,s.inbox m⟩].filterMap (appendedMail m box) = [] := rfl
      rw [passed_cons,passed_cons,List.filter_append,put,before,made,silent]
      by_cases same : (s.inbox m).mailHdr.to_ = box
      · simp [receivedMail,inHand,State.setWorker,same]
      · simp [receivedMail,inHand,State.setWorker,same]
    · exact put.rests (by simp [receivedMail,Ne.symm here]) rfl (hand_setWorker _ _ _ here)
  | @puts n number pc list now op events place advanced =>
    by_cases here : m = n
    · subst here
      rcases append_advances (roles.worker m number pc place) advanced with ⟨mail,rfl,_,rfl,rfl⟩ | ⟨rfl,rfl,rfl⟩ | ⟨rfl,rfl⟩
      · have before : inHand s m box = if number = box then [mail] else [] := by simp [inHand,place]
        have after : inHand ((s.setBox m number list).setWorker m
            (if SynchList.Pc.appending mail = .signalled then .testing else .putting number .appended)) m box = [] :=
          hand_idle (by simp [State.setWorker])
        unfold Put at put ⊢
        rw [passed_cons,passed_cons,List.filter_append,put,before,appended_listed,after]
        by_cases same : number = box
        · simp [receivedMail,same]
        · simp [receivedMail,same]
      · refine put.rests rfl rfl ?_
        rw [hand_idle (s := s) (by simp [place]),hand_idle (by simp [State.setWorker])]
      · refine put.rests rfl rfl ?_
        rw [hand_idle (s := s) (by simp [place]),hand_idle (by simp [State.setWorker])]
    · refine put.rests (listed_silent (fun _ _ _ => rfl) _ _ _) ?_ (hand_setWorker _ _ _ here)
      rw [appended_listed,if_neg fun both => here both.1.symm]

-- What a machine has from another, and what the socket still has, was sent to it in this
-- order.
def Carried (history : History M T) (s : State M T) (source m : M) : Prop :=
  ((passed (polledMail m) history).filter (fun mail => mail.pktHdr.from_ = source) ++ s.wire source m).Sublist
    ((passed (sentMail source) history).filter fun mail => mail.pktHdr.to_ = m)

omit [DecidableEq T] in
theorem Carried.rests {events : List (Event M)} (carried : Carried history s source m)
    (polled : events.filterMap (polledMail m) = []) (wire : s'.wire source m = s.wire source m) :
    Carried (⟨agent,op,woken,events⟩ :: history) s' source m := by
  unfold Carried at carried ⊢
  rw [passed_cons,passed_cons,polled,wire,List.append_nil,List.filter_append]
  exact carried.trans (List.sublist_append_left _ _)

theorem step_carried (framing : Framing s) (carried : Carried history s source m)
    (changes : Changes s agent s' op events) :
    Carried (⟨agent,op,woken,events⟩ :: history) s' source m := by
  cases changes with
  | idles | dozes | hears | calls | sleeps | takes | leaves | asks | checks | ends => exact carried.rests rfl rfl
  | puts | gets => exact carried.rests (listed_silent (fun _ _ _ => rfl) _ _ _) rfl
  | completes => exact carried.rests rfl (congrFun (congrFun (congrArg State.wire (sent_woken _ _).rest) source) m)
  | receives _ read =>
    cases read
    exact carried.rests rfl rfl
  | @posts n t pktHdr mailHdr data fate after mail success place sent => 
    obtain ⟨_,_,_,own,rfl,wire,rfl,posted⟩ := send_ok sent
    rcases posted with rfl | ⟨rfl,rfl⟩
    · exact carried.rests rfl rfl
    · by_cases here : source = n ∧ m = pktHdr.to_
      · obtain ⟨rfl,rfl⟩ := here
        have silent : ∀ mail, [Event.sent source mail true].filterMap (polledMail pktHdr.to_) = [] := fun _ => rfl
        unfold Carried at carried ⊢
        rw [passed_cons,passed_cons,List.filter_append,silent]
        simpa [sentMail,State.setClient] using carried.append (List.Sublist.refl _)
      · refine carried.rests rfl ?_
        exact (update_wire _ _ _ _ _ _).trans (if_neg here)
  | @reads n sender mail rest empty arrives =>
    obtain ⟨_,own,to_⟩ := framing.wire sender n mail (by simp [arrives])
    have wire : (incomingPacket {s with
        wire := Function.update s.wire sender (Function.update (s.wire sender) n rest)
        inHdr := Function.update s.inHdr n mail.pktHdr
        inbox := Function.update s.inbox n (mail.buffer.bcopy mail.pktHdr.length)} n).wire source m =
          if source = sender ∧ m = n then rest else s.wire source m := by
      rw [← update_wire]
      exact congrFun (congrFun (congrArg State.wire (incoming_woken _ n).rest) source) m
    by_cases machine : m = n
    · subst machine
      have silent : [Event.polled m mail].filterMap (sentMail source) = [] := rfl
      unfold Carried at carried ⊢
      rw [passed_cons,passed_cons,wire,silent]
      by_cases here : source = sender
      · subst here
        rw [arrives] at carried
        simpa [polledMail,own] using carried
      · simpa [polledMail,own,here,Ne.symm here] using carried
    · refine carried.rests (by simp [polledMail,Ne.symm machine]) ?_
      rw [wire,if_neg fun both => machine both.2]

def anySent : Event M → Option (Mail M)
  | .sent _ mail _ => some mail
  | .called .. | .sendDone .. | .sendReturned .. | .polled .. | .received .. | .messages .. => none

-- The packets are told apart by their numbers, and none is empty.
structure Numbered (history : History M T) (s : State M T) : Prop where
  bound : ∀ mail ∈ passed anySent history, mail.buffer.number < s.sends ∧ mail.pktHdr.length ≠ 0
  distinct : ((passed anySent history).map fun mail => mail.buffer.number).Nodup

omit [DecidableEq M] [DecidableEq T] in
theorem Numbered.rests {events : List (Event M)} (numbered : Numbered history s) (sent : events.filterMap anySent = [])
    (sends : s'.sends = s.sends) : Numbered (⟨agent,op,woken,events⟩ :: history) s' := by
  have same : passed anySent (⟨agent,op,woken,events⟩ :: history) = passed anySent history := by
    rw [passed_cons,sent,List.append_nil]
  refine ⟨?_,?_⟩
  · rw [same,sends]
    exact numbered.bound
  · rw [same]
    exact numbered.distinct

omit [DecidableEq M] [DecidableEq T] in
theorem Woken.sends {after : State M T} (woken : Woken s after) : after.sends = s.sends := by
  rw [woken.rest]

theorem step_numbered (numbered : Numbered history s) (changes : Changes s agent s' op events) :
    Numbered (⟨agent,op,woken,events⟩ :: history) s' := by
  cases changes with
  | idles | dozes | hears | calls | sleeps | takes | leaves | asks | checks | ends => exact numbered.rests rfl rfl
  | puts | gets => exact numbered.rests (listed_silent (fun _ _ _ => rfl) _ _ _) rfl
  | completes => exact numbered.rests rfl (sent_woken _ _).sends
  | reads => exact numbered.rests rfl (incoming_woken _ _).sends
  | receives _ read =>
    cases read
    exact numbered.rests rfl rfl
  | @posts n t pktHdr mailHdr data fate after mail success place sent =>
    obtain ⟨_,some_,_,_,rfl,wire,rfl,_⟩ := send_ok sent
    have one : ∀ mail, [Event.sent n mail success].filterMap anySent = [mail] := fun _ => rfl
    refine ⟨?_,?_⟩
    · rw [passed_cons,one]
      intro mail member
      rcases List.mem_append.mp member with before | now
      · exact ⟨Nat.lt_succ_of_lt (numbered.bound mail before).1,(numbered.bound mail before).2⟩
      · obtain rfl := List.mem_singleton.mp now
        exact ⟨Nat.lt_succ_self _,Nat.pos_iff_ne_zero.mp some_⟩
    · rw [passed_cons,one,List.map_append,List.nodup_append]
      refine ⟨numbered.distinct,by simp,?_⟩
      rintro number before _ now rfl
      obtain ⟨earlier,member,rfl⟩ := List.mem_map.mp before
      have bound := (numbered.bound earlier member).1
      simp at now
      omega

-- What every run keeps.
structure Flow (history : History M T) (s : State M T) : Prop where
  roles : Roles s
  framing : Framing s
  units : ∀ m, Units s m
  numbered : Numbered history s
  carried : ∀ source m, Carried history s source m
  taken : ∀ m, Taken history s m
  put : ∀ m box, Put history s m box

theorem runs_flow (path : (program M T numBoxes).Runs history asleep s) : Flow history s := by
  induction path with
  | initial =>
    refine ⟨initial_roles,initial_framing,?_,⟨by simp [passed],by simp [passed]⟩,?_,?_,?_⟩
    · exact fun m => ⟨le_refl _,by simp [program,initial,Semaphore.new]⟩
    · exact fun source m => .slnil
    · exact fun m => rfl
    · exact fun m box => rfl
  | step _ _ executed _ ih =>
    obtain ⟨roles,framing,units,numbered,carried,taken,put⟩ := ih
    have changes := exec_changes executed
    exact ⟨step_roles roles changes,step_framing framing changes,step_units framing units changes,
      step_numbered numbered changes,fun source m => step_carried framing (carried source m) changes,
      fun m => step_taken framing units (taken m) changes,fun m box => step_put roles framing units (put m box) changes⟩

theorem filterMap_weaker {kind kind' : α → Option β}
    (weaker : ∀ event mail, kind event = some mail → kind' event = some mail) (events : List α) : (events.filterMap kind).Sublist (events.filterMap kind') := by
  induction events with
  | nil => exact .slnil
  | cons event rest ih =>
    cases found : kind event with
    | some mail =>
      rw [List.filterMap_cons_some found,List.filterMap_cons_some (weaker event mail found)]
      exact ih.cons_cons mail
    | none =>
      rw [List.filterMap_cons_none found]
      cases other : kind' event with
      | some mail =>
        rw [List.filterMap_cons_some other]
        exact ih.cons mail
      | none =>
        rw [List.filterMap_cons_none other]
        exact ih

omit [DecidableEq T] in
theorem sentMail_any (m : M) (history : History M T) :
    (passed (sentMail m) history).Sublist (passed anySent history) := by
  induction history with
  | nil => exact .slnil
  | cons entry history ih =>
    rw [passed_cons,passed_cons]
    refine ih.append (filterMap_weaker ?_ _)
    intro event mail found
    cases event with
    | sent n other success =>
      simp only [sentMail] at found
      split at found <;> cases found
      rfl
    | called | sendDone | sendReturned | polled | received | messages => cases found

-- A packet off the socket was sent to this machine, by the one its header names.
omit [DecidableEq T] in
theorem Flow.sent (flow : Flow history s) (member : mail ∈ passed (polledMail m) history) :
    mail ∈ passed anySent history ∧ mail.pktHdr.to_ = m := by
  have here : mail ∈ (passed (polledMail m) history).filter (fun other => other.pktHdr.from_ = mail.pktHdr.from_) :=
    List.mem_filter.mpr ⟨member,by simp⟩
  have there := (flow.carried mail.pktHdr.from_ m).subset (List.mem_append_left _ here)
  obtain ⟨sent,to_⟩ := List.mem_filter.mp there
  exact ⟨(sentMail_any _ _).subset sent,by simpa using to_⟩

omit [DecidableEq T] in
theorem Flow.received (flow : Flow history s) (m : M) :
    (passed (receivedMail m) history).Sublist (passed (polledMail m) history) := by
  rw [flow.taken m]
  exact List.sublist_append_left _ _

-- Numbers are not used twice, so no packet is taken off a socket twice.
omit [DecidableEq T] in
theorem Flow.distinct (flow : Flow history s) (m : M) :
    ((passed (polledMail m) history).map fun mail => mail.buffer.number).Nodup := by
  refine List.Nodup.map_on ?_ ?_
  · intro one first two second same
    exact List.inj_on_of_nodup_map flow.numbered.distinct (flow.sent first).1 (flow.sent second).1 same
  · refine List.nodup_iff_sublist.mpr ?_
    intro mail twice
    have carried := flow.carried mail.pktHdr.from_ m
    unfold Carried at carried
    have both := (twice.filter _).trans ((List.sublist_append_left _ _).trans carried)
    have sent := (both.trans List.filter_sublist).trans (sentMail_any _ _)
    have once := (List.Nodup.of_map _ flow.numbered.distinct).sublist sent
    simp at once

omit [DecidableEq T] in
theorem listed_kind {kind kind' : SynchList.Event (Mail M) → Option (Mail M)}
    (kinds : ∀ event, kind event = kind' event) (history : History M T) :
    passed (fun event => (boxEvent m box event).bind kind) history =
      passed (fun event => (boxEvent m box event).bind kind') history := by
  rw [funext kinds]

-- What a box returned is what came for it, in this order.
theorem returned_received [Fintype M] [Fintype T] (path : (program M T numBoxes).Runs history asleep s) (m : M)
    (box : Int) :
    (passed (returnedMail m box) history).Sublist
      ((passed (receivedMail m) history).filter fun mail => mail.buffer.mailHdr.to_ = box) := by
  obtain ⟨listed,runs,same⟩ := runs_mailbox path m box
  have kept := SynchList.runs_kept runs
  have returned : SynchList.itemsReturned listed = passed (returnedMail m box) history :=
    (same _).trans (listed_kind (fun event => by cases event <;> rfl) history)
  have appended : SynchList.itemsAppended listed = passed (appendedMail m box) history :=
    (same _).trans (listed_kind (fun event => by cases event <;> rfl) history)
  have removed : SynchList.itemsRemoved listed <+: SynchList.itemsAppended listed := ⟨_,kept.list.symm⟩
  rw [← returned,(runs_flow path).put m box,← appended]
  exact ((SynchList.returned_prefix kept).trans removed).sublist.trans (List.sublist_append_left _ _)

-- The socket is read only while the inbox is empty.
theorem polled_empty (changes : Changes s agent s' op events) (reported : .polled m mail ∈ events) :
    (s.inHdr m).length = 0 := by
  cases changes with
  | reads empty =>
    cases List.mem_singleton.mp reported
    exact empty
  | puts | gets =>
    obtain ⟨event,_,same⟩ := List.mem_map.mp reported
    cases same
  | receives | calls | posts | leaves | completes => cases List.mem_singleton.mp reported
  | idles | dozes | hears | sleeps | takes | asks | checks | ends => cases reported

end
end
end Nachos.PostOffice
