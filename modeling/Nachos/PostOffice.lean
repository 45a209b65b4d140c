import Nachos.SynchList
import Mathlib.Tactic.DeriveFintype
import Mathlib.Data.Fintype.Sigma
import Mathlib.Data.Fintype.Sum

-- The post offices of post.cc over the devices of network.cc, one on each machine.
-- The poll and the completion of a send are interrupts that may come at any moment;
-- they are threads of their own here. A thread asleep in P is one that has no step.
namespace Nachos.PostOffice
open Monitor

-- sizeof(PacketHeader) and sizeof(MailHeader).
def headerSize : Nat := 12

def MaxWireSize : Nat := 64

def MaxPacketSize : Nat := MaxWireSize - headerSize

def MaxMailSize : Nat := MaxPacketSize - headerSize

structure PacketHeader (M : Type) where
  to_ : M
  from_ : M
  length : Nat
  deriving DecidableEq, Repr

structure MailHeader where
  to_ : Int
  from_ : Int
  length : Nat
  deriving DecidableEq, Repr

-- The bytes of a packet behind its header. `number` is kept for the proofs: it tells
-- the packets apart.
structure Buffer where
  mailHdr : MailHeader
  data : List UInt8
  number : Nat
  deriving DecidableEq, Repr

-- A packet, or a Mail in a mailbox.
structure Mail (M : Type) where
  pktHdr : PacketHeader M
  buffer : Buffer
  deriving DecidableEq, Repr

-- The first `length` bytes, of which the MailHeader is always part.
def Buffer.bcopy (buffer : Buffer) (length : Nat) : Buffer :=
  {buffer with data := buffer.data.take (length - headerSize)}

inductive Agent (M T : Type) where
  | worker (machine : M)
  | client (machine : M) (thread : T)
  | poll (machine : M)
  | sendDone (machine : M)
  deriving DecidableEq, Repr, Fintype

inductive LockId (M : Type) where
  | sendLock (machine : M)
  | messages (machine : M) (box : Int)
  deriving DecidableEq, Repr

-- The listEmpty of each mailbox.
structure ConditionId (M : Type) where
  machine : M
  box : Int
  deriving DecidableEq, Repr

-- PostalDelivery: in P, before Receive, or in the Append of Put.
inductive WorkerPc (M : Type) where
  | testing
  | asleep
  | receiving
  | putting (box : Int) (pc : SynchList.Pc (Mail M))
  deriving DecidableEq, Repr

-- A client in Send: at its Acquire, in P, before its Release; or in Receive: in the
-- Remove of Get, and before its last ASSERT.
inductive ClientPc (M : Type) where
  | outside
  | sending (pktHdr : PacketHeader M) (mailHdr : MailHeader) (data : List UInt8)
  | testing (number : Nat) (success : Bool)
  | asleep (number : Nat) (success : Bool)
  | leaving (number : Nat) (success : Bool)
  | getting (box : Int) (pc : SynchList.Pc (Mail M))
  | got (mail : Mail M)
  | ended
  deriving DecidableEq, Repr

-- The emulated loss of a packet, and what sendto does with the others.
inductive Fate where
  | lost
  | refused
  | carried
  deriving DecidableEq, Repr

-- What is left open: the next call of a client, the fate of a packet, and from whom
-- the socket has a packet when it is polled.
inductive Input (M : Type) where
  | send (pktHdr : PacketHeader M) (mailHdr : MailHeader) (data : List UInt8)
  | receive (box : Int)
  | finish
  | fate (decided : Fate)
  | arrives (sender : M)
  deriving DecidableEq, Repr

-- What a caller passes to Send.
structure Call (M : Type) where
  pktHdr : PacketHeader M
  mailHdr : MailHeader
  data : List UInt8
  deriving DecidableEq, Repr

inductive Event (M : Type) where
  | called (machine : M) (call : Call M)
  | sent (machine : M) (mail : Mail M) (success : Bool)
  | sendDone (machine : M) (number : Nat)
  | sendReturned (machine : M) (number : Nat) (success : Bool)
  | polled (machine : M) (mail : Mail M)
  | received (machine : M) (mail : Mail M)
  | messages (machine : M) (box : Int) (event : SynchList.Event (Mail M))
  deriving DecidableEq, Repr

-- The ASSERTs, and the agents that cannot go on.
inductive Fault where
  | mailLength
  | box
  | send
  | arrival
  | nullItem
  | asleep
  | noCall
  | noInterrupt
  | ended
  deriving DecidableEq, Repr

-- `inHdr`, `inbox`, `sendBusy` and the scheduled send interrupts are those of the
-- machine's Network, `buffer` that of its PostalDelivery, and `wire` what is in the
-- sockets, by sender and receiver.
structure State (M T : Type) where
  messageAvailable : M → Semaphore (Agent M T)
  messageSent : M → Semaphore (Agent M T)
  boxes : M → Int → List (Mail M)
  sendBusy : M → Bool
  inHdr : M → PacketHeader M
  inbox : M → Buffer
  scheduled : M → List Nat
  wire : M → M → List (Mail M)
  sends : Nat
  buffer : M → Buffer
  worker : M → WorkerPc M
  client : M → T → ClientPc M

def emptyBuffer : Buffer := ⟨⟨0,0,0⟩,[],0⟩

def initial (M T : Type) : State M T where
  messageAvailable _ := .new 0
  messageSent _ := .new 0
  boxes _ _ := []
  sendBusy _ := false
  inHdr m := ⟨m,m,0⟩
  inbox _ := emptyBuffer
  scheduled _ := []
  wire _ _ := []
  sends := 0
  buffer _ := emptyBuffer
  worker _ := .testing
  client _ _ := .outside

section
variable [DecidableEq M] [DecidableEq T]

def State.setWorker (s : State M T) (m : M) (pc : WorkerPc M) : State M T :=
  {s with worker := Function.update s.worker m pc}

def State.setClient (s : State M T) (m : M) (t : T) (pc : ClientPc M) : State M T :=
  {s with client := Function.update s.client m (Function.update (s.client m) t pc)}

theorem client_setClient (s : State M T) (m : M) (t : T) (pc : ClientPc M) (n : M) (u : T) :
    (s.setClient m t pc).client n u = if n = m ∧ u = t then pc else s.client n u := by
  by_cases machine : n = m
  · subst machine
    by_cases thread : u = t
    · subst thread; simp [State.setClient]
    · simp [State.setClient,thread]
  · simp [State.setClient,machine]

def State.setBox (s : State M T) (m : M) (box : Int) (list : List (Mail M)) : State M T :=
  {s with boxes := Function.update s.boxes m (Function.update (s.boxes m) box list)}

def State.setAvailable (s : State M T) (m : M) (semaphore : Semaphore (Agent M T)) : State M T :=
  {s with messageAvailable := Function.update s.messageAvailable m semaphore}

def State.setSent (s : State M T) (m : M) (semaphore : Semaphore (Agent M T)) : State M T :=
  {s with messageSent := Function.update s.messageSent m semaphore}

-- A thread that V makes ready goes back to the test in P.
def State.wake (s : State M T) : Option (Agent M T) → State M T
  | some (.worker m) => match s.worker m with
    | .asleep => s.setWorker m .testing
    | _ => s
  | some (.client m t) => match s.client m t with
    | .asleep number success => s.setClient m t (.testing number success)
    | _ => s
  | some (.poll _) | some (.sendDone _) | none => s

-- IncomingPacket
def incomingPacket (s : State M T) (m : M) : State M T :=
  let (semaphore,thread) := (s.messageAvailable m).v
  (s.setAvailable m semaphore).wake thread

-- PacketSent
def packetSent (s : State M T) (m : M) : State M T :=
  let (semaphore,thread) := (s.messageSent m).v
  (s.setSent m semaphore).wake thread

-- Network::CheckPktAvail; a packet of `sender` is the next in the socket.
def checkPktAvail (s : State M T) (m sender : M) : Except Fault (State M T × List (Event M)) :=
  if (s.inHdr m).length ≠ 0 then .ok (s,[])
  else match s.wire sender m with
    | [] => .ok (s,[])
    | mail :: rest =>
      if mail.pktHdr.to_ = m ∧ mail.pktHdr.length ≤ MaxPacketSize then
        .ok (incomingPacket {s with
          wire := Function.update s.wire sender (Function.update (s.wire sender) m rest)
          inHdr := Function.update s.inHdr m mail.pktHdr
          inbox := Function.update s.inbox m (mail.buffer.bcopy mail.pktHdr.length)} m,[.polled m mail])
      else .error .arrival

-- Network::SendDone
def sendDone (s : State M T) (m : M) (rest : List Nat) : State M T :=
  packetSent {s with
    scheduled := Function.update s.scheduled m rest
    sendBusy := Function.update s.sendBusy m false} m

-- Network::Send, with the packet as it goes out.
def send (s : State M T) (m : M) (hdr : PacketHeader M) (data : Buffer) (fate : Fate) :
    Except Fault (State M T × Mail M × Bool) :=
  if s.sendBusy m = false ∧ 0 < hdr.length ∧ hdr.length ≤ MaxPacketSize ∧ hdr.from_ = m then
    let mail : Mail M := ⟨hdr,{data.bcopy hdr.length with number := s.sends}⟩
    let s := {s with
      sends := s.sends + 1
      scheduled := Function.update s.scheduled m (s.scheduled m ++ [s.sends])}
    match fate with
    | .lost => .ok (s,mail,true)
    | .refused => .ok (s,mail,false)
    | .carried => .ok ({s with
        wire := Function.update s.wire m (Function.update (s.wire m) hdr.to_ (s.wire m hdr.to_ ++ [mail]))},mail,true)
  else .error .send

-- Network::Receive
def receive (s : State M T) (m : M) : State M T × PacketHeader M :=
  let hdr := s.inHdr m
  ({s with
    inHdr := Function.update s.inHdr m {hdr with length := 0}
    buffer := if hdr.length ≠ 0 then Function.update s.buffer m ((s.inbox m).bcopy hdr.length) else s.buffer},hdr)

-- A step of the SynchList of a mailbox.
def synchList (s : State M T) (m : M) (box : Int) (request : SynchList.Request (Mail M)) (pc : SynchList.Pc (Mail M)) :
    Except Fault (State M T × SynchList.Pc (Mail M) × Op (LockId M) (ConditionId M) × List (Event M)) :=
  match SynchList.advance (s.boxes m box) request pc with
  | .error .nullItem => .error .nullItem
  | .ok (list,after,op,events) =>
    .ok (s.setBox m box list,after,op.placed (.messages m box) ⟨m,box⟩,events.map (.messages m box))

-- Mail::Mail
def newMail (pktH : PacketHeader M) (buffer : Buffer) : Except Fault (Mail M) :=
  if buffer.mailHdr.length ≤ MaxMailSize then
    .ok ⟨pktH,{buffer with data := buffer.data.take buffer.mailHdr.length}⟩
  else .error .mailLength

-- PostalDelivery
def postalDelivery (numBoxes : Int) (s : State M T) (m : M) :
    WorkerPc M → Except Fault (State M T × Op (LockId M) (ConditionId M) × List (Event M))
  | .testing =>
    let (semaphore,sleeps) := (s.messageAvailable m).p (.worker m)
    .ok ((s.setAvailable m semaphore).setWorker m (if sleeps then .asleep else .receiving),.skip,[])
  | .asleep => .error .asleep
  | .receiving =>
    let (s,pktHdr) := receive s m
    let buffer := s.buffer m
    if ¬(0 ≤ buffer.mailHdr.to_ ∧ buffer.mailHdr.to_ < numBoxes) then .error .box
    else if ¬buffer.mailHdr.length ≤ MaxMailSize then .error .mailLength
    else do
      let mail ← newMail pktHdr buffer
      let (s,pc,op,events) ← synchList s m buffer.mailHdr.to_ (.append mail) .outside
      .ok (s.setWorker m (.putting buffer.mailHdr.to_ pc),op,.received m ⟨pktHdr,buffer⟩ :: events)
  | .putting box pc => do
    let (s,after,op,events) ← synchList s m box .finish pc
    .ok (s.setWorker m (if pc = .signalled then .testing else .putting box after),op,events)

def Input.toFate : Input M → Fate
  | .fate decided => decided
  | _ => .carried

-- Send and Receive of a PostOffice
def client (numBoxes : Int) (s : State M T) (m : M) (t : T) (input : Input M) :
    ClientPc M → Except Fault (State M T × Op (LockId M) (ConditionId M) × List (Event M))
  | .outside => match input with
    | .send pktHdr mailHdr data =>
      if ¬mailHdr.length ≤ MaxMailSize then .error .mailLength
      else if ¬(0 ≤ mailHdr.to_ ∧ mailHdr.to_ < numBoxes) then .error .box
      else .ok (s.setClient m t (.sending {pktHdr with from_ := m, length := mailHdr.length + headerSize} mailHdr
        (data.take mailHdr.length)),.acquire (.sendLock m),[.called m ⟨pktHdr,mailHdr,data⟩])
    | .receive box =>
      if 0 ≤ box ∧ box < numBoxes then do
        let (s,pc,op,events) ← synchList s m box .remove .outside
        .ok (s.setClient m t (.getting box pc),op,events)
      else .error .box
    | .finish => .ok (s.setClient m t .ended,.stop,[])
    | .fate _ | .arrives _ => .error .noCall
  | .sending pktHdr mailHdr data => do
    let (s,mail,success) ← send s m pktHdr ⟨mailHdr,data,0⟩ input.toFate
    .ok (s.setClient m t (.testing mail.buffer.number success),.skip,[.sent m mail success])
  | .testing number success =>
    let (semaphore,sleeps) := (s.messageSent m).p (.client m t)
    .ok ((s.setSent m semaphore).setClient m t
      (if sleeps then .asleep number success else .leaving number success),.skip,[])
  | .asleep _ _ => .error .asleep
  | .leaving number success =>
    .ok (s.setClient m t .outside,.release (.sendLock m),[.sendReturned m number success])
  | .getting box pc => do
    let (s,after,op,events) ← synchList s m box .finish pc
    .ok (s.setClient m t (match pc with
      | .removed mail => .got mail
      | _ => .getting box after),op,events)
  | .got mail =>
    if mail.buffer.mailHdr.length ≤ MaxMailSize then .ok (s.setClient m t .outside,.skip,[])
    else .error .mailLength
  | .ended => .error .ended

def exec (numBoxes : Int) : Agent M T → State M T → Input M →
    Except Fault (State M T × Op (LockId M) (ConditionId M) × List (Event M))
  | .worker m,s,_ => postalDelivery numBoxes s m (s.worker m)
  | .client m t,s,input => client numBoxes s m t input (s.client m t)
  | .poll m,s,input => match input with
    | .arrives sender => do
      let (s,events) ← checkPktAvail s m sender
      .ok (s,.skip,events)
    | _ => .ok (s,.skip,[])
  | .sendDone m,s,_ => match s.scheduled m with
    | [] => .error .noInterrupt
    | number :: rest => .ok (sendDone s m rest,.skip,[.sendDone m number])

def WorkerPc.held (m : M) : WorkerPc M → List (LockId M)
  | .testing | .asleep | .receiving => []
  | .putting box pc => pc.held.map fun _ => .messages m box

def WorkerPc.site (m : M) : WorkerPc M → Site (LockId M) (ConditionId M)
  | .testing | .asleep | .receiving => .free
  | .putting box pc => pc.site.placed (.messages m box) ⟨m,box⟩

def ClientPc.held (m : M) : ClientPc M → List (LockId M)
  | .outside | .got _ | .ended => []
  | .sending _ _ _ | .testing _ _ | .asleep _ _ | .leaving _ _ => [.sendLock m]
  | .getting box pc => pc.held.map fun _ => .messages m box

def ClientPc.site (m : M) : ClientPc M → Site (LockId M) (ConditionId M)
  | .sending _ _ _ => .entering (.sendLock m)
  | .outside | .testing _ _ | .asleep _ _ | .leaving _ _ | .got _ => .free
  | .getting box pc => pc.site.placed (.messages m box) ⟨m,box⟩
  | .ended => .ended

def program (M T : Type) [DecidableEq M] [DecidableEq T] (numBoxes : Int) :
    Program (Agent M T) (LockId M) (ConditionId M) (State M T) (Input M) (Event M) Fault where
  exec := exec numBoxes
  initial := initial M T
  lockOf c := .messages c.machine c.box
  held s := fun
    | .worker m => (s.worker m).held m
    | .client m t => (s.client m t).held m
    | .poll _ | .sendDone _ => []
  site s := fun
    | .worker m => (s.worker m).site m
    | .client m t => (s.client m t).site m
    | .poll _ | .sendDone _ => .free

-- The Mail that PostalDelivery puts into a mailbox.
def mailOf (pktHdr : PacketHeader M) (buffer : Buffer) : Mail M :=
  ⟨pktHdr,{buffer with data := buffer.data.take buffer.mailHdr.length}⟩

-- What a step can do.
inductive Changes (s : State M T) :
    Agent M T → State M T → Op (LockId M) (ConditionId M) → List (Event M) → Prop where
  | dozes : s.worker m = .testing → (s.messageAvailable m).value = 0 →
      Changes s (.worker m) ((s.setAvailable m
        ⟨(s.messageAvailable m).value,(s.messageAvailable m).queue ++ [.worker m]⟩).setWorker m .asleep) .skip []
  | hears : s.worker m = .testing → (s.messageAvailable m).value ≠ 0 →
      Changes s (.worker m) ((s.setAvailable m
        ⟨Signed.wrap 32 ((s.messageAvailable m).value - 1),(s.messageAvailable m).queue⟩).setWorker m .receiving) .skip []
  | receives : s.worker m = .receiving → receive s m = (after,pktHdr) → after.buffer m = buffer →
      Changes s (.worker m) (after.setWorker m (.putting buffer.mailHdr.to_ (.appending (mailOf pktHdr buffer))))
        (.acquire (.messages m buffer.mailHdr.to_)) [.received m ⟨pktHdr,buffer⟩]
  | puts : s.worker m = .putting box pc → SynchList.advance (s.boxes m box) .finish pc = .ok (list,now,op,events) →
      Changes s (.worker m) ((s.setBox m box list).setWorker m (if pc = .signalled then .testing else .putting box now))
        (op.placed (.messages m box) ⟨m,box⟩) (events.map (.messages m box))
  | calls (pktHdr : PacketHeader M) (mailHdr : MailHeader) (data : List UInt8) : s.client m t = .outside →
      mailHdr.length ≤ MaxMailSize →
      Changes s (.client m t) (s.setClient m t (.sending {pktHdr with from_ := m, length := mailHdr.length + headerSize}
        mailHdr (data.take mailHdr.length))) (.acquire (.sendLock m)) [.called m ⟨pktHdr,mailHdr,data⟩]
  | posts : s.client m t = .sending pktHdr mailHdr data →
      send s m pktHdr ⟨mailHdr,data,0⟩ fate = .ok (after,mail,success) →
      Changes s (.client m t) (after.setClient m t (.testing mail.buffer.number success)) .skip [.sent m mail success]
  | sleeps : s.client m t = .testing number success → (s.messageSent m).value = 0 →
      Changes s (.client m t) ((s.setSent m
        ⟨(s.messageSent m).value,(s.messageSent m).queue ++ [.client m t]⟩).setClient m t (.asleep number success)) .skip []
  | takes : s.client m t = .testing number success → (s.messageSent m).value ≠ 0 →
      Changes s (.client m t) ((s.setSent m ⟨Signed.wrap 32 ((s.messageSent m).value - 1),(s.messageSent m).queue⟩).setClient m t
        (.leaving number success)) .skip []
  | leaves : s.client m t = .leaving number success →
      Changes s (.client m t) (s.setClient m t .outside) (.release (.sendLock m)) [.sendReturned m number success]
  | asks : s.client m t = .outside →
      Changes s (.client m t) (s.setClient m t (.getting box .removing)) (.acquire (.messages m box)) []
  | gets : s.client m t = .getting box pc →
      SynchList.advance (s.boxes m box) .finish pc = .ok (list,now,op,events) →
      (∀ mail, pc = .removed mail → next = .got mail) →
      ((∀ mail, pc ≠ .removed mail) → next = .getting box now) →
      Changes s (.client m t) ((s.setBox m box list).setClient m t next) (op.placed (.messages m box) ⟨m,box⟩)
        (events.map (.messages m box))
  | checks : s.client m t = .got mail → Changes s (.client m t) (s.setClient m t .outside) .skip []
  | ends : s.client m t = .outside → Changes s (.client m t) (s.setClient m t .ended) .stop []
  | idles : Changes s (.poll m) s .skip []
  | reads : (s.inHdr m).length = 0 → s.wire sender m = mail :: rest →
      Changes s (.poll m) (incomingPacket {s with
        wire := Function.update s.wire sender (Function.update (s.wire sender) m rest)
        inHdr := Function.update s.inHdr m mail.pktHdr
        inbox := Function.update s.inbox m (mail.buffer.bcopy mail.pktHdr.length)} m) .skip [.polled m mail]
  | completes : s.scheduled m = number :: rest →
      Changes s (.sendDone m) (sendDone s m rest) .skip [.sendDone m number]

omit [DecidableEq T] in
theorem setBox_self (s : State M T) (m : M) (box : Int) : s.setBox m box (s.boxes m box) = s := by
  simp [State.setBox]

omit [DecidableEq T] in
theorem synchList_ok {s : State M T} (ran : synchList s m box request pc = .ok (after,now,op,events)) :
    ∃ list op' events', SynchList.advance (s.boxes m box) request pc = .ok (list,now,op',events') ∧
      after = s.setBox m box list ∧ op = op'.placed (.messages m box) ⟨m,box⟩ ∧
      events = events'.map (.messages m box) := by
  unfold synchList at ran
  split at ran
  · cases ran
  · rename_i list after' op' events' advanced
    cases ran
    exact ⟨list,op',events',advanced,rfl,rfl,rfl⟩

theorem delivery_changes {s : State M T} (ran : postalDelivery numBoxes s m (s.worker m) = .ok (s',op,events)) :
    Changes s (.worker m) s' op events := by
  cases place : s.worker m with
  | testing =>
    rw [place] at ran
    by_cases empty : (s.messageAvailable m).value = 0
    · simp only [postalDelivery,Semaphore.p,if_pos empty] at ran
      cases ran
      exact .dozes place empty
    · simp only [postalDelivery,Semaphore.p,if_neg empty] at ran
      cases ran
      exact .hears place empty
  | asleep =>
    rw [place] at ran
    cases ran
  | receiving =>
    rw [place] at ran
    simp only [postalDelivery] at ran
    split at ran
    · cases ran
    · split at ran
      · cases ran
      · rename_i short
        obtain ⟨mail,made,ran⟩ := bind_ok ran
        obtain ⟨⟨after,pc,op',events'⟩,appends,result⟩ := bind_ok ran
        obtain ⟨list,_,_,advanced,rfl,rfl,rfl⟩ := synchList_ok appends
        rw [newMail,if_pos (by simpa using short)] at made
        cases made
        cases advanced
        cases result
        rw [setBox_self]
        exact .receives place rfl rfl
  | putting box pc =>
    rw [place] at ran
    obtain ⟨⟨after,now,op',events'⟩,appends,result⟩ := bind_ok ran
    obtain ⟨list,_,_,advanced,rfl,rfl,rfl⟩ := synchList_ok appends
    cases result
    exact .puts place advanced

theorem client_changes {s : State M T} (ran : client numBoxes s m t input (s.client m t) = .ok (s',op,events)) :
    Changes s (.client m t) s' op events := by
  cases place : s.client m t with
  | outside =>
    rw [place] at ran
    cases input with
    | send pktHdr mailHdr data =>
      simp only [client] at ran
      split at ran
      · cases ran
      · rename_i short
        split at ran <;> cases ran
        exact .calls pktHdr mailHdr data place (by simpa using short)
    | receive box =>
      simp only [client] at ran
      split at ran
      · obtain ⟨⟨after,now,op',events'⟩,removes,result⟩ := bind_ok ran
        obtain ⟨list,_,_,advanced,rfl,rfl,rfl⟩ := synchList_ok removes
        cases advanced
        cases result
        rw [setBox_self]
        exact .asks place
      · cases ran
    | finish =>
      cases ran
      exact .ends place
    | fate | arrives => cases ran
  | sending pktHdr mailHdr data =>
    rw [place] at ran
    obtain ⟨⟨after,mail,success⟩,posted,result⟩ := bind_ok ran
    cases result
    exact .posts place posted
  | testing number success =>
    rw [place] at ran
    by_cases empty : (s.messageSent m).value = 0
    · simp only [client,Semaphore.p,if_pos empty] at ran
      cases ran
      exact .sleeps place empty
    · simp only [client,Semaphore.p,if_neg empty] at ran
      cases ran
      exact .takes place empty
  | asleep =>
    rw [place] at ran
    cases ran
  | leaving number success =>
    rw [place] at ran
    cases ran
    exact .leaves place
  | getting box pc =>
    rw [place] at ran
    obtain ⟨⟨after,now,op',events'⟩,removes,result⟩ := bind_ok ran
    obtain ⟨list,_,_,advanced,rfl,rfl,rfl⟩ := synchList_ok removes
    cases result
    refine .gets place advanced ?_ ?_
    · rintro mail rfl
      rfl
    · intro other
      cases pc with
      | removed mail => exact absurd rfl (other mail)
      | outside | appending | appended | signalled | removing | waiting | ended => rfl
  | got mail =>
    rw [place] at ran
    simp only [client] at ran
    split at ran <;> cases ran
    exact .checks place
  | ended =>
    rw [place] at ran
    cases ran

theorem exec_changes {s : State M T} (executed : exec numBoxes agent s input = .ok (s',op,events)) :
    Changes s agent s' op events := by
  cases agent with
  | worker m => exact delivery_changes executed
  | client m t => exact client_changes executed
  | poll m =>
    simp only [exec] at executed
    split at executed
    · rename_i sender
      obtain ⟨⟨after,events'⟩,checked,result⟩ := bind_ok executed
      cases result
      unfold checkPktAvail at checked
      split at checked
      · cases checked
        exact .idles
      · rename_i empty
        split at checked
        · cases checked
          exact .idles
        · rename_i mail rest arrives
          split at checked <;> cases checked
          exact .reads (by simpa using empty) arrives
    · cases executed
      exact .idles
  | sendDone m =>
    simp only [exec] at executed
    split at executed
    · cases executed
    · rename_i number rest waiting
      cases executed
      exact .completes waiting

-- What V leaves as it is, and the one thread it moves.
structure Woken (s after : State M T) : Prop where
  rest : after = {s with worker := after.worker, client := after.client}
  worker : ∀ m, after.worker m = s.worker m ∨ (s.worker m = .asleep ∧ after.worker m = .testing)
  client : ∀ m t, after.client m t = s.client m t ∨
    ∃ number success, s.client m t = .asleep number success ∧ after.client m t = .testing number success

theorem wake_woken (s : State M T) (agent : Option (Agent M T)) : Woken s (s.wake agent) := by
  have still : Woken s s := ⟨rfl,fun _ => .inl rfl,fun _ _ => .inl rfl⟩
  cases agent with
  | none => exact still
  | some agent =>
    cases agent with
    | poll | sendDone => exact still
    | worker m =>
      simp only [State.wake]
      split
      · rename_i place
        refine ⟨rfl,?_,fun _ _ => .inl rfl⟩
        intro m'
        by_cases same : m' = m
        · subst same
          exact .inr ⟨place,by simp [State.setWorker]⟩
        · exact .inl (by simp [State.setWorker,same])
      · exact still
    | client m t =>
      simp only [State.wake]
      split
      · rename_i number success place
        refine ⟨rfl,fun _ => .inl rfl,?_⟩
        intro m' t'
        by_cases machine : m' = m
        · subst machine
          by_cases thread : t' = t
          · subst thread
            exact .inr ⟨number,success,place,by simp [State.setClient]⟩
          · exact .inl (by simp [State.setClient,thread])
        · exact .inl (by simp [State.setClient,machine])
      · exact still

theorem incoming_woken (s : State M T) (m : M) :
    Woken (s.setAvailable m (s.messageAvailable m).v.1) (incomingPacket s m) := wake_woken _ _

theorem sent_woken (s : State M T) (m : M) : Woken (s.setSent m (s.messageSent m).v.1) (packetSent s m) :=
  wake_woken _ _

-- A handler changes no thread's claim on a lock.
theorem woken_frame {s after : State M T} (woken : Woken s after) (agent : Agent M T) :
    (program M T numBoxes).held after agent = (program M T numBoxes).held s agent ∧
      (program M T numBoxes).site after agent = (program M T numBoxes).site s agent := by
  cases agent with
  | worker m =>
    rcases woken.worker m with same | ⟨before,now⟩
    · simp [program,same]
    · simp [program,before,now,WorkerPc.held,WorkerPc.site]
  | client m t =>
    rcases woken.client m t with same | ⟨number,success,before,now⟩
    · simp [program,same]
    · simp [program,before,now,ClientPc.held,ClientPc.site]
  | poll | sendDone => exact ⟨rfl,rfl⟩

omit [DecidableEq T] in
theorem send_ok {s : State M T} (sent : send s m hdr data fate = .ok (after,mail,success)) :
    s.sendBusy m = false ∧ 0 < hdr.length ∧ hdr.length ≤ MaxPacketSize ∧ hdr.from_ = m ∧
    mail = ⟨hdr,{data.bcopy hdr.length with number := s.sends}⟩ ∧
    ∃ wire, after = {s with
        sends := s.sends + 1
        scheduled := Function.update s.scheduled m (s.scheduled m ++ [s.sends])
        wire} ∧
      (wire = s.wire ∨ (success = true ∧
        wire = Function.update s.wire m (Function.update (s.wire m) hdr.to_ (s.wire m hdr.to_ ++ [mail])))) := by
  unfold send at sent
  split at sent
  · rename_i allowed
    obtain ⟨idle,some_,short,own⟩ := allowed
    cases fate with
    | lost | refused =>
      cases sent
      exact ⟨idle,some_,short,own,rfl,_,rfl,.inl rfl⟩
    | carried =>
      cases sent
      exact ⟨idle,some_,short,own,rfl,_,rfl,.inr ⟨rfl,rfl⟩⟩
  · cases sent

theorem setWorker_frame (s : State M T) (pc : WorkerPc M) (other : agent ≠ .worker m) :
    (program M T numBoxes).held (s.setWorker m pc) agent = (program M T numBoxes).held s agent ∧
      (program M T numBoxes).site (s.setWorker m pc) agent = (program M T numBoxes).site s agent := by
  cases agent with
  | worker m' =>
    have machine : m' ≠ m := by rintro rfl; exact other rfl
    simp [program,State.setWorker,machine]
  | client | poll | sendDone => exact ⟨rfl,rfl⟩

theorem setClient_frame (s : State M T) (pc : ClientPc M) (other : agent ≠ .client m t) :
    (program M T numBoxes).held (s.setClient m t pc) agent = (program M T numBoxes).held s agent ∧
      (program M T numBoxes).site (s.setClient m t pc) agent = (program M T numBoxes).site s agent := by
  cases agent with
  | client m' t' =>
    by_cases machine : m' = m
    · subst machine
      have thread : t' ≠ t := by rintro rfl; exact other rfl
      simp [program,State.setClient,thread]
    · simp [program,State.setClient,machine]
  | worker | poll | sendDone => exact ⟨rfl,rfl⟩

theorem exec_frame {s : State M T} (changes : Changes s agent s' op events) (differs : other ≠ agent) :
    (program M T numBoxes).held s' other = (program M T numBoxes).held s other ∧
      (program M T numBoxes).site s' other = (program M T numBoxes).site s other := by
  cases changes with
  | idles => exact ⟨rfl,rfl⟩
  | reads => exact woken_frame (incoming_woken _ _) other
  | completes => exact woken_frame (sent_woken _ _) other
  | dozes | hears | puts => exact setWorker_frame _ _ differs
  | receives _ read =>
    cases read
    exact setWorker_frame _ _ differs
  | posts place sent =>
    obtain ⟨_,_,_,_,_,wire,rfl,_⟩ := send_ok sent
    exact setClient_frame _ _ differs
  | calls | sleeps | takes | leaves | asks | gets | checks | ends => exact setClient_frame _ _ differs

-- The operations of a SynchList are those of the mailbox's lock and condition.
theorem append_follows (numBoxes : Int) (m : M) (box : Int)
    (advanced : SynchList.advance list .finish pc = .ok (list',now,op,events))
    (going : pc.site ≠ .ended) :
    Program.Follows (program M T numBoxes).lockOf (WorkerPc.held m (.putting box pc))
      (WorkerPc.held m (if pc = .signalled then .testing else .putting box now))
      (WorkerPc.site m (if pc = .signalled then .testing else .putting box now)) (op.placed (.messages m box) ⟨m,box⟩) := by
  have follows := (SynchList.advance_follows advanced going).placed (c := ConditionId.mk m box)
    (show (program M T numBoxes).lockOf ⟨m,box⟩ = .messages m box from rfl)
  by_cases done : pc = .signalled
  · subst done
    cases advanced
    rw [if_pos rfl]
    exact follows
  · rw [if_neg done]
    exact follows

theorem remove_follows (numBoxes : Int) (m : M) (box : Int)
    (advanced : SynchList.advance list .finish pc = .ok (list',now,op,events))
    (going : pc.site ≠ .ended) (got : ∀ mail, pc = .removed mail → next = .got mail)
    (other : (∀ mail, pc ≠ .removed mail) → next = .getting box now) :
    Program.Follows (program M T numBoxes).lockOf (ClientPc.held m (.getting box pc)) (ClientPc.held m next)
      (ClientPc.site m next) (op.placed (.messages m box) ⟨m,box⟩) := by
  have follows := (SynchList.advance_follows advanced going).placed (c := ConditionId.mk m box)
    (show (program M T numBoxes).lockOf ⟨m,box⟩ = .messages m box from rfl)
  by_cases done : ∃ mail, pc = .removed mail
  · obtain ⟨mail,rfl⟩ := done
    cases advanced
    rw [got mail rfl]
    exact follows
  · rw [other fun mail same => done ⟨mail,same⟩]
    exact follows

theorem exec_follows (numBoxes : Int) {s : State M T} (changes : Changes s agent s' op events)
    (going : (program M T numBoxes).site s agent ≠ .ended) :
    Program.Follows (program M T numBoxes).lockOf ((program M T numBoxes).held s agent)
      ((program M T numBoxes).held s' agent) ((program M T numBoxes).site s' agent) op := by
  cases changes with
  | idles => exact .skip rfl rfl
  | reads => exact .skip (woken_frame (incoming_woken _ _) _).1 (woken_frame (incoming_woken _ _) _).2
  | completes => exact .skip (woken_frame (sent_woken _ _) _).1 (woken_frame (sent_woken _ _) _).2
  | dozes place | hears place =>
    exact .skip (by simp [program,State.setWorker,place,WorkerPc.held]) (by simp [program,State.setWorker,WorkerPc.site])
  | receives place read =>
    refine .acquire ?_ ?_ ?_
    · simp [program,place,WorkerPc.held]
    · simp [program,State.setWorker,place,WorkerPc.held,SynchList.Pc.held]
    · simp [program,State.setWorker,WorkerPc.site,SynchList.Pc.site,Site.placed]
  | @puts m box pc _ _ _ _ place advanced =>
    have going : pc.site ≠ .ended := by
      intro ended
      simp [program,place,WorkerPc.site,ended,Site.placed] at going
    have follows := append_follows (T := T) numBoxes m box advanced going
    simpa only [program,State.setWorker,place,Function.update_self] using follows
  | calls _ _ _ place =>
    refine .acquire ?_ ?_ ?_
    · simp [program,place,ClientPc.held]
    · simp [program,State.setClient,place,ClientPc.held]
    · simp [program,State.setClient,ClientPc.site]
  | asks place =>
    refine .acquire ?_ ?_ ?_
    · simp [program,place,ClientPc.held]
    · simp [program,State.setClient,place,ClientPc.held,SynchList.Pc.held]
    · simp [program,State.setClient,ClientPc.site,SynchList.Pc.site,Site.placed]
  | posts place | sleeps place | takes place | checks place =>
    exact .skip (by simp [program,State.setClient,place,ClientPc.held]) (by simp [program,State.setClient,ClientPc.site])
  | leaves place =>
    refine .release ?_ ?_ ?_
    · simp [program,place,ClientPc.held]
    · simp [program,State.setClient,place,ClientPc.held]
    · simp [program,State.setClient,ClientPc.site]
  | @gets m t box pc _ _ _ _ _ place advanced got other =>
    have going : pc.site ≠ .ended := by
      intro ended
      simp [program,place,ClientPc.site,ended,Site.placed] at going
    have follows := remove_follows (T := T) numBoxes m box advanced going got other
    simpa only [program,State.setClient,place,Function.update_self] using follows
  | ends place =>
    exact .stop (by simp [program,place,ClientPc.held]) (by simp [program,State.setClient,ClientPc.held])
      (by simp [program,State.setClient,ClientPc.site])

theorem disciplined (M T : Type) [DecidableEq M] [DecidableEq T] (numBoxes : Int) :
    (program M T numBoxes).Disciplined := by
  refine ⟨?_,?_,?_⟩
  · intro agent
    cases agent <;> exact ⟨rfl,rfl⟩
  · intro agent s input s' op events other executed differs
    exact exec_frame (exec_changes executed) differs
  · intro agent s input s' op events executed going
    exact exec_follows numBoxes (exec_changes executed) going

end
end Nachos.PostOffice
