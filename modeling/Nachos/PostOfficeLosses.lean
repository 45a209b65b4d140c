import Nachos.PostOfficeCalls

-- Post offices on a network that loses no packet: every Mail is somewhere on its way.
namespace Nachos

theorem Machine.ReachedBy.reached {T L C S I E F : Type} [DecidableEq T] [DecidableEq L] [DecidableEq C]
    {P : Monitor.Program T L C S I E F} {allowed : S → T → I → Prop} {m : Machine T L C S E}
    (path : Machine.ReachedBy P allowed m) : Machine.Reached P m := by
  induction path with
  | initial => exact .initial
  | exec _ _ stepped ih => exact ih.step stepped
  | resume _ stepped ih => exact ih.step stepped

theorem Machine.follow_by {T L C S I E F : Type} [DecidableEq T] [DecidableEq L] [DecidableEq C]
    {P : Monitor.Program T L C S I E F} {allowed : S → T → I → Prop} {m after : Machine T L C S E} {schedule : List (Choice T I)}
    (path : Machine.ReachedBy P allowed m) (fits : ∀ t input, .exec t input ∈ schedule → ∀ s, allowed s t input)
    (ran : m.follow P schedule = some after) : Machine.ReachedBy P allowed after := by
  induction schedule generalizing m with
  | nil =>
    cases Option.some.inj ran
    exact path
  | cons choice later ih =>
    simp only [Machine.follow,Option.bind_eq_bind,Option.bind_eq_some_iff] at ran
    obtain ⟨middle,stepped,rest⟩ := ran
    refine ih ?_ (fun t input member => fits t input (List.mem_cons_of_mem _ member)) rest
    cases choice with
    | exec t input => exact .exec path (fits t input List.mem_cons_self _) stepped
    | resume t => exact .resume path stepped

namespace PostOffice
open Monitor

-- The network is told to have reliability 1.
def Reliable (_ : State M T) (_ : Agent M T) (input : Input M) : Prop := input ≠ .fate .lost

section
variable {M T : Type} [DecidableEq M] [DecidableEq T] {s s' : State M T} {history : History M T}

-- What was sent from one machine to another is what was taken off the socket and what is
-- still in it.
def Whole (history : History M T) (s : State M T) (source m : M) : Prop :=
  (passed (sentMail source) history).filter (fun mail => mail.pktHdr.to_ = m) =
    (passed (polledMail m) history).filter (fun mail => mail.pktHdr.from_ = source) ++ s.wire source m

omit [DecidableEq T] in
theorem Whole.rests {events : List (Event M)} (whole : Whole history s source m)
    (sent : events.filterMap (sentMail source) = []) (polled : events.filterMap (polledMail m) = [])
    (wire : s'.wire source m = s.wire source m) : Whole (⟨agent,op,woken,events⟩ :: history) s' source m := by
  unfold Whole at whole ⊢
  rw [passed_cons,passed_cons,sent,polled,wire,List.append_nil,List.append_nil]
  exact whole

-- A packet that is neither lost nor refused is on the wire.
omit [DecidableEq T] in
theorem send_carries (sent : send s m hdr data fate = .ok (after,mail,true)) (kept : fate ≠ .lost) :
    after.wire = Function.update s.wire m (Function.update (s.wire m) hdr.to_ (s.wire m hdr.to_ ++ [mail])) := by
  unfold send at sent
  split at sent
  · cases fate with
    | lost => exact absurd rfl kept
    | refused => cases sent
    | carried =>
      cases sent
      rfl
  · cases sent

-- The post of a client, with the fate it was given.
theorem posts_fate (place : s.client m t = .sending pktHdr mailHdr data)
    (executed : exec numBoxes (.client m t) s input = .ok (s',op,events)) :
    ∃ after mail success, send s m pktHdr ⟨mailHdr,data,0⟩ input.toFate = .ok (after,mail,success) ∧
      s' = after.setClient m t (.testing mail.buffer.number success) ∧ events = [.sent m mail success] := by
  simp only [exec,place] at executed
  obtain ⟨⟨after,mail,success⟩,posted,result⟩ := bind_ok executed
  cases result
  exact ⟨after,mail,success,posted,rfl,rfl⟩

omit [DecidableEq M] in
theorem toFate_kept {input : Input M} (reliable : input ≠ .fate .lost) : input.toFate ≠ .lost := by
  cases input with
  | fate decided =>
    rintro rfl
    exact reliable rfl
  | send | receive | finish | arrives => exact fun wrong => by cases wrong

theorem step_whole (framing : Framing s) (whole : Whole history s source m) (reliable : input ≠ .fate .lost)
    (executed : exec numBoxes agent s input = .ok (s',op,events)) :
    Whole (⟨agent,op,woken,events⟩ :: history) s' source m := by
  cases exec_changes executed with
  | idles | dozes | hears | calls | sleeps | takes | leaves | asks | checks | ends => exact whole.rests rfl rfl rfl
  | puts | gets =>
    exact whole.rests (listed_silent (fun _ _ _ => rfl) _ _ _) (listed_silent (fun _ _ _ => rfl) _ _ _) rfl
  | completes => exact whole.rests rfl rfl (congrFun (congrFun (congrArg State.wire (sent_woken _ _).rest) source) m)
  | receives _ read =>
    cases read
    exact whole.rests rfl rfl rfl
  | @posts n t pktHdr mailHdr data fate after mail success place sent =>
    obtain ⟨after',mail',success',posted,same,reported⟩ := posts_fate place executed
    cases reported
    have wires : after.wire = after'.wire := by simpa [State.setClient] using congrArg State.wire same
    cases success with
    | false =>
      obtain ⟨_,_,_,_,rfl,wire,rfl,kept⟩ := send_ok sent
      have unsent : wire = s.wire := kept.resolve_right fun carried => by cases carried.1
      exact whole.rests (by simp [sentMail]) rfl (congrFun (congrFun unsent source) m)
    | true =>
      have carried := send_carries posted (toFate_kept reliable)
      rw [← wires] at carried
      obtain ⟨_,_,_,own,rfl,_⟩ := send_ok sent
      by_cases here : source = n ∧ m = pktHdr.to_
      · obtain ⟨rfl,rfl⟩ := here
        have silent : ∀ mail, [Event.sent source mail true].filterMap (polledMail pktHdr.to_) = [] := fun _ => rfl
        unfold Whole at whole ⊢
        rw [passed_cons,passed_cons,List.filter_append,silent,whole]
        show _ = _ ++ (after.wire source pktHdr.to_)
        rw [carried]
        simp [sentMail]
      · have elsewhere : after.wire source m = s.wire source m := by
          rw [carried,update_wire,if_neg here]
        have silent : ∀ mail, [Event.sent n mail true].filterMap (polledMail m) = [] := fun _ => rfl
        unfold Whole at whole ⊢
        rw [passed_cons,passed_cons,List.filter_append,silent,List.append_nil,whole]
        show _ = _ ++ after.wire source m
        rw [elsewhere]
        by_cases sender : n = source
        · have other : pktHdr.to_ ≠ m := fun same => here ⟨sender.symm,same.symm⟩
          simp [sentMail,sender,other]
        · simp [sentMail,sender]
  | @reads n sender mail rest empty arrives =>
    obtain ⟨_,own,to_⟩ := framing.wire sender n mail (by simp [arrives])
    have wire : (incomingPacket {s with
        wire := Function.update s.wire sender (Function.update (s.wire sender) n rest)
        inHdr := Function.update s.inHdr n mail.pktHdr
        inbox := Function.update s.inbox n (mail.buffer.bcopy mail.pktHdr.length)} n).wire source m =
          if source = sender ∧ m = n then rest else s.wire source m := by
      rw [← update_wire]
      exact congrFun (congrFun (congrArg State.wire (incoming_woken _ n).rest) source) m
    by_cases here : source = sender ∧ m = n
    · obtain ⟨rfl,rfl⟩ := here
      have silent : [Event.polled m mail].filterMap (sentMail source) = [] := rfl
      unfold Whole at whole ⊢
      rw [passed_cons,passed_cons,wire,if_pos ⟨rfl,rfl⟩,silent,List.append_nil,whole,arrives]
      simp [polledMail,own]
    · rw [if_neg here] at wire
      by_cases machine : m = n
      · subst machine
        have other : ¬sender = source := fun same => here ⟨same.symm,rfl⟩
        have silent : [Event.polled m mail].filterMap (sentMail source) = [] := rfl
        unfold Whole at whole ⊢
        rw [passed_cons,passed_cons,wire,silent,List.append_nil,whole]
        simp [polledMail,own,other]
      · exact whole.rests rfl (by simp [polledMail,Ne.symm machine]) wire

-- What a client has removed from a box and not returned yet.
inductive Taking (s : State M T) (m : M) (box : Int) : List (Mail M) → Prop where
  | nobody : (∀ t mail, s.client m t ≠ .getting box (.removed mail)) → Taking s m box []
  | somebody {t : T} {mail : Mail M} : s.client m t = .getting box (.removed mail) → Taking s m box [mail]

omit [DecidableEq T] in
theorem inBox_removed (roles : Roles s) {mail : Mail M} :
    (∃ agent, inBox s m box agent = .removed mail) ↔ ∃ t, s.client m t = .getting box (.removed mail) := by
  constructor
  · rintro ⟨agent,place⟩
    cases agent with
    | worker n =>
      cases here : s.worker n with
      | putting number pc =>
        simp only [inBox,here,WorkerPc.inBox] at place
        split at place
        · subst place
          rcases roles.worker n number _ here with ⟨_,wrong,_⟩ | wrong | wrong <;> cases wrong
        · cases place
      | testing | asleep | receiving =>
        simp only [inBox,here,WorkerPc.inBox] at place
        cases place
    | client n t =>
      cases here : s.client n t with
      | getting number pc =>
        simp only [inBox,here,ClientPc.inBox] at place
        split at place
        · rename_i same
          obtain ⟨rfl,rfl⟩ : n = m ∧ number = box := by simpa using same
          exact ⟨t,by rw [here,place]⟩
        · cases place
      | outside | sending | testing | asleep | leaving | got | ended =>
        simp only [inBox,here,ClientPc.inBox] at place
        cases place
    | poll | sendDone => cases place
  · rintro ⟨t,place⟩
    exact ⟨.client m t,by simp [inBox,place,ClientPc.inBox]⟩

-- What came from the network for a box: returned, taken, in the box, or in the worker's hand.
theorem received_accounted [Fintype M] [Fintype T] (path : (program M T numBoxes).Runs history asleep s) (m : M) (box : Int) :
    ∃ taken, Taking s m box taken ∧ (passed (receivedMail m) history).filter (fun mail => mail.buffer.mailHdr.to_ = box) =
      passed (returnedMail m box) history ++ taken ++ s.boxes m box ++ inHand s m box := by
  obtain ⟨listed,runs,same⟩ := runs_mailbox path m box
  have kept := SynchList.runs_kept runs
  have flow := runs_flow path
  have returned : SynchList.itemsReturned listed = passed (returnedMail m box) history :=
    (same _).trans (listed_kind (fun event => by cases event <;> rfl) history)
  have appended : SynchList.itemsAppended listed = passed (appendedMail m box) history :=
    (same _).trans (listed_kind (fun event => by cases event <;> rfl) history)
  rw [flow.put m box,← appended,kept.list,← returned]
  by_cases some_ : ∃ t mail, s.client m t = .getting box (.removed mail)
  · obtain ⟨t,mail,place⟩ := some_
    obtain ⟨agent,there⟩ := (inBox_removed flow.roles).mpr ⟨t,place⟩
    exact ⟨[mail],.somebody place,by rw [kept.carried agent mail there]; rfl⟩
  · refine ⟨[],.nobody fun t mail place => some_ ⟨t,mail,place⟩,?_⟩
    have settled := kept.settled fun agent mail there => some_ (by
      obtain ⟨t,place⟩ := (inBox_removed flow.roles).mp ⟨agent,there⟩
      exact ⟨t,mail,place⟩)
    rw [settled,List.append_nil]
    rfl

theorem reached_whole {machine : Machine (Agent M T) (LockId M) (ConditionId M) (State M T) (Event M)}
    (path : Machine.ReachedBy (program M T numBoxes) Reliable machine) (source m : M) :
    Whole machine.history machine.state source m := by
  induction path with
  | initial => exact rfl
  | @exec before agent input after prior reliable stepped ih =>
    have flow := runs_flow (Machine.reached_runs (disciplined M T numBoxes) prior.reached)
    simp only [Machine.step] at stepped
    split at stepped
    · cases stepped
    · rename_i state op events executed
      obtain ⟨kernel,_,made⟩ := Option.bind_eq_some_iff.mp stepped
      cases made
      exact step_whole flow.framing ih reliable executed
  | @resume before agent after prior stepped ih =>
    obtain ⟨kernel,_,made⟩ := Option.bind_eq_some_iff.mp (show _ = some after from stepped)
    cases made
    exact ih

-- Every message that a caller gave to Send is, in the order they were sent, in one place:
-- returned by Receive, taken out of its box by one, in the box, in the worker's hand, in the
-- Network, or in the socket.
theorem no_mail_lost [Fintype M] [Fintype T]
    {machine : Machine (Agent M T) (LockId M) (ConditionId M) (State M T) (Event M)}
    (path : Machine.ReachedBy (program M T numBoxes) Reliable machine) (source m : M) (box : Int) :
    ∃ taken mails, Taking machine.state m box taken ∧
      mails = (passed (returnedMail m box) machine.history ++ taken ++ machine.state.boxes m box ++ inHand machine.state m box ++
          (inInbox machine.state m).filter fun mail => mail.buffer.mailHdr.to_ = box).filter (fun mail => mail.pktHdr.from_ = source) ++
        (machine.state.wire source m).filter (fun mail => mail.buffer.mailHdr.to_ = box) ∧
      (passed (sentMail source) machine.history).filter (fun mail => mail.pktHdr.to_ = m ∧ mail.buffer.mailHdr.to_ = box) = mails ∧
      ((sentCalls source machine.history).filter fun call => call.pktHdr.to_ = m ∧ call.mailHdr.to_ = box).map
        (Call.message source) = mails.map messageOf := by
  have runs := Machine.reached_runs (disciplined M T numBoxes) path.reached
  obtain ⟨taken,takes,accounted⟩ := received_accounted runs m box
  have whole := reached_whole path source m
  have sent : (passed (sentMail source) machine.history).filter
      (fun mail => mail.pktHdr.to_ = m ∧ mail.buffer.mailHdr.to_ = box) =
      (passed (returnedMail m box) machine.history ++ taken ++ machine.state.boxes m box ++ inHand machine.state m box ++
          (inInbox machine.state m).filter fun mail => mail.buffer.mailHdr.to_ = box).filter (fun mail => mail.pktHdr.from_ = source) ++
        (machine.state.wire source m).filter fun mail => mail.buffer.mailHdr.to_ = box := by
    rw [← accounted,← List.filter_append,← (runs_flow runs).taken m]
    have addressed := congrArg (List.filter fun mail => mail.buffer.mailHdr.to_ = box) whole
    rw [List.filter_append,List.filter_filter,List.filter_filter] at addressed
    rw [List.filter_filter]
    simpa [Bool.and_comm] using addressed
  exact ⟨taken,_,takes,rfl,sent,by rw [← sent,(runs_called runs).addressed source m box]⟩

-- One message from machine 0 to box 0 of machine 1, in the worker's hand.
theorem no_mail_lost_one : ∃ machine,
    (Machine.initial (program (Fin 2) Unit 1)).follow (program (Fin 2) Unit 1) (oneMessage.take 8) = some machine ∧
    (inHand machine.state 1 0).map messageOf = [⟨⟨1,0,14⟩,⟨0,3,2⟩,[72,105]⟩] ∧
    sentCalls 0 machine.history = [⟨⟨1,0,0⟩,⟨0,3,2⟩,[72,105]⟩] ∧
    ∃ taken mails, Taking machine.state 1 0 taken ∧
      mails = (passed (returnedMail 1 0) machine.history ++ taken ++ machine.state.boxes 1 0 ++ inHand machine.state 1 0 ++
          (inInbox machine.state 1).filter fun mail => mail.buffer.mailHdr.to_ = 0).filter (fun mail => mail.pktHdr.from_ = 0) ++
        (machine.state.wire 0 1).filter (fun mail => mail.buffer.mailHdr.to_ = 0) ∧
      (passed (sentMail 0) machine.history).filter (fun mail => mail.pktHdr.to_ = 1 ∧ mail.buffer.mailHdr.to_ = 0) = mails ∧
      ((sentCalls 0 machine.history).filter fun call => call.pktHdr.to_ = 1 ∧ call.mailHdr.to_ = 0).map
        (Call.message 0) = mails.map messageOf := by
  have reliable : ∀ agent input, Choice.exec agent input ∈ oneMessage.take 8 → ∀ s : State (Fin 2) Unit, Reliable s agent input := by
    rintro agent _ member s rfl
    simp [oneMessage] at member
  have reached : ∀ machine, (Machine.initial (program (Fin 2) Unit 1)).follow (program (Fin 2) Unit 1) (oneMessage.take 8) =
      some machine → Machine.ReachedBy (program (Fin 2) Unit 1) Reliable machine :=
    fun _ ran => Machine.follow_by .initial reliable ran
  refine ⟨_,rfl,rfl,rfl,?_⟩
  exact no_mail_lost (reached _ rfl) 0 1 0

-- What the ASSERTs of Send let through.
def MailHeader.Fits (numBoxes : Int) (mailHdr : MailHeader) : Prop :=
  0 ≤ mailHdr.to_ ∧ mailHdr.to_ < numBoxes ∧ mailHdr.length ≤ MaxMailSize

def ClientPc.Fits (numBoxes : Int) : ClientPc M → Prop
  | .sending _ mailHdr _ => mailHdr.Fits numBoxes
  | .getting _ (.removed mail) | .got mail => mail.buffer.mailHdr.Fits numBoxes
  | _ => True

def WorkerPc.Fits (numBoxes : Int) : WorkerPc M → Prop
  | .putting _ (.appending mail) => mail.buffer.mailHdr.Fits numBoxes
  | _ => True

structure Addressed (numBoxes : Int) (s : State M T) : Prop where
  client : ∀ m t, (s.client m t).Fits numBoxes
  worker : ∀ m, (s.worker m).Fits numBoxes
  wire : ∀ source m, ∀ mail ∈ s.wire source m, mail.buffer.mailHdr.Fits numBoxes
  inbox : ∀ m, (s.inHdr m).length ≠ 0 → (s.inbox m).mailHdr.Fits numBoxes
  boxes : ∀ m box, ∀ mail ∈ s.boxes m box, mail.buffer.mailHdr.Fits numBoxes

theorem Addressed.setClient (addressed : Addressed numBoxes s) (fits : pc.Fits numBoxes) : Addressed numBoxes (s.setClient m t pc) := by
  refine ⟨?_,addressed.worker,addressed.wire,addressed.inbox,addressed.boxes⟩
  intro n u
  rw [client_setClient]
  split
  · exact fits
  · exact addressed.client n u

omit [DecidableEq T] in
theorem Addressed.setWorker (addressed : Addressed numBoxes s) (fits : pc.Fits numBoxes) : Addressed numBoxes (s.setWorker m pc) := by
  refine ⟨addressed.client,?_,addressed.wire,addressed.inbox,addressed.boxes⟩
  intro n
  by_cases machine : n = m
  · subst machine
    simpa [State.setWorker] using fits
  · simpa [State.setWorker,machine] using addressed.worker n

omit [DecidableEq T] in
theorem Addressed.setBox (addressed : Addressed numBoxes s) (fits : ∀ mail ∈ list, mail.buffer.mailHdr.Fits numBoxes) :
    Addressed numBoxes (s.setBox m box list) := by
  refine ⟨addressed.client,addressed.worker,addressed.wire,addressed.inbox,?_⟩
  intro n number mail member
  by_cases machine : n = m
  · subst machine
    by_cases same : number = box
    · subst same
      exact fits mail (by simpa [State.setBox] using member)
    · exact addressed.boxes n number mail (by simpa [State.setBox,same] using member)
  · exact addressed.boxes n number mail (by simpa [State.setBox,machine] using member)

omit [DecidableEq M] [DecidableEq T] in
theorem Addressed.woken {after : State M T} (addressed : Addressed numBoxes s) (woken : Woken s after) : Addressed numBoxes after := by
  have wire : after.wire = s.wire := by rw [woken.rest]
  have inHdr : after.inHdr = s.inHdr := by rw [woken.rest]
  have inbox : after.inbox = s.inbox := by rw [woken.rest]
  have boxes : after.boxes = s.boxes := by rw [woken.rest]
  refine ⟨?_,?_,wire ▸ addressed.wire,by rw [inHdr,inbox]; exact addressed.inbox,boxes ▸ addressed.boxes⟩
  · intro m t
    rcases woken.client m t with same | ⟨number,success,_,now⟩
    · exact same ▸ addressed.client m t
    · rw [now]
      trivial
  · intro m
    rcases woken.worker m with same | ⟨_,now⟩
    · exact same ▸ addressed.worker m
    · rw [now]
      trivial

-- A call of Send has passed its ASSERTs.
theorem calls_fit (place : s.client m t = .outside) (executed : exec numBoxes (.client m t) s input = .ok (s',op,events))
    (called : s'.client m t = .sending pktHdr mailHdr data) : mailHdr.Fits numBoxes := by
  simp only [exec,place] at executed
  cases input with
  | send packet mail bytes =>
    simp only [client] at executed
    split at executed
    · cases executed
    · rename_i short
      split at executed
      · cases executed
      · rename_i inside
        cases executed
        simp only [State.setClient,Function.update_self] at called
        cases called
        rw [not_not] at short inside
        exact ⟨inside.1,inside.2,short⟩
  | receive box =>
    simp only [client] at executed
    split at executed
    · obtain ⟨⟨after,now,op',events'⟩,removes,result⟩ := bind_ok executed
      cases result
      simp [State.setClient] at called
    · cases executed
  | finish =>
    cases executed
    simp [State.setClient] at called
  | fate | arrives => cases executed

-- What a thread inside Append or Remove does to the items.
omit [DecidableEq M] in
theorem advance_items {list list' : List (Mail M)} (advanced : SynchList.advance list .finish pc = .ok (list',now,op,events)) :
    (∀ mail ∈ list', mail ∈ list ∨ pc = .appending mail) ∧ (∀ mail, now = .removed mail → mail ∈ list) ∧
      ∀ mail, now ≠ .appending mail := by
  have loops : SynchList.advance list .finish .waiting = .ok (list',now,op,events) →
      (∀ mail ∈ list', mail ∈ list ∨ pc = .appending mail) ∧ (∀ mail, now = .removed mail → mail ∈ list) ∧
        ∀ mail, now ≠ .appending mail := by
    intro advanced
    cases list with
    | nil =>
      simp only [SynchList.advance,List.isEmpty_nil,if_true] at advanced
      cases advanced
      exact ⟨fun _ member => absurd member List.not_mem_nil,by simp,by simp⟩
    | cons mail rest =>
      simp only [SynchList.advance,List.isEmpty_cons] at advanced
      cases advanced
      exact ⟨fun _ member => .inl (List.mem_cons_of_mem _ member),by simp,by simp⟩
  cases pc with
  | removing | waiting => exact loops advanced
  | appending mail =>
    cases advanced
    refine ⟨?_,by simp,by simp⟩
    intro other member
    rcases List.mem_append.mp member with before | now
    · exact .inl before
    · exact .inr (by rw [List.mem_singleton.mp now])
  | outside | appended | signalled | removed | ended =>
    cases advanced
    exact ⟨fun _ member => .inl member,by simp,by simp⟩

theorem step_addressed (roles : Roles s) (framing : Framing s) (units : ∀ m, Units s m) (addressed : Addressed numBoxes s)
    (executed : exec numBoxes agent s input = .ok (s',op,events)) : Addressed numBoxes s' := by
  cases exec_changes executed with
  | idles => exact addressed
  | dozes | hears =>
    refine Addressed.setWorker ?_ trivial
    exact ⟨addressed.client,addressed.worker,addressed.wire,addressed.inbox,addressed.boxes⟩
  | sleeps | takes =>
    refine Addressed.setClient ?_ trivial
    exact ⟨addressed.client,addressed.worker,addressed.wire,addressed.inbox,addressed.boxes⟩
  | leaves | asks | checks | ends => exact addressed.setClient trivial
  | @calls m t pktHdr mailHdr data place short =>
    have called : (s.setClient m t (.sending {pktHdr with from_ := m, length := mailHdr.length + headerSize} mailHdr
        (data.take mailHdr.length))).client m t = .sending {pktHdr with from_ := m, length := mailHdr.length + headerSize}
          mailHdr (data.take mailHdr.length) := by simp [State.setClient]
    exact addressed.setClient (calls_fit place executed called)
  | @posts m t pktHdr mailHdr data fate after mail success place sent =>
    have fits : mailHdr.Fits numBoxes := by simpa [place,ClientPc.Fits] using addressed.client m t
    obtain ⟨_,_,_,_,rfl,wire,rfl,carried⟩ := send_ok sent
    refine Addressed.setClient ⟨addressed.client,addressed.worker,?_,addressed.inbox,addressed.boxes⟩ trivial
    intro source n other member
    rcases carried with rfl | ⟨_,rfl⟩
    · exact addressed.wire source n other member
    · have there : other ∈ Function.update s.wire m (Function.update (s.wire m) pktHdr.to_ _) source n := member
      rw [update_wire] at there
      split at there
      · rename_i same
        obtain ⟨rfl,rfl⟩ := same
        rcases List.mem_append.mp there with before | now
        · exact addressed.wire _ _ other before
        · obtain rfl := List.mem_singleton.mp now
          exact fits
      · exact addressed.wire source n other there
  | @receives m after pktHdr buffer place read same =>
    obtain ⟨some_,copied⟩ := received_inbox framing units place
    cases read
    obtain rfl : buffer = s.inbox m := same.symm.trans copied
    refine Addressed.setWorker ⟨addressed.client,addressed.worker,addressed.wire,?_,addressed.boxes⟩ (addressed.inbox m some_)
    intro n full
    by_cases machine : n = m
    · subst machine
      simp at full
    · exact addressed.inbox n (by simpa [machine] using full)
  | @puts m box pc list now op events place advanced =>
    obtain ⟨items,_,apart⟩ := advance_items advanced
    have worker := addressed.worker m
    rw [place] at worker
    refine Addressed.setWorker (addressed.setBox ?_) ?_
    · intro mail member
      rcases items mail member with before | rfl
      · exact addressed.boxes m box mail before
      · exact worker
    · by_cases done : pc = .signalled
      · rw [if_pos done]
        trivial
      · rw [if_neg done]
        cases now with
        | appending mail => exact absurd rfl (apart mail)
        | outside | appended | signalled | removing | waiting | removed | ended => trivial
  | @gets m t box pc list now op events next place advanced got other =>
    obtain ⟨items,removed,_⟩ := advance_items advanced
    have here := addressed.client m t
    rw [place] at here
    refine Addressed.setClient (addressed.setBox ?_) ?_
    · intro mail member
      rcases items mail member with before | rfl
      · exact addressed.boxes m box mail before
      · rcases roles.client m t box _ place with wrong | wrong | ⟨_,wrong⟩ <;> cases wrong
    · by_cases done : ∃ mail, pc = .removed mail
      · obtain ⟨mail,rfl⟩ := done
        rw [got mail rfl]
        exact here
      · rw [other fun mail same => done ⟨mail,same⟩]
        cases now with
        | removed mail => exact addressed.boxes m box mail (removed mail rfl)
        | outside | appending | appended | signalled | removing | waiting | ended => trivial
  | @reads m sender mail rest empty arrives =>
    have fits := addressed.wire sender m mail (by simp [arrives])
    refine Addressed.woken ?_ (incoming_woken _ _)
    refine ⟨addressed.client,addressed.worker,?_,?_,addressed.boxes⟩
    · intro source n other member
      have there : other ∈ Function.update s.wire sender (Function.update (s.wire sender) m rest) source n := member
      rw [update_wire] at there
      split at there
      · rename_i same
        obtain ⟨rfl,rfl⟩ := same
        exact addressed.wire source n other (by simp [arrives,there])
      · exact addressed.wire source n other there
    · intro n full
      by_cases machine : n = m
      · subst machine
        simpa [State.setAvailable,Buffer.bcopy] using fits
      · simp only [State.setAvailable,ne_eq,machine,not_false_eq_true,Function.update_of_ne] at full ⊢
        exact addressed.inbox n full
  | completes =>
    refine Addressed.woken ?_ (sent_woken _ _)
    exact ⟨addressed.client,addressed.worker,addressed.wire,addressed.inbox,addressed.boxes⟩

-- SendDone clears what Send never set.
theorem step_idle (idle : ∀ m, s.sendBusy m = false) (changes : Changes s agent s' op events) : ∀ m, s'.sendBusy m = false := by
  cases changes with
  | idles | dozes | hears | puts | calls | sleeps | takes | leaves | asks | gets | checks | ends => exact idle
  | receives _ read =>
    cases read
    exact idle
  | posts place sent =>
    obtain ⟨_,_,_,_,_,wire,rfl,_⟩ := send_ok sent
    exact idle
  | reads =>
    intro n
    rw [(incoming_woken _ _).rest]
    exact idle n
  | @completes m number rest waiting =>
    intro n
    rw [show (sendDone s m rest).sendBusy n = Function.update s.sendBusy m false n from
      congrFun (congrArg State.sendBusy (sent_woken _ _).rest) n]
    by_cases same : n = m
    · subst same
      simp
    · simpa [same] using idle n

-- A packet under way to the network has the address of its machine.
def Own (s : State M T) : Prop := ∀ m t pktHdr mailHdr data, s.client m t = .sending pktHdr mailHdr data → pktHdr.from_ = m

theorem Own.setClient (own : Own s) (fits : ∀ pktHdr mailHdr data, pc = .sending pktHdr mailHdr data → pktHdr.from_ = m) :
    Own (s.setClient m t pc) := by
  intro n u pktHdr mailHdr data place
  rw [client_setClient] at place
  split at place
  · rename_i same
    rw [same.1]
    exact fits pktHdr mailHdr data place
  · exact own n u pktHdr mailHdr data place

omit [DecidableEq M] [DecidableEq T] in
theorem Own.woken {after : State M T} (own : Own s) (woken : Woken s after) : Own after := by
  intro m t pktHdr mailHdr data place
  rcases woken.client m t with same | ⟨number,success,_,now⟩
  · exact own m t pktHdr mailHdr data (same ▸ place)
  · simp [now] at place

theorem step_own (own : Own s) (changes : Changes s agent s' op events) : Own s' := by
  cases changes with
  | idles | dozes | hears | puts => exact own
  | receives _ read =>
    cases read
    exact own
  | calls =>
    refine own.setClient ?_
    rintro _ _ _ ⟨⟩
    rfl
  | posts place sent =>
    obtain ⟨_,_,_,_,_,wire,rfl,_⟩ := send_ok sent
    exact Own.setClient (s := {s with wire,..}) own (by simp)
  | sleeps | takes | leaves | asks | checks | ends => exact Own.setClient own (by simp)
  | gets place advanced got other =>
    refine Own.setClient own ?_
    intro pktHdr mailHdr data here
    rcases gets_next got other with ⟨mail,rfl⟩ | rfl <;> cases here
  | reads =>
    refine Own.woken ?_ (incoming_woken _ _)
    exact own
  | completes =>
    refine Own.woken ?_ (sent_woken _ _)
    exact own

-- What the ASSERTs on the way of a packet need.
structure Sound (numBoxes : Int) (s : State M T) : Prop where
  addressed : Addressed numBoxes s
  own : Own s
  idle : ∀ m, s.sendBusy m = false

theorem runs_sound (path : (program M T numBoxes).Runs history asleep s) : Sound numBoxes s := by
  induction path with
  | initial =>
    refine ⟨⟨fun _ _ => trivial,fun _ => trivial,?_,?_,?_⟩,?_,fun _ => rfl⟩
    · simp [program,initial]
    · simp [program,initial]
    · simp [program,initial]
    · simp [Own,program,initial]
  | step prior _ executed _ ih =>
    have flow := runs_flow prior
    have changes := exec_changes executed
    exact ⟨step_addressed flow.roles flow.framing flow.units ih.addressed executed,step_own ih.own changes,
      step_idle ih.idle changes⟩

omit [DecidableEq T] in
theorem synchList_total (s : State M T) (m : M) (box : Int) (request : SynchList.Request (Mail M)) (pc : SynchList.Pc (Mail M)) :
    ∃ result, synchList s m box request pc = .ok result := by
  obtain ⟨⟨list,after,op,events⟩,advanced⟩ := SynchList.advance_total (s.boxes m box) request pc
  exact ⟨_,by simp only [synchList,advanced]; rfl⟩

-- A worker goes on, or sleeps in P.
omit [DecidableEq T] in
theorem delivery_fails (sound : Sound numBoxes s) (flow : Flow history s)
    (failed : postalDelivery numBoxes s m (s.worker m) = .error fault) : s.worker m = .asleep := by
  cases place : s.worker m with
  | asleep => rfl
  | testing =>
    rw [place] at failed
    cases failed
  | putting box pc =>
    obtain ⟨result,goes⟩ := synchList_total s m box .finish pc
    rw [place] at failed
    simp only [postalDelivery,goes] at failed
    cases failed
  | receiving =>
    obtain ⟨some_,copied⟩ := received_inbox flow.framing flow.units place
    obtain ⟨low,high,short⟩ := sound.addressed.inbox m some_
    obtain ⟨result,goes⟩ := synchList_total (receive s m).1 m (s.inbox m).mailHdr.to_
      (.append ⟨(receive s m).2,{s.inbox m with data := (s.inbox m).data.take (s.inbox m).mailHdr.length}⟩) .outside
    rw [place] at failed
    simp only [postalDelivery,copied,newMail] at failed
    rw [if_neg (not_not.mpr ⟨low,high⟩),if_neg (not_not.mpr short),if_pos short] at failed
    simp [goes,bind,Except.bind] at failed

omit [DecidableEq T] in
theorem send_fails (sound : Sound numBoxes s) (flow : Flow history s) (place : s.client m t = .sending pktHdr mailHdr data)
    (failed : send s m pktHdr ⟨mailHdr,data,0⟩ fate = .error fault) : False := by
  obtain ⟨_,_,short⟩ : mailHdr.Fits numBoxes := by simpa [place,ClientPc.Fits] using sound.addressed.client m t
  have length := (flow.framing.sending m t pktHdr mailHdr data place).1
  have sizes : MaxMailSize + headerSize = MaxPacketSize := by decide
  have header : 0 < headerSize := by decide
  have packet : pktHdr.length = mailHdr.length + headerSize := length
  unfold send at failed
  rw [if_pos ⟨sound.idle m,by omega,by omega,sound.own m t pktHdr mailHdr data place⟩] at failed
  cases fate <;> cases failed

theorem client_fails (sound : Sound numBoxes s) (flow : Flow history s)
    (failed : client numBoxes s m t input (s.client m t) = .error fault) :
    s.client m t = .outside ∨ (∃ number success, s.client m t = .asleep number success) ∨ s.client m t = .ended := by
  cases place : s.client m t with
  | outside => exact .inl rfl
  | asleep number success => exact .inr (.inl ⟨number,success,rfl⟩)
  | ended => exact .inr (.inr rfl)
  | sending pktHdr mailHdr data =>
    rw [place] at failed
    cases posted : send s m pktHdr ⟨mailHdr,data,0⟩ input.toFate with
    | error why => exact (send_fails sound flow place posted).elim
    | ok result => simp [client,posted,bind,Except.bind] at failed
  | testing | leaving =>
    rw [place] at failed
    cases failed
  | getting box pc =>
    obtain ⟨result,goes⟩ := synchList_total s m box .finish pc
    rw [place] at failed
    simp [client,goes,bind,Except.bind] at failed
  | got mail =>
    obtain ⟨_,_,short⟩ : mail.buffer.mailHdr.Fits numBoxes := by simpa [place,ClientPc.Fits] using sound.addressed.client m t
    rw [place] at failed
    simp only [client,if_pos short] at failed
    cases failed

theorem poll_fails (sound : Sound numBoxes s) (flow : Flow history s) (input : Input M) :
    exec numBoxes (.poll m) s input ≠ .error fault := by
  intro failed
  cases input with
  | arrives sender =>
    cases checked : checkPktAvail s m sender with
    | ok result => simp [exec,checked,bind,Except.bind] at failed
    | error why =>
      unfold checkPktAvail at checked
      split at checked
      · cases checked
      · split at checked
        · cases checked
        · rename_i mail rest arrives
          have member : mail ∈ s.wire sender m := by simp [arrives]
          obtain ⟨framed,_,to_⟩ := flow.framing.wire sender m mail member
          obtain ⟨_,_,short⟩ := sound.addressed.wire sender m mail member
          have length := framed.1
          have sizes : MaxMailSize + headerSize = MaxPacketSize := by decide
          rw [if_pos ⟨to_,by omega⟩] at checked
          cases checked
  | send | receive | finish | fate => cases failed

-- No ASSERT fails on the way of a packet, on either machine, except in Send and Receive
-- themselves on what their caller gave them. What else cannot go on sleeps in P, has ended,
-- or is a completion with no packet under way.
theorem only_callers_fail {machine : Machine (Agent M T) (LockId M) (ConditionId M) (State M T) (Event M)}
    (reached : Machine.Reached (program M T numBoxes) machine) (failed : Machine.Faults (program M T numBoxes) machine agent input fault) :
    match agent with
    | .worker m => machine.state.worker m = .asleep
    | .poll _ => False
    | .sendDone m => machine.state.scheduled m = []
    | .client m t => machine.state.client m t = .outside ∨
        (∃ number success, machine.state.client m t = .asleep number success) ∨ machine.state.client m t = .ended := by
  have runs := Machine.reached_runs (disciplined M T numBoxes) reached
  have sound := runs_sound runs
  have flow := runs_flow runs
  obtain ⟨_,_,failed⟩ := failed
  cases agent with
  | worker m => exact delivery_fails sound flow failed
  | poll m => exact poll_fails sound flow input failed
  | client m t => exact client_fails sound flow failed
  | sendDone m =>
    cases scheduled : machine.state.scheduled m with
    | nil => exact scheduled
    | cons number rest =>
      simp only [program,exec,scheduled] at failed
      cases failed

-- The worker of machine 1 is asleep and a packet for it is on the wire, with its sender's
-- completion still to come.
def underWay : List (Choice (Agent (Fin 2) Unit) (Input (Fin 2))) :=
  .exec (.worker (Fin.last 1)) .finish :: oneMessage.take 2

theorem only_callers_fail_asleep : ∃ machine,
    (Machine.initial (program (Fin 2) Unit 1)).follow (program (Fin 2) Unit 1) underWay = some machine ∧
    (machine.state.wire 0 1).map messageOf = [⟨⟨1,0,14⟩,⟨0,3,2⟩,[72,105]⟩] ∧ machine.state.scheduled 0 = [0] ∧
    Machine.Faults (program (Fin 2) Unit 1) machine (.worker 1) .finish .asleep ∧ machine.state.worker 1 = .asleep := by
  have ran : ∃ machine, (Machine.initial (program (Fin 2) Unit 1)).follow (program (Fin 2) Unit 1) underWay = some machine ∧
      (machine.state.wire 0 1).map messageOf = [⟨⟨1,0,14⟩,⟨0,3,2⟩,[72,105]⟩] ∧ machine.state.scheduled 0 = [0] ∧
      Machine.Faults (program (Fin 2) Unit 1) machine (.worker 1) .finish .asleep := ⟨_,rfl,rfl,rfl,rfl,rfl,rfl⟩
  obtain ⟨machine,follows,packet,due,failed⟩ := ran
  exact ⟨machine,follows,packet,due,failed,only_callers_fail (Machine.follow_reached _ .initial follows) failed⟩

end
end PostOffice
end Nachos
