import Nachos.PostOfficeLosses
import Nachos.Blocked

-- Machines at rest: where no call of a post office can go on, no completion is due and
-- a poll finds nothing, all that was sent has come to where it can be received.
namespace Nachos.PostOffice
open Monitor

section
variable {M T : Type} [DecidableEq M] [DecidableEq T] {s s' : State M T} {history : History M T}

-- The worker sleeps in P on an empty semaphore, and nobody else is in its queue.
def Dozes (s : State M T) (m : M) : Prop :=
  (s.messageAvailable m).queue = (if s.worker m = .asleep then [.worker m] else []) ∧
    (s.worker m = .asleep → (s.messageAvailable m).value = 0)

omit [DecidableEq T] in
theorem Dozes.same (dozes : Dozes s m) (semaphore : s'.messageAvailable m = s.messageAvailable m)
    (worker : s'.worker m = .asleep ↔ s.worker m = .asleep) : Dozes s' m := by
  unfold Dozes at dozes ⊢
  simpa only [semaphore,worker] using dozes

-- V on messageSent is for a client.
theorem packetSent_worker (roles : Roles s) (m : M) : (packetSent s m).worker = s.worker := by
  cases waiting : (s.messageSent m).queue with
  | nil => simp [packetSent,Semaphore.v,waiting,State.wake,State.setSent]
  | cons first later =>
    obtain ⟨t,rfl⟩ := roles.sent m first (by simp [waiting])
    simp only [packetSent,Semaphore.v,waiting,State.wake]
    split <;> rfl

theorem incoming_dozes (dozes : ∀ m, Dozes s m) (n : M) : ∀ m, Dozes (incomingPacket s n) m := by
  intro m
  have here := dozes n
  by_cases asleep : s.worker n = .asleep
  · have queue : (s.messageAvailable n).queue = [.worker n] := by simpa [asleep] using here.1
    have woken : incomingPacket s n = (s.setAvailable n ⟨Signed.wrap 32 ((s.messageAvailable n).value + 1),[]⟩).setWorker n .testing := by
      simp [incomingPacket,Semaphore.v,queue,State.wake,State.setAvailable,asleep]
    rw [woken]
    by_cases same : m = n
    · subst same
      simp [Dozes,State.setWorker,State.setAvailable]
    · exact (dozes m).same (by simp [State.setWorker,State.setAvailable,same]) (by simp [State.setWorker,State.setAvailable,same])
  · have queue : (s.messageAvailable n).queue = [] := by simpa [asleep] using here.1
    have raised : incomingPacket s n = s.setAvailable n ⟨Signed.wrap 32 ((s.messageAvailable n).value + 1),[]⟩ := by
      simp [incomingPacket,Semaphore.v,queue,State.wake]
    rw [raised]
    by_cases same : m = n
    · subst same
      simp [Dozes,State.setAvailable,asleep]
    · exact (dozes m).same (by simp [State.setAvailable,same]) Iff.rfl

omit [DecidableEq T] in
theorem dozes_at (dozes : ∀ n, Dozes s n) (here : Dozes s' m) (elsewhere : ∀ n, n ≠ m →
    s'.messageAvailable n = s.messageAvailable n ∧ s'.worker n = s.worker n) : ∀ n, Dozes s' n := by
  intro n
  by_cases same : n = m
  · exact same ▸ here
  · obtain ⟨semaphore,worker⟩ := elsewhere n same
    exact (dozes n).same semaphore (by rw [worker])

theorem step_dozes (roles : Roles s) (dozes : ∀ m, Dozes s m) (changes : Changes s agent s' op events) : ∀ m, Dozes s' m := by
  cases changes with
  | idles | calls | sleeps | takes | leaves | asks | gets | checks | ends => exact dozes
  | posts place sent =>
    obtain ⟨_,_,_,_,_,wire,rfl,_⟩ := send_ok sent
    exact dozes
  | @completes m number rest waiting =>
    intro n
    have kept : Roles {s with
        scheduled := Function.update s.scheduled m rest
        sendBusy := Function.update s.sendBusy m false} := roles.same rfl rfl rfl rfl
    refine (dozes n).same ?_ ?_
    · exact congrFun (congrArg State.messageAvailable (sent_woken _ _).rest) n
    · rw [show (sendDone s m rest).worker = s.worker from packetSent_worker kept m]
  | @reads m sender mail rest empty arrives =>
    refine incoming_dozes ?_ m
    exact dozes
  | @dozes m place empty =>
    refine dozes_at (m := m) dozes ?_ (fun n other => by simp [State.setWorker,State.setAvailable,other])
    have queue := (dozes m).1
    simp [place] at queue
    simp [Dozes,State.setWorker,State.setAvailable,queue,empty]
  | @hears m place some_ =>
    refine dozes_at (m := m) dozes ?_ (fun n other => by simp [State.setWorker,State.setAvailable,other])
    have queue := (dozes m).1
    simp [place] at queue
    simp [Dozes,State.setWorker,State.setAvailable,queue]
  | @receives m after pktHdr buffer place read same =>
    cases read
    refine dozes_at (m := m) dozes ?_ (fun n other => by simp [State.setWorker,other])
    have queue := (dozes m).1
    simp [place] at queue
    simp [Dozes,State.setWorker,queue]
  | @puts m box pc list now op events place advanced =>
    refine dozes_at (m := m) dozes ?_ (fun n other => by simp [State.setWorker,State.setBox,other])
    have queue := (dozes m).1
    simp [place] at queue
    have awake : (if pc = .signalled then WorkerPc.testing else .putting box now) ≠ .asleep := by
      split <;> simp
    simp [Dozes,State.setWorker,State.setBox,queue,awake]

theorem runs_dozes (path : (program M T numBoxes).Runs history asleep s) : ∀ m, Dozes s m := by
  induction path with
  | initial => exact fun m => by simp [Dozes,program,initial,Semaphore.new]
  | step prior _ executed _ ih => exact step_dozes (runs_roles prior) ih (exec_changes executed)

-- Nothing of this machine goes on by itself: its threads have no step, or are outside, no
-- completion is due, and no socket has a packet for the poll.
structure Rests (numBoxes : Int) (machine : Machine (Agent M T) (LockId M) (ConditionId M) (State M T) (Event M)) (m : M) : Prop where
  worker : machine.Still (program M T numBoxes) (.worker m)
  client : ∀ t, machine.state.client m t = .outside ∨ machine.Still (program M T numBoxes) (.client m t)
  sendDone : machine.Still (program M T numBoxes) (.sendDone m)
  poll : ∀ sender after, machine.step (program M T numBoxes) (.exec (.poll m) (.arrives sender)) = some after →
    after.state = machine.state

section
variable {machine : Machine (Agent M T) (LockId M) (ConditionId M) (State M T) (Event M)} {m : M}

theorem Rests.scheduled (rests : Rests numBoxes machine m) (reached : Machine.Reached (program M T numBoxes) machine) :
    machine.state.scheduled m = [] := by
  obtain ⟨valid,coupled⟩ := Machine.reached_valid (disciplined M T numBoxes) reached
  obtain ⟨fault,failed⟩ := rests.sendDone.outside valid (Machine.free_outside coupled rfl) .finish
  cases scheduled : machine.state.scheduled m with
  | nil => rfl
  | cons number rest =>
    simp only [program,exec,scheduled] at failed
    cases failed

-- With no completion due, nobody waits for one.
theorem Rests.awake (rests : Rests numBoxes machine m) (reached : Machine.Reached (program M T numBoxes) machine) (t : T) :
    machine.state.client m t ≠ .asleep number success := by
  intro place
  have scheduled := rests.scheduled reached
  obtain ⟨stage,fits,_⟩ := runs_served (Machine.reached_runs (disciplined M T numBoxes) reached) m
  have here : (desk machine.state m).phase (.client m t) = .asleep number success := by simp [desk,phaseAt,place,phaseOf]
  have busy : (desk machine.state m).phase (.client m t) ≠ .away := by simp [here]
  cases fits with
  | idle away => exact busy (away _)
  | testing others place' | credited others place' | leaving others place' =>
    obtain rfl := Completion.Fits.unique others busy
    simp [here] at place'
  | asleep _ _ waiting => simp [desk,scheduled] at waiting

-- The code of a client that is inside a call goes on.
theorem Rests.client_able (rests : Rests numBoxes machine m) (reached : Machine.Reached (program M T numBoxes) machine)
    (inside : machine.state.client m t ≠ .outside) (going : machine.state.client m t ≠ .ended) (fault : Fault) :
    (program M T numBoxes).exec (.client m t) machine.state input ≠ .error fault := by
  intro failed
  have runs := Machine.reached_runs (disciplined M T numBoxes) reached
  rcases client_fails (runs_sound runs) (runs_flow runs) failed with outside | ⟨number,success,asleep⟩ | ended
  · exact inside outside
  · exact rests.awake reached t asleep
  · exact going ended

theorem worker_able (reached : Machine.Reached (program M T numBoxes) machine) (awake : machine.state.worker m ≠ .asleep)
    (fault : Fault) : (program M T numBoxes).exec (.worker m) machine.state input ≠ .error fault := by
  intro failed
  have runs := Machine.reached_runs (disciplined M T numBoxes) reached
  exact awake (delivery_fails (runs_sound runs) (runs_flow runs) failed)

omit [DecidableEq M] in
theorem WorkerPc.held_one (pc : WorkerPc M) : ∀ l ∈ pc.held m, ∀ l' ∈ pc.held m, l = l' := by
  cases pc with
  | putting box pc => simp [WorkerPc.held]
  | testing | asleep | receiving => simp [WorkerPc.held]

omit [DecidableEq M] in
theorem ClientPc.held_one (pc : ClientPc M) : ∀ l ∈ pc.held m, ∀ l' ∈ pc.held m, l = l' := by
  cases pc with
  | getting box pc => simp [ClientPc.held]
  | outside | sending | testing | asleep | leaving | got | ended => simp [ClientPc.held]

def LockId.machineOf : LockId M → M
  | .sendLock m | .messages m _ => m

omit [DecidableEq M] in
theorem WorkerPc.held_machine {pc : WorkerPc M} (holds : l ∈ pc.held m) : l.machineOf = m := by
  cases pc with
  | putting box pc =>
    obtain ⟨_,_,rfl⟩ := List.mem_map.mp holds
    rfl
  | testing | asleep | receiving => cases holds

omit [DecidableEq M] in
theorem ClientPc.held_machine {pc : ClientPc M} (holds : l ∈ pc.held m) : l.machineOf = m := by
  cases pc with
  | getting box pc =>
    obtain ⟨_,_,rfl⟩ := List.mem_map.mp holds
    rfl
  | sending | testing | asleep | leaving =>
    obtain rfl := List.mem_singleton.mp holds
    rfl
  | outside | got | ended => cases holds

theorem worker_going (roles : Roles s) : (program M T numBoxes).site s (.worker m) ≠ .ended := by
  cases place : s.worker m with
  | putting box pc =>
    rcases roles.worker m box pc place with ⟨mail,rfl,_⟩ | rfl | rfl <;>
      simp [program,place,WorkerPc.site,SynchList.Pc.site,Site.placed]
  | testing | asleep | receiving => simp [program,place,WorkerPc.site]

theorem client_going (roles : Roles s) (going : s.client m t ≠ .ended) :
    (program M T numBoxes).site s (.client m t) ≠ .ended := by
  cases place : s.client m t with
  | getting box pc =>
    rcases roles.client m t box pc place with rfl | rfl | ⟨mail,rfl⟩ <;>
      simp [program,place,ClientPc.site,SynchList.Pc.site,Site.placed]
  | ended => exact absurd place going
  | outside | sending | testing | asleep | leaving | got => simp [program,place,ClientPc.site]

-- No lock of the machine is owned.
theorem Rests.unowned (rests : Rests numBoxes machine m) (reached : Machine.Reached (program M T numBoxes) machine)
    (own : l.machineOf = m) : (machine.kernel.lock l).ownerThread = none := by
  obtain ⟨valid,coupled⟩ := Machine.reached_valid (disciplined M T numBoxes) reached
  have roles := runs_roles (Machine.reached_runs (disciplined M T numBoxes) reached)
  by_contra some_
  obtain ⟨agent,owned⟩ := Option.ne_none_iff_exists'.mp some_
  have holds := coupled.owns l agent owned
  cases agent with
  | poll | sendDone => cases holds
  | worker n =>
    obtain rfl : n = m := (WorkerPc.held_machine holds).symm.trans own
    have awake : machine.state.worker n ≠ .asleep := by
      intro asleep
      simp [program,asleep,WorkerPc.held] at holds
    exact rests.worker.unowned valid coupled (worker_going roles) .finish (worker_able reached awake)
      (WorkerPc.held_one _) l owned
  | client n t =>
    obtain rfl : n = m := (ClientPc.held_machine holds).symm.trans own
    have inside : machine.state.client n t ≠ .outside := by
      intro outside
      simp [program,outside,ClientPc.held] at holds
    have going : machine.state.client n t ≠ .ended := by
      intro ended
      simp [program,ended,ClientPc.held] at holds
    exact ((rests.client t).resolve_left inside).unowned valid coupled (client_going roles going) .finish
      (rests.client_able reached inside going) (ClientPc.held_one _) l owned

-- The worker is back in P.
theorem Rests.worker_asleep (rests : Rests numBoxes machine m) (reached : Machine.Reached (program M T numBoxes) machine) :
    machine.state.worker m = .asleep := by
  obtain ⟨valid,coupled⟩ := Machine.reached_valid (disciplined M T numBoxes) reached
  have roles := runs_roles (Machine.reached_runs (disciplined M T numBoxes) reached)
  by_contra awake
  obtain ⟨_,⟨l,entering,u,owned⟩ | sleeps⟩ :=
    rests.worker.blocked valid coupled (worker_going roles) .finish (worker_able reached awake)
  · have own := WorkerPc.held_machine (coupled.entering entering).2
    simp [rests.unowned reached own] at owned
  · obtain ⟨c,l,inside,_⟩ := Machine.asleep_place sleeps
    have placed := coupled.place (.worker m)
    simp only [inside,Machine.Placed] at placed
    cases place : machine.state.worker m with
    | putting box pc =>
      have site := placed.1
      rcases roles.worker m box pc place with ⟨mail,rfl,_⟩ | rfl | rfl <;>
        simp [program,place,WorkerPc.site,SynchList.Pc.site,Site.placed] at site
    | testing | asleep | receiving => simp [program,place,WorkerPc.site] at placed

-- A client is not inside a call, or sleeps in the Wait of a Remove.
theorem Rests.client_waits (rests : Rests numBoxes machine m) (reached : Machine.Reached (program M T numBoxes) machine) (t : T) :
    machine.state.client m t = .outside ∨ machine.state.client m t = .ended ∨
      ∃ box, machine.state.client m t = .getting box .waiting ∧ Machine.asleep machine.kernel (.client m t) = true := by
  obtain ⟨valid,coupled⟩ := Machine.reached_valid (disciplined M T numBoxes) reached
  have roles := runs_roles (Machine.reached_runs (disciplined M T numBoxes) reached)
  by_cases outside : machine.state.client m t = .outside
  · exact .inl outside
  by_cases ended : machine.state.client m t = .ended
  · exact .inr (.inl ended)
  refine .inr (.inr ?_)
  obtain ⟨_,⟨l,entering,u,owned⟩ | sleeps⟩ := ((rests.client t).resolve_left outside).blocked valid coupled
    (client_going roles ended) .finish (rests.client_able reached outside ended)
  · have own := ClientPc.held_machine (coupled.entering entering).2
    simp [rests.unowned reached own] at owned
  · obtain ⟨c,l,inside,_⟩ := Machine.asleep_place sleeps
    have placed := coupled.place (.client m t)
    simp only [inside,Machine.Placed] at placed
    cases place : machine.state.client m t with
    | getting box pc =>
      have site := placed.1
      rcases roles.client m t box pc place with rfl | rfl | ⟨mail,rfl⟩
      · simp [program,place,ClientPc.site,SynchList.Pc.site,Site.placed] at site
      · exact ⟨box,rfl,sleeps⟩
      · simp [program,place,ClientPc.site,SynchList.Pc.site,Site.placed] at site
    | outside | sending | testing | asleep | leaving | got | ended => simp [program,place,ClientPc.site] at placed

-- Nothing is left in the Network.
theorem Rests.inHdr (rests : Rests numBoxes machine m) (reached : Machine.Reached (program M T numBoxes) machine) :
    (machine.state.inHdr m).length = 0 := by
  have runs := Machine.reached_runs (disciplined M T numBoxes) reached
  have asleep := rests.worker_asleep reached
  obtain ⟨_,counts⟩ := (runs_flow runs).units m
  by_contra some_
  simp [asleep,(runs_dozes runs m).2 asleep,some_] at counts

theorem Rests.inInbox (rests : Rests numBoxes machine m) (reached : Machine.Reached (program M T numBoxes) machine) :
    inInbox machine.state m = [] := by
  simp [PostOffice.inInbox,rests.inHdr reached]

theorem Rests.inHand (rests : Rests numBoxes machine m) (reached : Machine.Reached (program M T numBoxes) machine) (box : Int) :
    inHand machine.state m box = [] := by
  simp [PostOffice.inHand,rests.worker_asleep reached]

-- Nor in the sockets: the poll would take it off.
theorem Rests.wire (rests : Rests numBoxes machine m) (reached : Machine.Reached (program M T numBoxes) machine) (sender : M) :
    machine.state.wire sender m = [] := by
  obtain ⟨valid,coupled⟩ := Machine.reached_valid (disciplined M T numBoxes) reached
  have runs := Machine.reached_runs (disciplined M T numBoxes) reached
  have outside := Machine.free_outside coupled (t := .poll m) rfl
  have ready := valid.waits.awake _ outside
  cases arrives : machine.state.wire sender m with
  | nil => rfl
  | cons mail rest =>
    cases executed : exec numBoxes (.poll m) machine.state (.arrives sender) with
    | error fault => exact absurd executed (poll_fails (runs_sound runs) (runs_flow runs) _)
    | ok result =>
      obtain ⟨after,op,events⟩ := result
      have stepped : machine.step (program M T numBoxes) (.exec (.poll m) (.arrives sender)) =
          some ⟨machine.kernel.call (.poll m) (callOf op),after,⟨.poll m,op,Machine.woken machine.kernel op,events⟩ :: machine.history⟩ := by
        simp only [Machine.step,show (program M T numBoxes).exec = exec numBoxes from rfl,executed]
        simp [Kernel.step,ready,outside]
      have same : after = machine.state := rests.poll sender _ stepped
      have taken : after.wire sender m = rest := by
        simp only [exec,checkPktAvail,rests.inHdr reached,arrives,ne_eq,not_true,if_false] at executed
        split at executed
        · cases executed
          rw [(incoming_woken _ m).rest]
          simp [State.setAvailable]
        · cases executed
      rw [same,arrives] at taken
      simp at taken

-- A receiver sleeps in front of an empty box only.
theorem Rests.box_empty [Fintype M] [Fintype T] (rests : Rests numBoxes machine m)
    (reached : Machine.Reached (program M T numBoxes) machine) (waits : machine.state.client m t = .getting box .waiting) :
    machine.state.boxes m box = [] := by
  have runs := Machine.reached_runs (disciplined M T numBoxes) reached
  have roles := runs_roles runs
  have worker := rests.worker_asleep reached
  obtain ⟨listed,listRuns,_⟩ := runs_mailbox runs m box
  have enough := (SynchList.runs_kept listRuns).enough
  have debtless : SynchList.owed (mailbox machine.state m box) = 0 := by
    refine Tally.tally_eq_zero.mpr fun agent => ?_
    cases agent with
    | poll | sendDone => rfl
    | worker n =>
      by_cases same : n = m
      · subst same
        simp [mailbox,inBox,worker,WorkerPc.inBox,SynchList.Pc.owes]
      · cases place : machine.state.worker n <;> simp [mailbox,inBox,place,same,WorkerPc.inBox,SynchList.Pc.owes]
    | client n u =>
      cases place : machine.state.client n u with
      | getting number pc =>
        rcases roles.client n u number pc place with rfl | rfl | ⟨mail,rfl⟩ <;>
          simp only [mailbox,inBox,place,ClientPc.inBox] <;> split <;> rfl
      | outside | sending | testing | asleep | leaving | got | ended => simp [mailbox,inBox,place,ClientPc.inBox,SynchList.Pc.owes]
  have sleeping : ∀ agent, (inBox machine.state m box agent).waits = true → Machine.asleep machine.kernel agent = true := by
    intro agent waits
    cases agent with
    | poll | sendDone => cases waits
    | worker n =>
      cases place : machine.state.worker n with
      | putting number pc =>
        rcases roles.worker n number pc place with ⟨mail,rfl,_⟩ | rfl | rfl <;>
          simp only [inBox,place,WorkerPc.inBox] at waits <;> split at waits <;> cases waits
      | testing | asleep | receiving => simp [inBox,place,WorkerPc.inBox,SynchList.Pc.waits] at waits
    | client n u =>
      by_cases same : n = m
      · subst same
        rcases rests.client_waits reached u with place | place | ⟨_,_,sleeps⟩
        · simp [inBox,place,ClientPc.inBox,SynchList.Pc.waits] at waits
        · simp [inBox,place,ClientPc.inBox,SynchList.Pc.waits] at waits
        · exact sleeps
      · cases place : machine.state.client n u <;> simp [inBox,place,same,ClientPc.inBox,SynchList.Pc.waits] at waits
  have here : SynchList.waiting (mailbox machine.state m box) (sleepsAt machine.state (Machine.asleep machine.kernel) m box)
      (.client m t) = some true := by
    have waits' : (inBox machine.state m box (.client m t)).waits = true := by
      simp [inBox,waits,ClientPc.inBox,SynchList.Pc.waits]
    simp [SynchList.waiting,mailbox,sleepsAt,waits',sleeping _ waits']
  have bound := enough.none_over (by
    intro agent
    by_cases waits' : (inBox machine.state m box agent).waits = true
    · simp [SynchList.waiting,mailbox,sleepsAt,waits',sleeping agent waits']
    · simp [SynchList.waiting,mailbox,waits']) here
  rw [debtless] at bound
  exact List.eq_nil_of_length_eq_zero (by simpa [mailbox] using bound)

-- On a network that lost nothing, all that was ever sent to a box was returned or lies there.
theorem Rests.delivered [Fintype M] [Fintype T] (rests : Rests numBoxes machine m)
    (path : Machine.ReachedBy (program M T numBoxes) Reliable machine) (source : M) (box : Int) :
    (passed (sentMail source) machine.history).filter (fun mail => mail.pktHdr.to_ = m ∧ mail.buffer.mailHdr.to_ = box) =
      (passed (returnedMail m box) machine.history ++ machine.state.boxes m box).filter fun mail => mail.pktHdr.from_ = source := by
  have reached := path.reached
  have runs := Machine.reached_runs (disciplined M T numBoxes) reached
  obtain ⟨taken,takes,accounted⟩ := received_accounted runs m box
  have nothing : taken = [] := by
    cases takes with
    | nobody => rfl
    | @somebody t mail place => rcases rests.client_waits reached t with there | there | ⟨_,there,_⟩ <;> simp [there] at place
  have whole := reached_whole path source m
  have polled := (runs_flow runs).taken m
  unfold Whole at whole
  unfold Taken at polled
  rw [nothing,rests.inHand reached,List.append_nil,List.append_nil] at accounted
  rw [rests.inInbox reached,List.append_nil] at polled
  rw [rests.wire reached,List.append_nil,polled] at whole
  have addressed := congrArg (List.filter fun mail => mail.buffer.mailHdr.to_ = box) whole
  rw [List.filter_filter,List.filter_filter] at addressed
  rw [← accounted,List.filter_filter]
  simpa [Bool.and_comm] using addressed

-- Where a machine has come to rest, no wakeup was lost: every thread is outside, or waits for
-- mail to a box that is empty; nothing is on its way to the boxes any more; and if the
-- network lost nothing, all that was ever given to Send for them was returned or lies there.
theorem rest_delivered [Fintype M] [Fintype T] (reached : Machine.Reached (program M T numBoxes) machine)
    (rests : Rests numBoxes machine m) :
    (∀ t, machine.state.client m t = .outside ∨ machine.state.client m t = .ended ∨
      ∃ box, machine.state.client m t = .getting box .waiting ∧ machine.state.boxes m box = []) ∧
    (∀ source, machine.state.wire source m = []) ∧ inInbox machine.state m = [] ∧ (∀ box, inHand machine.state m box = []) ∧
    (Machine.ReachedBy (program M T numBoxes) Reliable machine → ∀ source box,
      (passed (sentMail source) machine.history).filter (fun mail => mail.pktHdr.to_ = m ∧ mail.buffer.mailHdr.to_ = box) =
        (passed (returnedMail m box) machine.history ++ machine.state.boxes m box).filter (fun mail => mail.pktHdr.from_ = source) ∧
      ((sentCalls source machine.history).filter fun call => call.pktHdr.to_ = m ∧ call.mailHdr.to_ = box).map (Call.message source) =
        ((passed (returnedMail m box) machine.history ++ machine.state.boxes m box).filter fun mail =>
          mail.pktHdr.from_ = source).map messageOf) := by
  refine ⟨?_,rests.wire reached,rests.inInbox reached,rests.inHand reached,?_⟩
  · intro t
    refine (rests.client_waits reached t).imp_right (Or.imp_right ?_)
    rintro ⟨box,waits,_⟩
    exact ⟨box,waits,rests.box_empty reached waits⟩
  · intro path source box
    have sent := rests.delivered path source box
    have runs := Machine.reached_runs (disciplined M T numBoxes) reached
    exact ⟨sent,by rw [← sent,(runs_called runs).addressed source m box]⟩

end

-- A poll that finds no packet.
theorem poll_rests {machine after : Machine (Agent M T) (LockId M) (ConditionId M) (State M T) (Event M)}
    (empty : machine.state.wire sender m = [])
    (stepped : machine.step (program M T numBoxes) (.exec (.poll m) (.arrives sender)) = some after) :
    after.state = machine.state := by
  have idles : exec numBoxes (.poll m) machine.state (.arrives sender) = .ok (machine.state,.skip,[]) := by
    simp only [exec,checkPktAvail,empty,ite_self]
    rfl
  simp only [Machine.step,show (program M T numBoxes).exec = exec numBoxes from rfl,idles] at stepped
  obtain ⟨kernel,_,made⟩ := Option.bind_eq_some_iff.mp stepped
  cases made
  rfl

-- Receive returns, and the worker is back in P.
def received (m : M) : List (Choice (Agent M Unit) (Input M)) :=
  [.exec (.client m ()) .finish,.exec (.worker m) .finish]

theorem rest_delivered_one : ∃ machine,
    (Machine.initial (program (Fin 2) Unit 1)).follow (program (Fin 2) Unit 1) (oneMessage ++ received 1) = some machine ∧
    Rests 1 machine 1 ∧
    (∀ t, machine.state.client 1 t = .outside ∨ machine.state.client 1 t = .ended ∨
      ∃ box, machine.state.client 1 t = .getting box .waiting ∧ machine.state.boxes 1 box = []) ∧
    (∀ source, machine.state.wire source 1 = []) ∧ inInbox machine.state 1 = [] ∧ (∀ box, inHand machine.state 1 box = []) ∧
    (Machine.ReachedBy (program (Fin 2) Unit 1) Reliable machine → ∀ source box,
      (passed (sentMail source) machine.history).filter (fun mail => mail.pktHdr.to_ = 1 ∧ mail.buffer.mailHdr.to_ = box) =
        (passed (returnedMail 1 box) machine.history ++ machine.state.boxes 1 box).filter (fun mail => mail.pktHdr.from_ = source) ∧
      ((sentCalls source machine.history).filter fun call => call.pktHdr.to_ = 1 ∧ call.mailHdr.to_ = box).map (Call.message source) =
        ((passed (returnedMail 1 box) machine.history ++ machine.state.boxes 1 box).filter fun mail =>
          mail.pktHdr.from_ = source).map messageOf) := by
  have reached : ∀ machine, (Machine.initial (program (Fin 2) Unit 1)).follow (program (Fin 2) Unit 1) (oneMessage ++ received 1) =
      some machine → Machine.Reached (program (Fin 2) Unit 1) machine :=
    fun _ ran => Machine.follow_reached _ .initial ran
  have rests : ∀ machine, (Machine.initial (program (Fin 2) Unit 1)).follow (program (Fin 2) Unit 1) (oneMessage ++ received 1) =
      some machine → Rests 1 machine 1 := by
    intro machine ran
    have empty : machine.state.wire 0 1 = [] ∧ machine.state.wire 1 1 = [] := by
      cases ran
      exact ⟨rfl,rfl⟩
    refine ⟨?_,fun _ => .inl ?_,?_,fun sender _ => poll_rests ?_⟩
    · cases ran
      exact ⟨fun _ => rfl,rfl⟩
    · cases ran
      rfl
    · cases ran
      exact ⟨fun _ => rfl,rfl⟩
    · obtain rfl | rfl : sender = 0 ∨ sender = 1 := by omega
      · exact empty.1
      · exact empty.2
  have ran : ∃ machine, (Machine.initial (program (Fin 2) Unit 1)).follow (program (Fin 2) Unit 1) (oneMessage ++ received 1) =
      some machine := ⟨_,rfl⟩
  obtain ⟨machine,ran⟩ := ran
  exact ⟨machine,ran,rests machine ran,rest_delivered (reached machine ran) (rests machine ran)⟩

end
end Nachos.PostOffice
