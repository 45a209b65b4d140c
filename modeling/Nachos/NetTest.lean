import Nachos.PostOfficeRest
import Mathlib.Logic.Equiv.Basic

-- MailTest of nettest.cc on any number of machines, each with a post office of ten boxes,
-- that have all been started.
-- A machine that has halted does nothing more.
namespace Nachos.NetTest
open Monitor PostOffice

-- "Hello there!" and "Got it!", each with its null character.
def data : List UInt8 := [72,101,108,108,111,32,116,104,101,114,101,33,0]

def ack : List UInt8 := [71,111,116,32,105,116,33,0]

-- The call that a machine comes to next, or is in.
inductive Line (M : Type) where
  | sends
  | receives
  | acknowledges (inFrom : M) (inBox : Int)
  | awaits
  | halted
  deriving DecidableEq, Repr

-- outPktHdr.from and outPktHdr.length are set by Send only.
def Line.call (m farAddr : M) : Line M → Option (Input M)
  | .sends => some (.send ⟨farAddr,m,0⟩ ⟨0,1,data.length⟩ data)
  | .receives => some (.receive 0)
  | .acknowledges inFrom inBox => some (.send ⟨inFrom,m,0⟩ ⟨inBox,1,ack.length⟩ ack)
  | .awaits => some (.receive 1)
  | .halted => none

-- The last step of a call, with the Mail that is printed after it.
def Line.after : Line M → ClientPc M → Line M × List (Mail M)
  | .sends,.leaving _ success => (if success then .receives else .halted,[])
  | .receives,.got mail => (.acknowledges mail.pktHdr.from_ mail.buffer.mailHdr.from_,[mail])
  | .acknowledges _ _,.leaving _ success => (if success then .awaits else .halted,[])
  | .awaits,.got mail => (.halted,[mail])
  | line,_ => (line,[])

structure Net (M : Type) where
  machine : Machine (Agent M Unit) (LockId M) (ConditionId M) (PostOffice.State M Unit) (PostOffice.Event M)
  line : M → Line M
  printed : M → List (Mail M)

def machineOf : Agent M Unit → M
  | .worker m | .client m _ | .poll m | .sendDone m => m

def currentThread : Choice T I → T
  | .exec t _ | .resume t => t

section
variable {M : Type} [DecidableEq M]

def initial (M : Type) [DecidableEq M] : Net M := ⟨.initial (program M Unit 10),fun _ => .sends,fun _ => []⟩

-- No packet is lost, and sendto refuses one only if it is for a machine that has halted.
def allows (farAddr : M → M) (net : Net M) : Choice (Agent M Unit) (Input M) → Bool
  | .exec (.client m _) input => input ≠ .fate .lost && match net.machine.state.client m () with
    | .outside => (net.line m).call m (farAddr m) = some input
    | .sending pktHdr _ _ => input.toFate ≠ .refused || net.line pktHdr.to_ = .halted
    | _ => true
  | .exec _ input => input ≠ .fate .lost
  | .resume _ => true

def step (farAddr : M → M) (net : Net M) (choice : Choice (Agent M Unit) (Input M)) : Option (Net M) :=
  if net.line (machineOf (currentThread choice)) ≠ .halted ∧ allows farAddr net choice then do
    let machine ← net.machine.step (program M Unit 10) choice
    match choice with
    | .exec (.client m _) _ =>
      let (line,printed) := (net.line m).after (net.machine.state.client m ())
      some ⟨machine,Function.update net.line m line,Function.update net.printed m (net.printed m ++ printed)⟩
    | _ => some {net with machine}
  else none

def follow (farAddr : M → M) (net : Net M) : List (Choice (Agent M Unit) (Input M)) → Option (Net M)
  | [] => some net
  | choice :: later => do
    let after ← step farAddr net choice
    follow farAddr after later

inductive Reached (farAddr : M → M) : Net M → Prop where
  | initial : Reached farAddr (initial M)
  | step : Reached farAddr net → step farAddr net choice = some after → Reached farAddr after

theorem follow_reached (farAddr : M → M) {net after : Net M} {schedule : List (Choice (Agent M Unit) (Input M))} (reached : Reached farAddr net)
    (ran : follow farAddr net schedule = some after) : Reached farAddr after := by
  induction schedule generalizing net with
  | nil =>
    cases Option.some.inj ran
    exact reached
  | cons choice later ih =>
    obtain ⟨middle,stepped,rest⟩ := Option.bind_eq_some_iff.mp (show _ = some after from ran)
    exact ih (reached.step stepped) rest

-- Nothing goes on any more, except polls that find nothing.
structure Stuck (farAddr : M → M) (net : Net M) : Prop where
  polls : ∀ m sender after, step farAddr net (.exec (.poll m) (.arrives sender)) = some after →
    after.machine.state = net.machine.state
  rest : ∀ choice, (∀ m, currentThread choice ≠ .poll m) → step farAddr net choice = none

-- Every message of the test asks for the reply in box 1.
def message (from_ to_ : M) (box : Int) (text : List UInt8) : PostOffice.Message M :=
  ⟨⟨to_,from_,text.length + headerSize⟩,⟨box,1,text.length⟩,text⟩

-- A step of a client, as MailTest sees it.
inductive Moves (m : M) (input : Input M) : ClientPc M → ClientPc M → List (PostOffice.Event M) → Prop where
  | calls : input = .send pktHdr mailHdr text → Moves m input .outside
      (.sending {pktHdr with from_ := m, length := mailHdr.length + headerSize} mailHdr (text.take mailHdr.length))
      [.called m ⟨pktHdr,mailHdr,text⟩]
  | asks : input = .receive box → Moves m input .outside (.getting box .removing) []
  | ends : input = .finish → Moves m input .outside .ended []
  | posts : messageOf mail = ⟨pktHdr,mailHdr,text⟩ → (success = false → input.toFate = .refused) →
      Moves m input (.sending pktHdr mailHdr text) (.testing number success) [.sent m mail success]
  | sleeps : Moves m input (.testing number success) (.asleep number success) []
  | takes : Moves m input (.testing number success) (.leaving number success) []
  | leaves : Moves m input (.leaving number success) .outside [.sendReturned m number success]
  | gets : events.filterMap (sentMail m) = [] → (∀ number, events.filterMap (returnedMail m number) = []) →
      Moves m input (.getting box pc) (.getting box now) events
  | returns : Moves m input (.getting box pc) (.got mail) [.messages m box (.returned mail)]
  | checks : Moves m input (.got mail) .outside []

-- Only the step that releases the lock returns a Mail.
theorem tests_silent (m : M) (box : Int) {list : List (Mail M)} (place : pc = .removing ∨ pc = .waiting)
    (advanced : SynchList.advance list .finish pc = .ok (list',now,op,events)) (number : Int) :
    (events.map (PostOffice.Event.messages m box)).filterMap (returnedMail m number) = [] := by
  have loops : SynchList.advance list .finish .waiting = .ok (list',now,op,events) := by
    rcases place with rfl | rfl <;> exact advanced
  cases list with
  | nil =>
    cases loops
    rfl
  | cons mail rest =>
    simp only [SynchList.advance,List.isEmpty_cons] at loops
    cases loops
    simp [returnedMail,boxEvent]

theorem client_self (s : PostOffice.State M Unit) (m : M) (pc : ClientPc M) : (s.setClient m () pc).client m () = pc := by
  simp [State.setClient]

theorem client_moves {s s' : PostOffice.State M Unit} (framing : Framing s) (roles : Roles s)
    (executed : exec 10 (.client m ()) s input = .ok (s',op,events)) :
    Moves m input (s.client m ()) (s'.client m ()) events := by
  have ran : client 10 s m () input (s.client m ()) = .ok (s',op,events) := executed
  cases place : s.client m () with
  | outside =>
    rw [place] at ran
    cases input with
    | send pktHdr mailHdr text =>
      simp only [client] at ran
      split at ran
      · cases ran
      · split at ran <;> cases ran
        rw [client_self]
        exact .calls rfl
    | receive box =>
      simp only [client] at ran
      split at ran
      · obtain ⟨⟨after,now,op',events'⟩,removes,result⟩ := bind_ok ran
        obtain ⟨list,_,_,advanced,rfl,rfl,rfl⟩ := synchList_ok removes
        cases advanced
        cases result
        rw [client_self]
        exact .asks rfl
      · cases ran
    | finish =>
      cases ran
      rw [client_self]
      exact .ends rfl
    | fate | arrives => cases ran
  | sending pktHdr mailHdr text =>
    obtain ⟨after,mail,success,posted,rfl,rfl⟩ := posts_fate place executed
    have framed := framing.sending m () pktHdr mailHdr text place
    obtain ⟨_,_,_,_,made,_⟩ := send_ok posted
    rw [client_self]
    refine .posts ?_ ?_
    · subst made
      simp only [messageOf,framed.bcopy]
    · rintro rfl
      unfold send at posted
      split at posted
      · cases fate : input.toFate with
        | refused => rfl
        | lost | carried =>
          rw [fate] at posted
          cases posted
      · cases posted
  | testing number success =>
    rw [place] at ran
    simp only [client,Semaphore.p] at ran
    split at ran <;> cases ran
    · rw [client_self]
      exact .sleeps
    · rw [client_self]
      exact .takes
  | asleep =>
    rw [place] at ran
    cases ran
  | leaving number success =>
    rw [place] at ran
    cases ran
    rw [client_self]
    exact .leaves
  | getting box pc =>
    rw [place] at ran
    obtain ⟨⟨after,now,op',events'⟩,removes,result⟩ := bind_ok ran
    obtain ⟨list,_,_,advanced,rfl,rfl,rfl⟩ := synchList_ok removes
    cases result
    rw [client_self]
    rcases roles.client m () box pc place with rfl | rfl | ⟨mail,rfl⟩
    · exact .gets (listed_silent (fun _ _ _ => rfl) _ _ _) (tests_silent m box (.inl rfl) advanced)
    · exact .gets (listed_silent (fun _ _ _ => rfl) _ _ _) (tests_silent m box (.inr rfl) advanced)
    · cases advanced
      exact .returns
  | got mail =>
    rw [place] at ran
    simp only [client] at ran
    split at ran <;> cases ran
    rw [client_self]
    exact .checks
  | ended =>
    rw [place] at ran
    cases ran

-- In Send behind the post of the packet.
def Posted : ClientPc M → Prop
  | .testing _ success | .asleep _ success | .leaving _ success => success = true
  | _ => False

-- What a machine has sent, got out of its boxes 0 and 1, and printed, at each place of MailTest.
inductive Script (farAddr m : M) :
    Line M → ClientPc M → List (Mail M) → List (Mail M) → List (Mail M) → List (Mail M) → Prop where
  | calls : Script farAddr m .sends .outside [] [] [] []
  | sending : ⟨pktHdr,mailHdr,text⟩ = message m farAddr 0 data →
      Script farAddr m .sends (.sending pktHdr mailHdr text) [] [] [] []
  | sent : messageOf mail = message m farAddr 0 data → Posted pc → Script farAddr m .sends pc [mail] [] [] []
  | asks : messageOf mail = message m farAddr 0 data → Script farAddr m .receives .outside [mail] [] [] []
  | gets : messageOf mail = message m farAddr 0 data → Script farAddr m .receives (.getting 0 pc) [mail] [] [] []
  | got : messageOf mail = message m farAddr 0 data →
      Script farAddr m .receives (.got inMail) [mail] [inMail] [] []
  | replies : messageOf mail = message m farAddr 0 data →
      Script farAddr m (.acknowledges inMail.pktHdr.from_ inMail.buffer.mailHdr.from_) .outside [mail] [inMail] [] [inMail]
  | replying : messageOf mail = message m farAddr 0 data →
      ⟨pktHdr,mailHdr,text⟩ = message m inMail.pktHdr.from_ inMail.buffer.mailHdr.from_ ack →
      Script farAddr m (.acknowledges inMail.pktHdr.from_ inMail.buffer.mailHdr.from_) (.sending pktHdr mailHdr text)
        [mail] [inMail] [] [inMail]
  | replied : messageOf mail = message m farAddr 0 data →
      messageOf reply = message m inMail.pktHdr.from_ inMail.buffer.mailHdr.from_ ack → Posted pc →
      Script farAddr m (.acknowledges inMail.pktHdr.from_ inMail.buffer.mailHdr.from_) pc [mail,reply] [inMail] [] [inMail]
  | waits : messageOf mail = message m farAddr 0 data →
      messageOf reply = message m inMail.pktHdr.from_ inMail.buffer.mailHdr.from_ ack →
      Script farAddr m .awaits .outside [mail,reply] [inMail] [] [inMail]
  | awaits : messageOf mail = message m farAddr 0 data →
      messageOf reply = message m inMail.pktHdr.from_ inMail.buffer.mailHdr.from_ ack →
      Script farAddr m .awaits (.getting 1 pc) [mail,reply] [inMail] [] [inMail]
  | answered : messageOf mail = message m farAddr 0 data →
      messageOf reply = message m inMail.pktHdr.from_ inMail.buffer.mailHdr.from_ ack →
      Script farAddr m .awaits (.got answer) [mail,reply] [inMail] [answer] [inMail]
  | halted : messageOf mail = message m farAddr 0 data →
      messageOf reply = message m inMail.pktHdr.from_ inMail.buffer.mailHdr.from_ ack →
      Script farAddr m .halted .outside [mail,reply] [inMail] [answer] [inMail,answer]

-- Its own steps, on a network that takes its packets.
theorem script_moves {farAddr m : M} (script : Script farAddr m line pc sent first second printed) (moves : Moves m input pc now events)
    (called : pc = .outside → line.call m farAddr = some input)
    (carried : ∀ pktHdr mailHdr text, pc = .sending pktHdr mailHdr text → input.toFate ≠ .refused) :
    Script farAddr m (line.after pc).1 now (sent ++ events.filterMap (sentMail m))
      (first ++ events.filterMap (returnedMail m 0)) (second ++ events.filterMap (returnedMail m 1))
      (printed ++ (line.after pc).2) := by
  cases script with
  | calls =>
    cases Option.some.inj (called rfl)
    cases moves with
    | calls same =>
      cases same
      exact .sending rfl
    | asks same | ends same => cases same
  | sending first_ =>
    cases moves with
    | @posts mail _ _ _ success _ made refused =>
      have some_ : success = true := by
        by_contra not
        exact carried _ _ _ rfl (refused (by simpa using not))
      subst some_
      have sentNow : [PostOffice.Event.sent m mail true].filterMap (sentMail m) = [mail] := by simp [sentMail]
      rw [sentNow]
      exact .sent (made.trans first_) rfl
  | sent first_ posted =>
    cases moves with
    | sleeps | takes => exact .sent first_ posted
    | leaves =>
      obtain rfl := posted
      exact .asks first_
    | calls | asks | ends | posts | gets | returns | checks => cases posted
  | asks first_ =>
    cases Option.some.inj (called rfl)
    cases moves with
    | asks same =>
      cases same
      exact .gets first_
    | calls same | ends same => cases same
  | gets first_ =>
    cases moves with
    | gets none_ silent =>
      rw [none_,silent,silent]
      exact .gets first_
    | @returns _ _ mail =>
      have returned : [PostOffice.Event.messages m 0 (.returned mail)].filterMap (returnedMail m 0) = [mail] := by
        simp [returnedMail,boxEvent]
      have other : [PostOffice.Event.messages m 0 (.returned mail)].filterMap (returnedMail m 1) = [] := by
        simp [returnedMail,boxEvent]
      rw [returned,other]
      exact .got first_
  | got first_ =>
    cases moves with
    | checks => exact .replies first_
  | replies first_ =>
    cases Option.some.inj (called rfl)
    cases moves with
    | calls same =>
      cases same
      exact .replying first_ rfl
    | asks same | ends same => cases same
  | replying first_ second_ =>
    cases moves with
    | @posts mail _ _ _ success _ made refused =>
      have some_ : success = true := by
        by_contra not
        exact carried _ _ _ rfl (refused (by simpa using not))
      subst some_
      have sentNow : [PostOffice.Event.sent m mail true].filterMap (sentMail m) = [mail] := by simp [sentMail]
      rw [sentNow]
      exact .replied first_ (made.trans second_) rfl
  | replied first_ second_ posted =>
    cases moves with
    | sleeps | takes => exact .replied first_ second_ posted
    | leaves =>
      obtain rfl := posted
      exact .waits first_ second_
    | calls | asks | ends | posts | gets | returns | checks => cases posted
  | waits first_ second_ =>
    cases Option.some.inj (called rfl)
    cases moves with
    | asks same =>
      cases same
      exact .awaits first_ second_
    | calls same | ends same => cases same
  | awaits first_ second_ =>
    cases moves with
    | gets none_ silent =>
      rw [none_,silent,silent]
      exact .awaits first_ second_
    | @returns _ _ mail =>
      have returned : [PostOffice.Event.messages m 1 (.returned mail)].filterMap (returnedMail m 1) = [mail] := by
        simp [returnedMail,boxEvent]
      have other : [PostOffice.Event.messages m 1 (.returned mail)].filterMap (returnedMail m 0) = [] := by
        simp [returnedMail,boxEvent]
      rw [returned,other]
      exact .answered first_ second_
  | answered first_ second_ =>
    cases moves with
    | checks => exact .halted first_ second_
  | halted => cases called rfl

-- The steps of others: at most they wake the machine's client.
structure Apart (m : M) (s s' : PostOffice.State M Unit) (events : List (PostOffice.Event M)) : Prop where
  client : s'.client m () = s.client m () ∨
    ∃ number success, s.client m () = .asleep number success ∧ s'.client m () = .testing number success
  sent : events.filterMap (sentMail m) = []
  returned : ∀ box, events.filterMap (returnedMail m box) = []

theorem client_other (s : PostOffice.State M Unit) (pc : ClientPc M) (other : m ≠ n) : (s.setClient n () pc).client m () = s.client m () := by
  simp [State.setClient,other]

theorem other_apart {s s' : PostOffice.State M Unit} (other : agent ≠ .client m ()) (roles : Roles s) (changes : Changes s agent s' op events) :
    Apart m s s' events := by
  cases changes with
  | idles | dozes | hears => exact ⟨.inl rfl,rfl,fun _ => rfl⟩
  | receives _ read =>
    cases read
    exact ⟨.inl rfl,rfl,fun _ => rfl⟩
  | @puts n box pc list now op events place advanced =>
    refine ⟨.inl rfl,listed_silent (fun _ _ _ => rfl) _ _ _,fun number => ?_⟩
    rcases roles.worker n box pc place with ⟨mail,rfl,_⟩ | rfl | rfl <;> cases advanced <;> simp [returnedMail,boxEvent]
  | reads => exact ⟨(incoming_woken _ _).client m (),rfl,fun _ => rfl⟩
  | completes => exact ⟨(sent_woken _ _).client m (),rfl,fun _ => rfl⟩
  | @posts n _ pktHdr mailHdr text fate after mail success place sent =>
    have apart : n ≠ m := by rintro rfl; exact other rfl
    obtain ⟨_,_,_,_,_,wire,rfl,_⟩ := send_ok sent
    exact ⟨.inl (client_other _ _ apart.symm),by simp [sentMail,apart],fun _ => rfl⟩
  | @gets n _ box pc list now op events next place advanced got next_ =>
    have apart : n ≠ m := by rintro rfl; exact other rfl
    refine ⟨.inl (client_other _ _ apart.symm),listed_silent (fun _ _ _ => rfl) _ _ _,fun number => ?_⟩
    have elsewhere : (events.map (PostOffice.Event.messages n box)).filterMap (boxEvent m number) = [] :=
      boxEvent_other (fun same => apart same.1) events
    simp only [List.filterMap_eq_nil_iff] at elsewhere ⊢
    intro event member
    simp [returnedMail,elsewhere event member]
  | @calls n | @sleeps n | @takes n | @leaves n | @asks n | @checks n | @ends n =>
    have apart : n ≠ m := by rintro rfl; exact other rfl
    exact ⟨.inl (client_other _ _ apart.symm),rfl,fun _ => rfl⟩

theorem script_apart {farAddr m : M} {s s' : PostOffice.State M Unit} (apart : Apart m s s' events)
    (script : Script farAddr m line (s.client m ()) sent first second printed) :
    Script farAddr m line (s'.client m ()) sent first second printed := by
  rcases apart.client with same | ⟨number,success,asleep,woken⟩
  · rw [same]
    exact script
  · rw [asleep] at script
    rw [woken]
    cases script with
    | sent first_ posted => exact .sent first_ posted
    | replied first_ second_ posted => exact .replied first_ second_ posted

-- Every machine keeps to its script.
def Scripts (far : Equiv.Perm M) (net : Net M) : Prop :=
  ∀ m, Script (far m) m (net.line m) (net.machine.state.client m ()) (passed (sentMail m) net.machine.history)
    (passed (returnedMail m 0) net.machine.history) (passed (returnedMail m 1) net.machine.history) (net.printed m)

-- What a step can do.
inductive Steps (farAddr : M → M) (net : Net M) : Net M → Prop where
  | client : allows farAddr net (.exec (.client m ()) input) = true →
      net.machine.step (program M Unit 10) (.exec (.client m ()) input) = some machine →
      Steps farAddr net ⟨machine,Function.update net.line m ((net.line m).after (net.machine.state.client m ())).1,
        Function.update net.printed m (net.printed m ++ ((net.line m).after (net.machine.state.client m ())).2)⟩
  | other : (∀ m, agent ≠ .client m ()) → input ≠ .fate .lost →
      net.machine.step (program M Unit 10) (.exec agent input) = some machine → Steps farAddr net {net with machine}
  | resume : net.machine.step (program M Unit 10) (.resume agent) = some machine → Steps farAddr net {net with machine}

theorem step_sound {farAddr : M → M} {net after : Net M} (stepped : step farAddr net choice = some after) : Steps farAddr net after := by
  unfold step at stepped
  split at stepped
  · rename_i goes
    obtain ⟨machine,ran,result⟩ := Option.bind_eq_some_iff.mp stepped
    cases choice with
    | resume agent =>
      cases result
      exact .resume ran
    | exec agent input =>
      cases agent with
      | client m u =>
        cases result
        exact .client goes.2 ran
      | worker | poll | sendDone =>
        cases result
        exact .other (by simp) (by simpa [allows] using goes.2) ran
  · cases stepped

theorem reached_reliable {farAddr : M → M} {net : Net M} (reached : Reached farAddr net) :
    Machine.ReachedBy (program M Unit 10) Reliable net.machine := by
  induction reached with
  | initial => exact .initial
  | step _ stepped ih =>
    cases step_sound stepped with
    | client goes ran =>
      refine .exec ih ?_ ran
      simp only [allows,Bool.and_eq_true,decide_eq_true_eq] at goes
      exact goes.1
    | other _ kept ran => exact .exec ih kept ran
    | resume ran => exact .resume ih ran

section
omit [DecidableEq M]

theorem script_sent {farAddr m : M} (script : Script farAddr m line pc sent first second printed) (member : mail ∈ sent) :
    messageOf mail = message m farAddr 0 data ∨
      ∃ inMail ∈ first, messageOf mail = message m inMail.pktHdr.from_ inMail.buffer.mailHdr.from_ ack := by
  cases script with
  | calls | sending => cases member
  | sent first_ | asks first_ | gets first_ | got first_ | replies first_ | replying first_ =>
    obtain rfl := List.mem_singleton.mp member
    exact .inl first_
  | replied first_ second_ | waits first_ second_ | awaits first_ second_ | answered first_ second_ | halted first_ second_ =>
    rcases List.mem_pair.mp member with rfl | rfl
    · exact .inl first_
    · exact .inr ⟨_,List.mem_singleton.mpr rfl,second_⟩

theorem asks_one {farAddr m : M} (script : Script farAddr m line pc sent first second printed) (member : mail ∈ sent) :
    mail.buffer.mailHdr.from_ = 1 := by
  rcases script_sent script member with same | ⟨_,_,same⟩
  · exact congrArg (fun message => message.mailHdr.from_) same
  · exact congrArg (fun message => message.mailHdr.from_) same

theorem script_halted {farAddr m : M} (script : Script farAddr m .halted pc sent first second printed) :
    ∃ inMail answer, first = [inMail] ∧ second = [answer] ∧ printed = [inMail,answer] := by
  cases script with
  | halted => exact ⟨_,_,rfl,rfl,rfl⟩

theorem script_sending {farAddr m : M} (script : Script farAddr m line (.sending pktHdr mailHdr text) sent first second printed) :
    (sent = [] ∧ pktHdr.to_ = farAddr) ∨ ∃ mail inMail, sent = [mail] ∧ first = [inMail] ∧
      messageOf mail = message m farAddr 0 data ∧ pktHdr.to_ = inMail.pktHdr.from_ := by
  cases script with
  | sending made => exact .inl ⟨rfl,congrArg (fun message => message.pktHdr.to_) made⟩
  | replying first_ made => exact .inr ⟨_,_,rfl,rfl,first_,congrArg (fun message => message.pktHdr.to_) made⟩
  | sent _ posted | replied _ _ posted => cases posted

theorem script_printed {farAddr m : M} (script : Script farAddr m line pc sent first second printed) :
    printed = [] ∨ (∃ inMail ∈ first, printed = [inMail]) ∨ ∃ inMail ∈ first, ∃ answer ∈ second, printed = [inMail,answer] := by
  cases script with
  | calls | sending | sent | asks | gets | got => exact .inl rfl
  | replies | replying | replied | waits | awaits | answered => exact .inr (.inl ⟨_,List.mem_singleton.mpr rfl,rfl⟩)
  | halted => exact .inr (.inr ⟨_,List.mem_singleton.mpr rfl,_,List.mem_singleton.mpr rfl,rfl⟩)

theorem script_calls {farAddr m : M} (script : Script farAddr m line .outside sent first second printed) (going : line ≠ .halted) :
    line = .sends ∨ line = .receives ∨ line = .awaits ∨
      ∃ inMail ∈ first, line = .acknowledges inMail.pktHdr.from_ inMail.buffer.mailHdr.from_ := by
  cases script with
  | calls => exact .inl rfl
  | asks => exact .inr (.inl rfl)
  | waits => exact .inr (.inr (.inl rfl))
  | replies => exact .inr (.inr (.inr ⟨_,List.mem_singleton.mpr rfl,rfl⟩))
  | halted => exact absurd rfl going
  | sent _ posted | replied _ _ posted => cases posted

theorem script_ended {farAddr m : M} (script : Script farAddr m line .ended sent first second printed) : False := by
  cases script with
  | sent _ posted | replied _ _ posted => cases posted

theorem script_waits {farAddr m : M} (script : Script farAddr m line (.getting box pc) sent first second printed) :
    (line = .receives ∧ box = 0 ∧ first = []) ∨ (line = .awaits ∧ box = 1 ∧ second = []) := by
  cases script with
  | gets => exact .inl ⟨rfl,rfl,rfl⟩
  | awaits => exact .inr ⟨rfl,rfl,rfl⟩
  | sent _ posted | replied _ _ posted => cases posted

theorem script_hello {farAddr m : M} (script : Script farAddr m line pc sent first second printed) (past : line ≠ .sends) :
    ∃ mail ∈ sent, messageOf mail = message m farAddr 0 data := by
  cases script with
  | calls | sending | sent => exact absurd rfl past
  | asks first_ | gets first_ | got first_ | replies first_ | replying first_ | replied first_ | waits first_ | awaits first_
  | answered first_ | halted first_ => exact ⟨_,List.mem_cons_self,first_⟩

theorem script_reply {farAddr m : M} (script : Script farAddr m line pc sent first second printed) (past : line = .awaits ∨ line = .halted) :
    ∃ mail ∈ sent, ∃ inMail ∈ first, messageOf mail = message m inMail.pktHdr.from_ inMail.buffer.mailHdr.from_ ack := by
  cases script with
  | waits _ second_ | awaits _ second_ | answered _ second_ | halted _ second_ =>
    exact ⟨_,List.mem_cons_of_mem _ List.mem_cons_self,_,List.mem_singleton.mpr rfl,second_⟩
  | calls | sending | sent | asks | gets | got | replies | replying | replied => rcases past with wrong | wrong <;> cases wrong

end

section
variable {far : Equiv.Perm M} {net : Net M}

theorem runs_of (reached : Reached far net) :
    (program M Unit 10).Runs net.machine.history (Machine.asleep net.machine.kernel) net.machine.state :=
  Machine.reached_runs (disciplined M Unit 10) (reached_reliable reached).reached

theorem exec_entry {machine after : Machine (Agent M Unit) (LockId M) (ConditionId M) (PostOffice.State M Unit) (PostOffice.Event M)}
    (ran : machine.step (program M Unit 10) (.exec agent input) = some after) :
    ∃ op woken events, exec 10 agent machine.state input = .ok (after.state,op,events) ∧
      after.history = ⟨agent,op,woken,events⟩ :: machine.history := by
  cases executed : exec 10 agent machine.state input with
  | error fault => simp [Machine.step,show (program M Unit 10).exec = exec 10 from rfl,executed] at ran
  | ok result =>
    obtain ⟨state,op,events⟩ := result
    simp only [Machine.step,show (program M Unit 10).exec = exec 10 from rfl,executed] at ran
    obtain ⟨kernel,_,made⟩ := Option.bind_eq_some_iff.mp ran
    cases made
    exact ⟨op,_,events,rfl,rfl⟩

-- A step of a machine or an interrupt leaves the other scripts where they are.
theorem apart_scripts {machine after : Machine (Agent M Unit) (LockId M) (ConditionId M) (PostOffice.State M Unit) (PostOffice.Event M)}
    (script : Script farAddr m line (machine.state.client m ()) (passed (sentMail m) machine.history)
      (passed (returnedMail m 0) machine.history) (passed (returnedMail m 1) machine.history) printed)
    (ran : machine.step (program M Unit 10) (.exec agent input) = some after) (roles : Roles machine.state)
    (other : agent ≠ .client m ()) :
    Script farAddr m line (after.state.client m ()) (passed (sentMail m) after.history)
      (passed (returnedMail m 0) after.history) (passed (returnedMail m 1) after.history) printed := by
  obtain ⟨op,woken,events,executed,history⟩ := exec_entry ran
  have apart := other_apart other roles (exec_changes executed)
  have moved := script_apart apart script
  rw [history,passed_cons,passed_cons,passed_cons,apart.sent,apart.returned,apart.returned,List.append_nil,List.append_nil,
    List.append_nil]
  exact moved

theorem exec_goes {machine : Machine (Agent M Unit) (LockId M) (ConditionId M) (PostOffice.State M Unit) (PostOffice.Event M)}
    (reached : Machine.Reached (program M Unit 10) machine) (free : (program M Unit 10).site machine.state agent = .free)
    (executed : exec 10 agent machine.state input = .ok result) :
    machine.step (program M Unit 10) (.exec agent input) ≠ none := by
  obtain ⟨valid,coupled⟩ := Machine.reached_valid (disciplined M Unit 10) reached
  have inside := Machine.free_outside coupled free
  have ready := valid.waits.awake agent inside
  obtain ⟨state,op,events⟩ := result
  simp only [Machine.step,show (program M Unit 10).exec = exec 10 from rfl,executed]
  simp [Kernel.step,ready,inside]

-- Inside a call only the fate of the packet is left open, and not whether there is a step.
theorem inside_still {machine : Machine (Agent M Unit) (LockId M) (ConditionId M) (PostOffice.State M Unit) (PostOffice.Event M)}
    (reached : Machine.Reached (program M Unit 10) machine) (inside : machine.state.client m () ≠ .outside)
    (still : machine.step (program M Unit 10) (.exec (.client m ()) .finish) = none) (input : Input M) :
    machine.step (program M Unit 10) (.exec (.client m ()) input) = none := by
  have runs := Machine.reached_runs (disciplined M Unit 10) reached
  by_cases sending : ∃ pktHdr mailHdr text, machine.state.client m () = .sending pktHdr mailHdr text
  · obtain ⟨pktHdr,mailHdr,text,place⟩ := sending
    have skips : ∀ input, ∃ state events, exec 10 (.client m ()) machine.state input = .ok (state,.skip,events) := by
      intro input
      cases posted : send machine.state m pktHdr ⟨mailHdr,text,0⟩ input.toFate with
      | error fault => exact (send_fails (runs_sound runs) (runs_flow runs) place posted).elim
      | ok result => exact ⟨_,_,by simp only [exec,place,client,posted]; rfl⟩
    obtain ⟨state,events,executed⟩ := skips .finish
    obtain ⟨state',events',executed'⟩ := skips input
    simp only [Machine.step,show (program M Unit 10).exec = exec 10 from rfl,executed,executed'] at still ⊢
    simpa using still
  · have same : exec 10 (.client m ()) machine.state input = exec 10 (.client m ()) machine.state .finish := by
      cases place : machine.state.client m () with
      | outside => exact absurd place inside
      | sending => exact absurd ⟨_,_,_,place⟩ sending
      | testing | asleep | leaving | getting | got | ended => simp only [exec,place,client]
    simp only [Machine.step,show (program M Unit 10).exec = exec 10 from rfl,same] at still ⊢
    exact still

theorem step_none {farAddr : M → M} {net : Net M} {choice : Choice (Agent M Unit) (Input M)} (still : step farAddr net choice = none)
    (going : net.line (machineOf (currentThread choice)) ≠ .halted) (goes : allows farAddr net choice = true) :
    net.machine.step (program M Unit 10) choice = none := by
  cases ran : net.machine.step (program M Unit 10) choice with
  | none => rfl
  | some machine =>
    unfold step at still
    rw [if_pos ⟨going,goes⟩,ran] at still
    cases choice with
    | resume => cases still
    | exec agent input => cases agent <;> cases still

variable [Fintype M]

-- What comes out of a box was sent there.
theorem returned_sent (reached : Reached far net) (member : mail ∈ passed (returnedMail m box) net.machine.history) :
    mail ∈ passed (sentMail mail.pktHdr.from_) net.machine.history ∧ mail.pktHdr.to_ = m ∧ mail.buffer.mailHdr.to_ = box := by
  have runs := runs_of reached
  have flow := runs_flow runs
  obtain ⟨received,number⟩ := List.mem_filter.mp ((returned_received runs m box).subset member)
  have polled := (flow.received m).subset received
  have named : mail ∈ (passed (polledMail m) net.machine.history).filter (fun other => other.pktHdr.from_ = mail.pktHdr.from_) :=
    List.mem_filter.mpr ⟨polled,by simp⟩
  obtain ⟨sent,to_⟩ := List.mem_filter.mp ((flow.carried mail.pktHdr.from_ m).subset (List.mem_append_left _ named))
  exact ⟨sent,by simpa using to_,by simpa using number⟩

-- Box 0 gives the first message of the machine that has this one as its farAddr.
theorem first_hello (scripts : Scripts far net) (reached : Reached far net) (member : mail ∈ passed (returnedMail m 0) net.machine.history) :
    messageOf mail = message (far.symm m) m 0 data ∧ mail ∈ passed (sentMail (far.symm m)) net.machine.history := by
  obtain ⟨sent,to_,box⟩ := returned_sent reached member
  rcases script_sent (scripts _) sent with same | ⟨inMail,before,same⟩
  · have target : far mail.pktHdr.from_ = m := (congrArg (fun message => message.pktHdr.to_) same).symm.trans to_
    have source : mail.pktHdr.from_ = far.symm m := by rw [← target,Equiv.symm_apply_apply]
    rw [target] at same
    rw [← source]
    exact ⟨same,sent⟩
  · have one := asks_one (scripts _) (returned_sent reached before).1
    have number : mail.buffer.mailHdr.to_ = inMail.buffer.mailHdr.from_ := congrArg (fun message => message.mailHdr.to_) same
    rw [box,one] at number
    cases number

-- Box 1 gives the answer of its farAddr.
theorem second_reply (scripts : Scripts far net) (reached : Reached far net) (member : mail ∈ passed (returnedMail m 1) net.machine.history) :
    messageOf mail = message (far m) m 1 ack ∧ mail ∈ passed (sentMail (far m)) net.machine.history := by
  obtain ⟨sent,to_,box⟩ := returned_sent reached member
  rcases script_sent (scripts _) sent with same | ⟨inMail,before,same⟩
  · have number : mail.buffer.mailHdr.to_ = 0 := congrArg (fun message => message.mailHdr.to_) same
    rw [box] at number
    cases number
  · have one := asks_one (scripts _) (returned_sent reached before).1
    have hello := (first_hello scripts reached before).1
    have target : inMail.pktHdr.from_ = m := (congrArg (fun message => message.pktHdr.to_) same).symm.trans to_
    have asker : inMail.pktHdr.from_ = far.symm mail.pktHdr.from_ := congrArg (fun message => message.pktHdr.from_) hello
    have source : mail.pktHdr.from_ = far m := by rw [← target,asker,Equiv.apply_symm_apply]
    rw [target,one] at same
    rw [← source]
    exact ⟨same,sent⟩

-- Nothing is sent to a machine that has halted: it has waited for all that is for it.
theorem sending_going (scripts : Scripts far net) (reached : Reached far net)
    (place : net.machine.state.client m () = .sending pktHdr mailHdr text) : net.line pktHdr.to_ ≠ .halted := by
  intro stopped
  have script := scripts m
  have there := scripts pktHdr.to_
  rw [place] at script
  rw [stopped] at there
  obtain ⟨inMail,answer,first,second,_⟩ := script_halted there
  rcases script_sending script with ⟨none_,target⟩ | ⟨mail,asker,one,got,hello,target⟩
  · have member := (first_hello scripts reached (first ▸ List.mem_singleton.mpr rfl)).2
    rw [target,Equiv.symm_apply_apply,none_] at member
    cases member
  · have named : asker.pktHdr.from_ = far.symm m :=
      congrArg (fun message => message.pktHdr.from_) (first_hello scripts reached (got ▸ List.mem_singleton.mpr rfl)).1
    obtain ⟨reply,member⟩ := second_reply scripts reached (second ▸ List.mem_singleton.mpr rfl)
    rw [target,named,Equiv.apply_symm_apply,one] at member
    obtain rfl := List.mem_singleton.mp member
    have texts : data = ack := (congrArg PostOffice.Message.data hello).symm.trans (congrArg PostOffice.Message.data reply)
    cases texts

theorem reached_scripts (reached : Reached far net) : Scripts far net := by
  induction reached with
  | initial => exact fun m => .calls
  | @step net choice after prior stepped scripts =>
    have runs := runs_of prior
    have roles := runs_roles runs
    cases step_sound stepped with
    | resume ran =>
      obtain ⟨kernel,_,made⟩ := Option.bind_eq_some_iff.mp (show _ = some _ from ran)
      cases made
      exact scripts
    | other apart kept ran => exact fun m => apart_scripts (scripts m) ran roles (apart m)
    | @client m input machine goes ran =>
      intro n
      by_cases same : n = m
      · subst same
        obtain ⟨op,woken,events,executed,history⟩ := exec_entry ran
        have moves := client_moves (runs_flow runs).framing roles executed
        simp only [allows,Bool.and_eq_true,decide_eq_true_eq] at goes
        have moved := script_moves (scripts n) moves ?_ ?_
        · simpa only [Function.update_self,history,passed_cons] using moved
        · intro outside
          simpa [outside] using goes.2
        · intro pktHdr mailHdr text place refused
          have going := sending_going scripts prior place
          simp [place,refused,going] at goes
      · simp only [Function.update_of_ne same]
        exact apart_scripts (scripts n) ran roles (by simp [Ne.symm same])

-- A machine that has not halted comes to a call it can make.
theorem outside_calls (scripts : Scripts far net) (reached : Reached far net) (going : net.line m ≠ .halted)
    (outside : net.machine.state.client m () = .outside) :
    ∃ input result, (net.line m).call m (far m) = some input ∧ exec 10 (.client m ()) net.machine.state input = .ok result := by
  have script := scripts m
  rw [outside] at script
  simp only [exec,outside]
  rcases script_calls script going with line | line | line | ⟨inMail,member,line⟩
  · rw [line]
    exact ⟨_,_,rfl,rfl⟩
  · rw [line]
    exact ⟨_,_,rfl,rfl⟩
  · rw [line]
    exact ⟨_,_,rfl,rfl⟩
  · rw [line,asks_one (scripts _) (returned_sent reached member).1]
    exact ⟨_,_,rfl,rfl⟩

-- Where nothing goes on any more, a machine that has not halted is at rest inside a call.
theorem stuck_rests (scripts : Scripts far net) (reached : Reached far net) (stuck : Stuck far net) (going : net.line m ≠ .halted) :
    net.machine.state.client m () ≠ .outside ∧ Rests 10 net.machine m := by
  have machine := (reached_reliable reached).reached
  have inside : net.machine.state.client m () ≠ .outside := by
    intro outside
    obtain ⟨input,result,call,executed⟩ := outside_calls scripts reached going outside
    have free : (program M Unit 10).site net.machine.state (.client m ()) = .free := by simp [program,outside,ClientPc.site]
    refine exec_goes machine free executed (step_none (stuck.rest _ (by simp [currentThread])) going ?_)
    have kept : input ≠ .fate .lost := by
      rintro rfl
      cases line : net.line m <;> simp [line,Line.call] at call
    simp [allows,outside,call,kept]
  have still : ∀ agent, (∀ n, agent ≠ .poll n) → machineOf agent = m → net.machine.step (program M Unit 10) (.resume agent) = none := by
    rintro agent other rfl
    exact step_none (stuck.rest _ other) going rfl
  refine ⟨inside,?_,fun _ => .inr ⟨?_,?_⟩,?_,?_⟩
  · have worker := step_none (stuck.rest (.exec (.worker m) .finish) (by simp [currentThread])) going (by simp [allows])
    exact ⟨fun _ => worker,still _ (by simp) rfl⟩
  · refine inside_still machine inside (step_none (stuck.rest _ (by simp [currentThread])) going ?_)
    cases place : net.machine.state.client m () with
    | outside => exact absurd place inside
    | sending | testing | asleep | leaving | getting | got | ended => simp [allows,place,Input.toFate]
  · exact still _ (by simp) rfl
  · have sendDone := step_none (stuck.rest (.exec (.sendDone m) .finish) (by simp [currentThread])) going (by simp [allows])
    exact ⟨fun _ => sendDone,still _ (by simp) rfl⟩
  · intro sender after ran
    refine stuck.polls m sender {net with machine := after} ?_
    simp [step,machineOf,currentThread,going,allows,ran]

-- A box in front of which a machine at rest sleeps has been sent nothing.
theorem waits_unsent (reached : Reached far net) (rests : Rests 10 net.machine m)
    (place : net.machine.state.client m () = .getting box .waiting) (none_ : passed (returnedMail m box) net.machine.history = [])
    (sent : mail ∈ passed (sentMail source) net.machine.history) : ¬(mail.pktHdr.to_ = m ∧ mail.buffer.mailHdr.to_ = box) := by
  intro here
  have reliable := reached_reliable reached
  have delivered := rests.delivered reliable source box
  rw [none_,rests.box_empty reliable.reached place] at delivered
  simp only [List.nil_append,List.filter_nil,List.filter_eq_nil_iff] at delivered
  exact delivered mail sent (by simpa using here)

-- The machines stop only when all of them have halted.
theorem stuck_halted (scripts : Scripts far net) (reached : Reached far net) (stuck : Stuck far net) (m : M) : net.line m = .halted := by
  have places : ∀ m, net.line m ≠ .halted → Rests 10 net.machine m ∧ ∃ box, net.machine.state.client m () = .getting box .waiting := by
    intro m going
    obtain ⟨inside,rests⟩ := stuck_rests scripts reached stuck going
    refine ⟨rests,?_⟩
    rcases rests.client_waits (reached_reliable reached).reached () with outside | ended | ⟨box,place,_⟩
    · exact absurd outside inside
    · have script := scripts m
      rw [ended] at script
      exact (script_ended script).elim
    · exact ⟨box,place⟩
  have lines : ∀ m, net.line m ≠ .halted → (net.line m = .receives ∧ passed (returnedMail m 0) net.machine.history = [] ∧
      net.machine.state.client m () = .getting 0 .waiting) ∨ (net.line m = .awaits ∧
      passed (returnedMail m 1) net.machine.history = [] ∧ net.machine.state.client m () = .getting 1 .waiting) := by
    intro m going
    obtain ⟨_,box,place⟩ := places m going
    have script := scripts m
    rw [place] at script
    rcases script_waits script with ⟨line,rfl,none_⟩ | ⟨line,rfl,none_⟩
    · exact .inl ⟨line,none_,place⟩
    · exact .inr ⟨line,none_,place⟩
  -- Each first message has been sent, so nobody waits for one.
  have received : ∀ m, net.line m = .awaits ∨ net.line m = .halted := by
    intro m
    by_cases going : net.line m = .halted
    · exact .inr going
    rcases lines m going with ⟨_,none_,place⟩ | ⟨line,_⟩
    · have past : net.line (far.symm m) ≠ .sends := by
        intro early
        have started : net.line (far.symm m) ≠ .halted := by simp [early]
        rcases lines _ started with ⟨line,_⟩ | ⟨line,_⟩ <;> simp [early] at line
      obtain ⟨mail,sent,hello⟩ := script_hello (scripts (far.symm m)) past
      rw [Equiv.apply_symm_apply] at hello
      refine absurd ⟨?_,?_⟩ (waits_unsent reached (places m going).1 place none_ sent)
      · exact congrArg (fun message => message.pktHdr.to_) hello
      · exact congrArg (fun message => message.mailHdr.to_) hello
    · exact .inl line
  -- Then each answer has, too.
  by_contra going
  rcases lines m going with ⟨line,_⟩ | ⟨_,none_,place⟩
  · rcases received m with other | other <;> simp [line] at other
  · obtain ⟨reply,sent,inMail,got,same⟩ := script_reply (scripts (far m)) (received (far m))
    have hello := (first_hello scripts reached got).1
    have asker : inMail.pktHdr.from_ = m := (congrArg (fun message => message.pktHdr.from_) hello).trans (far.symm_apply_apply m)
    rw [asker,asks_one (scripts _) (returned_sent reached got).1] at same
    refine absurd ⟨?_,?_⟩ (waits_unsent reached (places m going).1 place none_ sent)
    · exact congrArg (fun message => message.pktHdr.to_) same
    · exact congrArg (fun message => message.mailHdr.to_) same

-- On a network that loses nothing, with any machines each of which is the farAddr of one: every
-- machine prints the message of the one that addresses it, and then the answer of the one it
-- addresses, no packet is sent to a machine that has halted, and all of them halt.
theorem mail_test_completes (reached : Reached far net) :
    (∀ m, (net.printed m).map messageOf <+: [message (far.symm m) m 0 data,message (far m) m 1 ack]) ∧
    (∀ m, net.line m = .halted → (net.printed m).map messageOf = [message (far.symm m) m 0 data,message (far m) m 1 ack]) ∧
    (∀ m pktHdr mailHdr text, net.machine.state.client m () = .sending pktHdr mailHdr text → net.line pktHdr.to_ ≠ .halted) ∧
    (Stuck far net → ∀ m, net.line m = .halted) := by
  have scripts := reached_scripts reached
  refine ⟨?_,?_,?_,stuck_halted scripts reached⟩
  · intro m
    rcases script_printed (scripts m) with none_ | ⟨inMail,first,one⟩ | ⟨inMail,first,answer,second,both⟩
    · rw [none_]
      exact List.nil_prefix
    · rw [one,List.map_singleton,(first_hello scripts reached first).1]
      exact ⟨_,rfl⟩
    · rw [both,List.map_cons,List.map_singleton,(first_hello scripts reached first).1,(second_reply scripts reached second).1]
  · intro m line
    have script := scripts m
    rw [line] at script
    obtain ⟨inMail,answer,first,second,both⟩ := script_halted script
    have hello := (first_hello scripts reached (first ▸ List.mem_singleton.mpr rfl)).1
    have reply := (second_reply scripts reached (second ▸ List.mem_singleton.mpr rfl)).1
    rw [both,List.map_cons,List.map_singleton,hello,reply]
  · intro m pktHdr mailHdr text place
    exact sending_going scripts reached place

end

-- A Send with its completion, and a Receive with the packet that it is for.
def sends (next : Equiv.Perm M) (m : M) (line : Line M) : List (Choice (Agent M Unit) (Input M)) :=
  (line.call m (next m)).toList.map (Choice.exec (Agent.client m ())) ++
    [Choice.exec (Agent.client m ()) Input.finish,Choice.exec (Agent.sendDone m) Input.finish,
      Choice.exec (Agent.client m ()) Input.finish,Choice.exec (Agent.client m ()) Input.finish]

def receives (next : Equiv.Perm M) (m : M) (box : Int) : List (Choice (Agent M Unit) (Input M)) :=
  Choice.exec (Agent.poll m) (Input.arrives (next m)) :: List.replicate 5 (Choice.exec (Agent.worker m) Input.finish) ++
    Choice.exec (Agent.client m ()) (Input.receive box) :: List.replicate 3 (Choice.exec (Agent.client m ()) Input.finish)

def twoMachines (next : Equiv.Perm M) (one other : M) : List (Choice (Agent M Unit) (Input M)) :=
  sends next one .sends ++ sends next other .sends ++ receives next one 0 ++ receives next other 0 ++
    sends next one (.acknowledges other 1) ++ sends next other (.acknowledges one 1) ++ receives next one 1 ++
    receives next other 1

-- Two machines that write to each other, to the end.
theorem mail_test_completes_two : ∃ net, follow (Equiv.swap 0 1) (initial (Fin 2)) (twoMachines (Equiv.swap 0 1) 0 1) = some net ∧
    net.line 0 = .halted ∧ net.line 1 = .halted ∧
    (∀ m, (net.printed m).map messageOf <+: [message ((Equiv.swap 0 1).symm m) m 0 data,message (Equiv.swap 0 1 m) m 1 ack]) ∧
    (∀ m, net.line m = .halted → (net.printed m).map messageOf =
      [message ((Equiv.swap 0 1).symm m) m 0 data,message (Equiv.swap 0 1 m) m 1 ack]) ∧
    (∀ m pktHdr mailHdr text, net.machine.state.client m () = .sending pktHdr mailHdr text → net.line pktHdr.to_ ≠ .halted) ∧
    (Stuck (Equiv.swap 0 1) net → ∀ m, net.line m = .halted) := by
  have lines : (follow (Equiv.swap 0 1) (initial (Fin 2)) (twoMachines (Equiv.swap 0 1) 0 1)).map (fun net => (net.line 0,net.line 1)) =
      some (.halted,.halted) := by decide +kernel
  obtain ⟨net,ran,both⟩ := Option.map_eq_some_iff.mp lines
  exact ⟨net,ran,congrArg Prod.fst both,congrArg Prod.snd both,mail_test_completes (follow_reached _ .initial ran)⟩

end
end Nachos.NetTest
