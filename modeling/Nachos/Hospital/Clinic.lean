import Nachos.Library.Turnstile
import Nachos.Library.Rendezvous

-- Door-boys, doctors and the patients between them: a line, a mailbox and the
-- doctors' rooms.
namespace Nachos.Hospital.Clinic
open Tally Rendezvous Turnstile

-- A door-boy. `engaged` is one that took a patient off the count of the line, and
-- `carrying` one that reserved a doctor for it.
inductive Boy (D : Nat) where
  | off
  | idle (asleep : Bool)
  | engaged
  | seeking (asleep : Bool)
  | carrying (d : Fin D)
  | calling
  | waiting
  | told
  deriving DecidableEq

-- A patient in front of the door-boys.
inductive Guest where
  | away
  | queueing
  | inLine
  | called
  deriving DecidableEq

@[ext] structure View (K D N : Nat) where
  server : Fin D → Server
  free : Fin D → Bool
  client : Fin N → Option (Fin D × Client)
  fresh : Fin N → Bool
  available : Int
  number : Int
  mailbox : Option (Fin D)
  boy : Fin K → Boy D
  guest : Fin N → Guest

variable {K D N : Nat}

def View.carries (v : View K D N) (d : Fin D) : Bool := v.mailbox = some d ∨ ∃ b, v.boy b = .carrying d

-- The doctors' rooms. A doctor is reserved while a door-boy carries it to the
-- mailbox and while it lies there.
def View.desks (v : View K D N) : Desks (Fin D) (Fin N) := ⟨v.server,v.free,v.carries,v.client,v.fresh⟩

-- With the other door-boys kept away by doctor_doorboy_lock.
def Boy.inside : Boy D → Bool
  | .carrying _ | .calling | .waiting | .told => true
  | _ => false

-- Counted for a patient that is no longer counted in the line.
def Boy.engages : Boy D → Bool
  | .engaged | .seeking _ | .carrying _ => true
  | _ => false

-- With a doctor in the mailbox.
def Boy.calls : Boy D → Bool
  | .calling | .waiting => true
  | _ => false

def Boy.idling : Boy D → Option Bool
  | .idle asleep => some asleep
  | _ => none

def Boy.seeks : Boy D → Option Bool
  | .seeking asleep => some asleep
  | _ => none

theorem Boy.inside_of_calls {boy : Boy D} (calls : boy.calls = true) : boy.inside = true := by
  cases boy <;> simp [Boy.calls] at calls
  all_goals rfl

theorem Boy.idling_some {boy : Boy D} (idling : boy.idling = some asleep) : boy = .idle asleep := by
  cases boy <;> simp_all [Boy.idling]

theorem Boy.seeks_some {boy : Boy D} (seeks : boy.seeks = some asleep) : boy = .seeking asleep := by
  cases boy <;> simp_all [Boy.seeks]

def Guest.lined : Guest → Bool
  | .queueing | .inLine => true
  | _ => false

inductive Step (v : View K D N) : Option (Fin D × Move (Fin N)) → View K D N → Prop where
  | idles : Step v none v
  -- In the doctors' rooms.
  | serves : Rendezvous.Step v.desks d move desks → desks.free = v.free → desks.reserved = v.carries →
      desks.fresh = v.fresh → Step v (some (d,move)) {v with server := desks.server, client := desks.client}
  | opens : v.server d = .away → v.boy b = .seeking true →
      Step v (some (d,.opens)) {v with
        server := Function.update v.server d .opening
        free := Function.update v.free d true
        available := v.available + 1
        boy := Function.update v.boy b (.seeking false)}
  | opensAlone : v.server d = .away → (∀ b, v.boy b ≠ .seeking true) →
      Step v (some (d,.opens)) {v with
        server := Function.update v.server d .opening
        free := Function.update v.free d true
        available := v.available + 1}
  -- In front of the door.
  | joins : v.guest p = .away → v.boy b = .idle true →
      Step v none {v with
        number := v.number + 1
        guest := Function.update v.guest p .queueing
        boy := Function.update v.boy b (.idle false)}
  | joinsAlone : v.guest p = .away → (∀ b, v.boy b ≠ .idle true) →
      Step v none {v with number := v.number + 1, guest := Function.update v.guest p .queueing}
  | linesUp : v.guest p = .queueing → Step v none {v with guest := Function.update v.guest p .inLine}
  | reads : v.guest p = .called → v.fresh p = true → v.mailbox = some d → v.boy b = .waiting →
      Step v (some (d,.assigned p)) {v with
        client := Function.update v.client p (some (d,.assigned))
        fresh := Function.update v.fresh p false
        mailbox := none
        boy := Function.update v.boy b .told
        guest := Function.update v.guest p .away}
  -- The door-boys.
  | sleeps : v.boy b = .off ∨ v.boy b = .idle false → v.number = 0 →
      Step v none {v with boy := Function.update v.boy b (.idle true)}
  | takes : v.boy b = .off ∨ v.boy b = .idle false → v.number ≠ 0 →
      Step v none {v with number := v.number - 1, boy := Function.update v.boy b .engaged}
  | seeks : v.boy b = .engaged ∨ v.boy b = .seeking false → v.available = 0 →
      Step v none {v with boy := Function.update v.boy b (.seeking true)}
  | reserves : v.boy b = .engaged ∨ v.boy b = .seeking false → v.free d = true → v.server d ≠ .opening →
      (∀ b', (v.boy b').inside = false) →
      Step v (some (d,.reserves)) {v with
        free := Function.update v.free d false
        available := v.available - 1
        boy := Function.update v.boy b (.carrying d)}
  | stores : v.boy b = .carrying d → v.guest p = .inLine →
      Step v none {v with
        mailbox := some d
        boy := Function.update v.boy b .calling
        guest := Function.update v.guest p .called}
  | rests : v.boy b = .calling → Step v none {v with boy := Function.update v.boy b .waiting}
  | returns : v.boy b = .told → Step v none {v with boy := Function.update v.boy b .off}

structure Holds (v : View K D N) : Prop where
  available : v.available = tally v.free
  number : 0 ≤ v.number
  -- Nobody is missing in the line when a door-boy calls.
  line : (tally fun p => (v.guest p).lined : Int) = v.number + tally fun b => (v.boy b).engages
  alone : ∀ b b', (v.boy b).inside = true → (v.boy b').inside = true → b = b'
  mail : v.mailbox ≠ none ↔ ∃ b, (v.boy b).calls = true
  called : v.mailbox ≠ none ↔ ∃ p, v.guest p = .called
  only : ∀ p q, v.guest p = .called → v.guest q = .called → p = q
  idle : Enough v.number fun b => (v.boy b).idling
  seek : Enough v.available fun b => (v.boy b).seeks

section
variable {v v' : View K D N}

-- A door-boy that comes with a doctor finds the mailbox empty.
theorem Holds.carrying (holds : Holds v) (here : v.boy b = .carrying d) : v.mailbox = none := by
  by_contra full
  obtain ⟨b',calls⟩ := holds.mail.mp full
  have inside : (v.boy b').inside = true := by cases boy : v.boy b' <;> simp_all [Boy.calls,Boy.inside]
  have same := holds.alone b b' (by simp [here,Boy.inside]) inside
  rw [← same,here] at calls
  simp [Boy.calls] at calls

-- A patient that was called finds the mailbox full and a door-boy waiting.
theorem Holds.reads (holds : Holds v) (called : v.guest p = .called) (closed : ∀ b, v.boy b ≠ .calling) :
    ∃ d b, v.mailbox = some d ∧ v.boy b = .waiting := by
  have full := holds.called.mpr ⟨p,called⟩
  obtain ⟨d,here⟩ := Option.ne_none_iff_exists'.mp full
  obtain ⟨b,calls⟩ := holds.mail.mp full
  have notCalling := closed b
  refine ⟨d,b,here,?_⟩
  cases boy : v.boy b <;> simp_all [Boy.calls]

-- A door-boy that calls a patient finds one.
theorem Holds.stores (holds : Holds v) (here : v.boy b = .carrying d) (closed : ∀ p, v.guest p ≠ .queueing) :
    ∃ p, v.guest p = .inLine := by
  have counted : 0 < tally fun b => (v.boy b).engages := tally_pos.mpr ⟨b,by simp [here,Boy.engages]⟩
  have line := holds.line
  have number := holds.number
  obtain ⟨p,lined⟩ := tally_pos.mp (show 0 < tally fun p => (v.guest p).lined by omega)
  refine ⟨p,?_⟩
  have notQueueing := closed p
  cases stage : v.guest p <;> simp_all [Guest.lined]

theorem carries_same (mailbox : v'.mailbox = v.mailbox) (boys : ∀ b d, v'.boy b = .carrying d ↔ v.boy b = .carrying d) :
    v'.carries = v.carries := by
  funext d
  simp [View.carries,mailbox,boys]

theorem boys_same {boy : Fin K → Boy D} (now : Boy D) (before : ∀ d, boy b ≠ .carrying d) (after : ∀ d, now ≠ .carrying d)
    (b' : Fin K) (d : Fin D) : Function.update boy b now b' = .carrying d ↔ boy b' = .carrying d := by
  by_cases same : b' = b
  · subst same; simp [before,after]
  · simp [same]

-- A step of the clinic as a step of the library.
theorem Step.desks (holds : Holds v) (step : Step v label v') :
    match label with
    | some (d,move) => Rendezvous.Step v.desks d move v'.desks
    | none => v'.desks = v.desks := by
  have still : ∀ b now, (∀ d, v.boy b ≠ .carrying d) → (∀ d, now ≠ .carrying d) →
      v'.mailbox = v.mailbox → v'.boy = Function.update v.boy b now → v'.carries = v.carries := by
    intro b now before after mailbox boys
    exact carries_same mailbox (by rw [boys]; exact boys_same _ before after)
  cases step with
  | idles => rfl
  | @serves d move desks step free reserved fresh =>
    have same : View.desks {v with server := desks.server, client := desks.client} = desks :=
      Desks.ext rfl free.symm reserved.symm rfl fresh.symm
    simpa only [same] using step
  | @opens d b away sleeping =>
    have same := still b _ (by simp [sleeping]) (by simp) rfl rfl
    simp only [View.desks,same]
    exact .opens away
  | opensAlone away nobody => exact .opens away
  | @joins p b new sleeping => simp only [View.desks,still b _ (by simp [sleeping]) (by simp) rfl rfl]
  | joinsAlone => rfl
  | linesUp => rfl
  | @reads p d b called fresh full waiting =>
    have nobody : ∀ b', v.boy b' ≠ .carrying d := by
      intro b' there
      simp [holds.carrying there] at full
    have same : View.carries {v with
        client := Function.update v.client p (some (d,.assigned))
        fresh := Function.update v.fresh p false
        mailbox := none
        boy := Function.update v.boy b .told
        guest := Function.update v.guest p .away} = Function.update v.carries d false := by
      funext e
      have boys := boys_same .told (show ∀ d, v.boy b ≠ .carrying d by simp [waiting]) (by simp)
      by_cases here : e = d
      · subst here; simp [View.carries,boys,nobody]
      · simp [View.carries,boys,full,here,Ne.symm here]
    simp only [View.desks,same]
    exact .assigns (by simp [View.carries,full]) fresh
  | @sleeps b before zero =>
    simp only [View.desks,still b _ (by rcases before with before | before <;> simp [before]) (by simp) rfl rfl]
  | @takes b before some_ =>
    simp only [View.desks,still b _ (by rcases before with before | before <;> simp [before]) (by simp) rfl rfl]
  | @seeks b before zero =>
    simp only [View.desks,still b _ (by rcases before with before | before <;> simp [before]) (by simp) rfl rfl]
  | @reserves b d before isFree closed alone =>
    have same : View.carries {v with
        free := Function.update v.free d false
        available := v.available - 1
        boy := Function.update v.boy b (.carrying d)} = Function.update v.carries d true := by
      funext e
      have notCarrying : ∀ d, v.boy b ≠ .carrying d := by rcases before with before | before <;> simp [before]
      by_cases here : e = d
      · subst here
        simp only [View.carries,Function.update_self,decide_eq_true_eq]
        exact Or.inr ⟨b,by simp⟩
      · have others : (∃ b', Function.update v.boy b (.carrying d) b' = .carrying e) ↔ ∃ b', v.boy b' = .carrying e := by
          refine exists_congr fun b' => ?_
          by_cases at_ : b' = b
          · subst at_; simp [notCarrying,Ne.symm here]
          · simp [at_]
        simp [View.carries,others,here]
    simp only [View.desks,same]
    exact .reserves isFree closed
  | @stores b d p carrying inLine =>
    have empty := holds.carrying carrying
    have same : View.carries {v with
        mailbox := some d
        boy := Function.update v.boy b .calling
        guest := Function.update v.guest p .called} = v.carries := by
      funext e
      have only : ∀ b', v.boy b' = .carrying e → b' = b := fun b' there =>
        holds.alone b' b (by simp [there,Boy.inside]) (by simp [carrying,Boy.inside])
      simp only [View.carries,empty]
      grind
    simp only [View.desks,same]
  | @rests b calling => simp only [View.desks,still b _ (by simp [calling]) (by simp) rfl rfl]
  | @returns b told => simp only [View.desks,still b _ (by simp [told]) (by simp) rfl rfl]

theorem step_joint (joint : Joint v.desks holder) (holds : Holds v) (step : Step v label v') :
    ∃ holder', After label holder holder' ∧ Joint v'.desks holder' := by
  have desks := step.desks holds
  match label with
  | none => exact ⟨holder,rfl,(show v'.desks = v.desks from desks) ▸ joint⟩
  | some (d,move) =>
    obtain ⟨now,moves,joint'⟩ := Rendezvous.step_joint joint desks
    exact ⟨_,⟨now,moves,rfl⟩,joint'⟩

theorem Step.fresh (holds : Holds v) (step : Step v label v') (had : v.fresh p = false) : v'.fresh p = false := by
  have desks := step.desks holds
  match label with
  | none => exact (congrArg (fun desks : Desks (Fin D) (Fin N) => desks.fresh p) desks).trans had
  | some (d,move) => exact step_fresh desks had

-- Who is done after a step was done before it, or has just been told.
theorem Step.done (holds : Holds v) (step : Step v label v') (after : After label holder holder')
    (done : Done v'.desks holder' p) : Done v.desks holder p ∨ ∃ d, label = some (d,.moves p .answered .leaving) := by
  have desks := step.desks holds
  match label with
  | none =>
    cases after
    exact Or.inl ((show v'.desks = v.desks from desks) ▸ done)
  | some (d,move) =>
    obtain ⟨now,moves,rfl⟩ := after
    exact (step_done desks moves done).imp id fun same => ⟨d,by rw [same]⟩

-- A door-boy moves, with the patients as they are.
theorem Holds.boy_moves (holds : Holds v) (b : Fin K) (now : Boy D) (boys : v'.boy = Function.update v.boy b now)
    (guests : v'.guest = v.guest) (mailbox : v'.mailbox = v.mailbox)
    (inside : now.inside = true → (v.boy b).inside = true ∨ ∀ b', (v.boy b').inside = false)
    (calls : now.calls = (v.boy b).calls) (available : v'.available = tally v'.free) (number : 0 ≤ v'.number)
    (line : v'.number + now.engages.toNat = v.number + (v.boy b).engages.toNat)
    (idle : Enough v'.number (Function.update (fun b => (v.boy b).idling) b now.idling))
    (seek : Enough v'.available (Function.update (fun b => (v.boy b).seeks) b now.seeks)) : Holds v' := by
  refine ⟨available,number,?_,?_,?_,?_,?_,?_,?_⟩
  · rw [boys,guests,holds.line]
    have moved := tally_update v.boy Boy.engages b now
    cases one : now.engages <;> cases two : (v.boy b).engages <;> simp_all
    all_goals omega
  · have before : ∀ x, x ≠ b → (Function.update v.boy b now x) = v.boy x := fun x other => by simp [other]
    have alone := holds.alone
    intro first second one two
    rw [boys] at one two
    grind
  · rw [boys,mailbox,holds.mail]
    exact (exists_keeps (P := fun x : Boy D => x.calls = true) (by rw [calls])).symm
  · rw [guests,mailbox,holds.called]
  · rw [guests]
    exact holds.only
  · rw [boys]
    rwa [show (fun x => (Function.update v.boy b now x).idling) = _ from Function.comp_update Boy.idling v.boy b now]
  · rw [boys]
    rwa [show (fun x => (Function.update v.boy b now x).seeks) = _ from Function.comp_update Boy.seeks v.boy b now]

-- A patient moves in front of the door, without being called.
theorem Holds.guest_moves (holds : Holds v) (p : Fin N) (now : Guest) (guests : v'.guest = Function.update v.guest p now)
    (boys : v'.boy = v.boy) (mailbox : v'.mailbox = v.mailbox) (before : v.guest p ≠ .called) (after : now ≠ .called)
    (available : v'.available = v.available) (free : v'.free = v.free) (number : 0 ≤ v'.number)
    (line : v'.number + (v.guest p).lined.toNat = v.number + now.lined.toNat)
    (idle : Enough v'.number fun b => (v.boy b).idling) : Holds v' := by
  refine ⟨by rw [available,free,holds.available],number,?_,by rw [boys]; exact holds.alone,
    by rw [boys,mailbox,holds.mail],?_,?_,by rw [boys]; exact idle,by rw [boys,available]; exact holds.seek⟩
  · have counted := holds.line
    rw [boys,guests]
    have moved := tally_update v.guest Guest.lined p now
    cases one : now.lined <;> cases two : (v.guest p).lined <;> simp_all
    all_goals omega
  · rw [guests,mailbox,holds.called]
    exact (exists_keeps (P := fun x : Guest => x = .called) (by simp [before,after])).symm
  · have only := holds.only
    intro first second one two
    rw [guests] at one two
    grind

theorem step_holds (joint : Joint v.desks holder) (holds : Holds v) (step : Step v label v') : Holds v' := by
  have available := holds.available
  have number := holds.number
  have closed : ∀ d, v.server d = .away → v.free d = false := by
    intro d away
    have here : holder d = .nobody := by simpa [View.desks,away,Fits] using joint.fits d
    have := joint.free d
    cases isFree : v.free d <;> simp_all [View.desks]
  have gains : ∀ d, v.free d = false → v.available + 1 = tally (Function.update v.free d true) := by
    intro d before
    have moved := tally_gains v.free id d true before rfl
    simp only [id] at moved
    rw [available,moved]
    simp
  have loses : ∀ d, v.free d = true → v.available - 1 = tally (Function.update v.free d false) := by
    intro d before
    have moved := tally_loses v.free id d false before rfl
    simp only [id] at moved
    rw [available,← moved]
    simp
  cases step with
  | idles => exact holds
  | serves => exact ⟨available,number,holds.line,holds.alone,holds.mail,holds.called,holds.only,holds.idle,holds.seek⟩
  | @opens d b away sleeping =>
    refine holds.boy_moves b _ rfl rfl rfl (by simp [Boy.inside]) (by simp [sleeping,Boy.calls])
      (gains d (closed d away)) number (by simp [sleeping,Boy.engages])
      (holds.idle.moves (by simp [sleeping,Boy.idling])) (holds.seek.wakes (by simp [sleeping,Boy.seeks]))
  | @opensAlone d away nobody =>
    refine ⟨gains d (closed d away),number,holds.line,holds.alone,holds.mail,holds.called,holds.only,holds.idle,
      .unheard ?_⟩
    exact fun b sleeping => nobody b (Boy.seeks_some sleeping)
  | @joins p b away sleeping =>
    have woken := holds.idle.wakes (p := b) (by simp [sleeping,Boy.idling])
    have mid : Holds {v with boy := Function.update v.boy b (.idle false)} :=
      holds.boy_moves b _ rfl rfl rfl (by simp [Boy.inside]) (by simp [sleeping,Boy.calls]) available number
        (by simp [sleeping,Boy.engages]) woken.less (holds.seek.moves (by simp [sleeping,Boy.seeks]))
    refine mid.guest_moves p _ rfl rfl rfl (by simp [away]) (by simp) rfl rfl (by dsimp only; omega)
      (by simp [away,Guest.lined]) ?_
    rwa [show (fun x => (Function.update v.boy b (.idle false) x).idling) = _ from
      Function.comp_update Boy.idling v.boy b (.idle false)]
  | @joinsAlone p away nobody =>
    refine holds.guest_moves p _ rfl rfl rfl (by simp [away]) (by simp) rfl rfl (by dsimp only; omega)
      (by simp [away,Guest.lined]) (.unheard ?_)
    exact fun b sleeping => nobody b (Boy.idling_some sleeping)
  | @linesUp p queueing =>
    exact holds.guest_moves p _ rfl rfl rfl (by simp [queueing]) (by simp) rfl rfl number
      (by simp [queueing,Guest.lined]) holds.idle
  | @reads p d b here fresh full waiting =>
    have alone := holds.alone
    have only := holds.only
    have boys : ∀ b', (Function.update v.boy b .told b').calls = false := by
      intro b'
      by_cases same : b' = b
      · subst same; simp [Boy.calls]
      · by_contra calls
        have calls : (v.boy b').calls = true := by simpa [same] using calls
        exact same (alone b' b (Boy.inside_of_calls calls) (by simp [waiting,Boy.inside]))
    have guests : ∀ q, Function.update v.guest p .away q ≠ .called := by
      intro q called
      by_cases same : q = p
      · subst same; simp at called
      · exact same (only q p (by simpa [same] using called) here)
    refine ⟨available,number,?_,?_,by simp [boys],by simp [guests],fun x y one => absurd one (guests x),?_,?_⟩
    · have line := holds.line
      have one := tally_keeps v.guest Guest.lined p .away (by simp [here,Guest.lined])
      have two := tally_keeps v.boy Boy.engages b .told (by simp [waiting,Boy.engages])
      simp only [one,two,line]
    · intro first second one two
      have back : ∀ x, (Function.update v.boy b .told x).inside = true → (v.boy x).inside = true := by
        intro x there
        by_cases same : x = b
        · subst same; simp [waiting,Boy.inside]
        · simpa [same] using there
      exact alone first second (back first one) (back second two)
    · rw [show (fun x => (Function.update v.boy b .told x).idling) = _ from
        Function.comp_update Boy.idling v.boy b .told]
      exact holds.idle.moves (by simp [waiting,Boy.idling])
    · rw [show (fun x => (Function.update v.boy b .told x).seeks) = _ from
        Function.comp_update Boy.seeks v.boy b .told]
      exact holds.seek.moves (by simp [waiting,Boy.seeks])
  | @sleeps b before zero =>
    refine holds.boy_moves b _ rfl rfl rfl (by simp [Boy.inside]) ?_ available number ?_
      (by simp only [zero]; exact .zero _) (holds.seek.moves ?_)
    all_goals rcases before with before | before <;> simp [before,Boy.calls,Boy.engages,Boy.seeks]
  | @takes b before some_ =>
    refine holds.boy_moves b _ rfl rfl rfl (by simp [Boy.inside]) ?_ available (by dsimp only; omega) ?_
      (holds.idle.takes ?_) (holds.seek.moves ?_)
    all_goals rcases before with before | before <;> simp [before,Boy.calls,Boy.engages,Boy.seeks,Boy.idling]
  | @seeks b before zero =>
    refine holds.boy_moves b _ rfl rfl rfl (by simp [Boy.inside]) ?_ available number ?_
      (holds.idle.moves ?_) (by simp only [zero]; exact .zero _)
    all_goals rcases before with before | before <;> simp [before,Boy.calls,Boy.engages,Boy.idling]
  | @reserves b d before isFree opening outside =>
    refine holds.boy_moves b _ rfl rfl rfl (fun _ => Or.inr outside) ?_ (loses d isFree) number ?_
      (holds.idle.moves ?_) (holds.seek.takes ?_)
    all_goals rcases before with before | before <;> simp [before,Boy.calls,Boy.engages,Boy.seeks,Boy.idling]
  | @stores b d p carrying inLine =>
    have alone := holds.alone
    have empty := holds.carrying carrying
    have nobody : ∀ q, v.guest q ≠ .called := by
      intro q called
      exact holds.called.mpr ⟨q,called⟩ empty
    have called : ∀ q, Function.update v.guest p .called q = .called ↔ q = p := by
      intro q
      by_cases same : q = p
      · subst same; simp
      · simp [same,nobody q]
    refine ⟨available,number,?_,?_,?_,?_,?_,?_,?_⟩
    · have line := holds.line
      have one := tally_loses v.guest Guest.lined p .called (by simp [inLine,Guest.lined]) rfl
      have two := tally_loses v.boy Boy.engages b .calling (by simp [carrying,Boy.engages]) rfl
      dsimp only
      omega
    · intro first second one two
      have back : ∀ x, (Function.update v.boy b .calling x).inside = true → (v.boy x).inside = true := by
        intro x there
        by_cases same : x = b
        · subst same; simp [carrying,Boy.inside]
        · simpa [same] using there
      exact alone first second (back first one) (back second two)
    · simp only [ne_eq,reduceCtorEq,not_false_eq_true,true_iff]
      exact ⟨b,by simp [Boy.calls]⟩
    · simp only [ne_eq,reduceCtorEq,not_false_eq_true,true_iff]
      exact ⟨p,by simp⟩
    · intro x y one two
      rw [(called x).mp one,(called y).mp two]
    · rw [show (fun x => (Function.update v.boy b .calling x).idling) = _ from
        Function.comp_update Boy.idling v.boy b .calling]
      exact holds.idle.moves (by simp [carrying,Boy.idling])
    · rw [show (fun x => (Function.update v.boy b .calling x).seeks) = _ from
        Function.comp_update Boy.seeks v.boy b .calling]
      exact holds.seek.moves (by simp [carrying,Boy.seeks])
  | @rests b calling =>
    exact holds.boy_moves b _ rfl rfl rfl (by simp [calling,Boy.inside]) (by simp [calling,Boy.calls]) available number
      (by simp [calling,Boy.engages]) (holds.idle.moves (by simp [calling,Boy.idling]))
      (holds.seek.moves (by simp [calling,Boy.seeks]))
  | @returns b told =>
    exact holds.boy_moves b _ rfl rfl rfl (by simp [Boy.inside]) (by simp [told,Boy.calls]) available number
      (by simp [told,Boy.engages]) (holds.idle.moves (by simp [told,Boy.idling]))
      (holds.seek.moves (by simp [told,Boy.seeks]))

end

end Nachos.Hospital.Clinic
