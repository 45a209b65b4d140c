import Mathlib.Logic.Function.Basic

-- Desks with one server each, and clients that come to a free one. Both sides
-- hold the lock of the desk while they are at it and sleep on one condition: the
-- server rests until a client calls it, answers, lingers until the client has
-- gone, and closes. The waits need no second look because of the invariant here.
namespace Rendezvous

inductive Server where
  | away
  | opening
  | opened
  | resting
  | called
  | busy
  | answered
  | lingering
  | dismissed
  | closing
  deriving DecidableEq

inductive Client where
  | assigned
  | entering
  | calling
  | posted
  | answered
  | leaving
  deriving DecidableEq

-- A desk is free from the time its server says so until it is reserved for a
-- client or claimed by one. A client that is not fresh has had its turn.
@[ext] structure Desks (D P : Type) where
  server : D → Server
  free : D → Bool
  reserved : D → Bool
  client : P → Option (D × Client)
  fresh : P → Bool

-- Whom a desk is for. A client that has gone stays on record until the server
-- has closed its case.
inductive Holder (P : Type) where
  | nobody
  | free
  | reserved
  | client (p : P) (stage : Client)
  | gone (p : P)

def Holder.patron : Holder P → Option P
  | .client p _ | .gone p => some p
  | .nobody | .free | .reserved => none

variable [DecidableEq D] [DecidableEq P]

-- A Signal at the desk.
inductive Wakes (v : Desks D P) (d : D) : Desks D P → Prop where
  | resting : v.server d = .resting → Wakes v d {v with server := Function.update v.server d .called}
  | lingering : v.server d = .lingering → Wakes v d {v with server := Function.update v.server d .dismissed}
  | client : v.client p = some (d,.posted) →
      Wakes v d {v with client := Function.update v.client p (some (d,.answered))}
  | nobody : v.server d ≠ .resting → v.server d ≠ .lingering → (∀ p, v.client p ≠ some (d,.posted)) → Wakes v d v

theorem Wakes.fresh {v v' : Desks D P} (wakes : Wakes v d v') : v'.fresh = v.fresh := by cases wakes <;> rfl

theorem Wakes.free {v v' : Desks D P} (wakes : Wakes v d v') : v'.free = v.free := by cases wakes <;> rfl

inductive Move (P : Type) where
  | stays
  | opens
  | reserves
  | assigned (p : P)
  | moves (p : P) (before after : Client)
  | answers
  | goes (p : P)
  | closes

-- What a move does to the holder of its desk.
def Moves : Move P → Holder P → Holder P → Prop
  | .stays,before,after => after = before
  | .opens,before,after => before = .nobody ∧ after = .free
  | .reserves,before,after => before = .free ∧ after = .reserved
  | .assigned p,before,after => (before = .free ∨ before = .reserved) ∧ after = .client p .assigned
  | .moves p c c',before,after => before = .client p c ∧ after = .client p c'
  | .answers,before,after => ∃ p, before = .client p .posted ∧ after = .client p .answered
  | .goes p,before,after => before = .client p .leaving ∧ after = .gone p
  | .closes,before,after => ∃ p, before = .gone p ∧ after = .nobody

-- The guards that name the other side are what the locks guarantee: a server
-- that is still opening holds the line, and whoever moves at a desk owns it.
inductive Step (v : Desks D P) : D → Move P → Desks D P → Prop where
  | opens : v.server d = .away →
      Step v d .opens {v with server := Function.update v.server d .opening, free := Function.update v.free d true}
  | enters : v.server d = .opening → Step v d .stays {v with server := Function.update v.server d .opened}
  | rests : v.server d = .opened → Step v d .stays {v with server := Function.update v.server d .resting}
  | reserves : v.free d = true → v.server d ≠ .opening →
      Step v d .reserves {v with free := Function.update v.free d false, reserved := Function.update v.reserved d true}
  | assigns : v.reserved d = true → v.fresh p = true →
      Step v d (.assigned p) {v with
        reserved := Function.update v.reserved d false
        client := Function.update v.client p (some (d,.assigned))
        fresh := Function.update v.fresh p false}
  | claims : v.free d = true → v.server d ≠ .opening → v.fresh p = true →
      Step v d (.assigned p) {v with
        free := Function.update v.free d false
        client := Function.update v.client p (some (d,.assigned))
        fresh := Function.update v.fresh p false}
  | arrives : v.client p = some (d,.assigned) →
      Step v d (.moves p .assigned .entering) {v with client := Function.update v.client p (some (d,.entering))}
  | calls : v.client p = some (d,.entering) → v.server d ≠ .opened →
      Wakes {v with client := Function.update v.client p (some (d,.calling))} d v' →
      Step v d (.moves p .entering .calling) v'
  | posts : v.client p = some (d,.calling) →
      Step v d (.moves p .calling .posted) {v with client := Function.update v.client p (some (d,.posted))}
  | reads : v.server d = .called → (∀ p, v.client p ≠ some (d,.calling)) →
      Step v d .stays {v with server := Function.update v.server d .busy}
  | answers : v.server d = .busy ∨ v.server d = .called ∧ (∀ p, v.client p ≠ some (d,.calling)) →
      Wakes {v with server := Function.update v.server d .answered} d v' → Step v d .answers v'
  | lingers : v.server d = .answered → Step v d .stays {v with server := Function.update v.server d .lingering}
  | leaves : v.client p = some (d,.answered) → v.server d ≠ .answered →
      Wakes {v with client := Function.update v.client p (some (d,.leaving))} d v' →
      Step v d (.moves p .answered .leaving) v'
  | goes : v.client p = some (d,.leaving) → Step v d (.goes p) {v with client := Function.update v.client p none}
  | dismisses : v.server d = .dismissed → (∀ p, v.client p ≠ some (d,.leaving)) → next = .closing ∨ next = .away →
      Step v d .closes {v with server := Function.update v.server d next}
  | closes : v.server d = .closing → Step v d .stays {v with server := Function.update v.server d .away}

-- Which moments of the server and of the desk go together.
def Fits : Server → Holder P → Prop
  | .away,holder | .closing,holder => holder = .nobody
  | .opening,holder => holder = .free
  | .opened,holder | .resting,holder =>
    holder = .free ∨ holder = .reserved ∨ ∃ p, holder = .client p .assigned ∨ holder = .client p .entering
  | .called,holder => ∃ p, holder = .client p .calling ∨ holder = .client p .posted
  | .busy,holder => ∃ p, holder = .client p .posted
  | .answered,holder | .lingering,holder => ∃ p, holder = .client p .answered
  | .dismissed,holder => ∃ p, holder = .client p .leaving ∨ holder = .gone p

structure Joint (v : Desks D P) (holder : D → Holder P) : Prop where
  free : ∀ d, v.free d = true ↔ holder d = .free
  reserved : ∀ d, v.reserved d = true ↔ holder d = .reserved
  client : ∀ p d c, v.client p = some (d,c) ↔ holder d = .client p c
  fits : ∀ d, Fits (v.server d) (holder d)
  turn : ∀ p d, (holder d).patron = some p → v.fresh p = false
  once : ∀ p d e, (holder d).patron = some p → (holder e).patron = some p → d = e

variable {v v' : Desks D P} {holder : D → Holder P}

-- One desk changes, the others stay as they are.
omit [DecidableEq P] in
theorem fits_at {server : D → Server} (joint : Joint v holder) (d : D) (others : ∀ e, e ≠ d → server e = v.server e)
    (here : Fits (server d) now) (e : D) : Fits (server e) (Function.update holder d now e) := by
  by_cases same : e = d
  · subst same; simpa using here
  · simpa [same,others e same] using joint.fits e

omit [DecidableEq P] in
theorem Joint.turn_at (joint : Joint v holder) (d : D) (same : ∀ p, now.patron = some p → (holder d).patron = some p)
    (p : P) (e : D) (here : (Function.update holder d now e).patron = some p) : v.fresh p = false := by
  by_cases at_ : e = d
  · subst at_
    exact joint.turn p e (same p (by simpa using here))
  · exact joint.turn p e (by simpa [at_] using here)

omit [DecidableEq P] in
theorem Joint.once_at (joint : Joint v holder) (d : D) (same : ∀ p, now.patron = some p → (holder d).patron = some p)
    (p : P) (e f : D) (one : (Function.update holder d now e).patron = some p)
    (two : (Function.update holder d now f).patron = some p) : e = f := by
  have before : ∀ e, (Function.update holder d now e).patron = some p → (holder e).patron = some p := by
    intro e here
    by_cases at_ : e = d
    · subst at_; exact same p (by simpa using here)
    · simpa [at_] using here
  exact joint.once p e f (before e one) (before f two)

-- What the stage of a client says about its server.
omit [DecidableEq D] [DecidableEq P] in
theorem Joint.server (joint : Joint v holder) (here : v.client p = some (d,c)) : Fits (v.server d) (.client p c) := by
  rw [← (joint.client p d c).mp here]
  exact joint.fits d

omit [DecidableEq D] [DecidableEq P] in
theorem Joint.entering (joint : Joint v holder) (here : v.client p = some (d,.entering)) (own : v.server d ≠ .opened) :
    v.server d = .resting := by
  have fits := joint.server here
  cases server : v.server d <;> simp_all [Fits]

omit [DecidableEq D] [DecidableEq P] in
theorem Joint.answered (joint : Joint v holder) (here : v.client p = some (d,.answered))
    (own : v.server d ≠ .answered) : v.server d = .lingering := by
  have fits := joint.server here
  cases server : v.server d <;> simp_all [Fits]

omit [DecidableEq D] [DecidableEq P] in
theorem Joint.only (joint : Joint v holder) (one : v.client p = some (d,c)) (two : v.client q = some (d,c')) :
    p = q ∧ c = c' := by
  have first := (joint.client p d c).mp one
  rw [(joint.client q d c').mp two] at first
  simp_all

omit [DecidableEq D] [DecidableEq P] in
theorem Joint.posted (joint : Joint v holder)
    (server : v.server d = .busy ∨ v.server d = .called ∧ ∀ p, v.client p ≠ some (d,.calling)) :
    ∃ p, holder d = .client p .posted := by
  have fits := joint.fits d
  rcases server with busy | ⟨called,nobody⟩
  · simpa only [busy,Fits] using fits
  · simp only [called,Fits] at fits
    obtain ⟨p,calling | posted⟩ := fits
    · exact absurd ((joint.client p d _).mpr calling) (nobody p)
    · exact ⟨p,posted⟩

-- What a labelled step does to the holders.
def After (label : Option (D × Move P)) (holder holder' : D → Holder P) : Prop :=
  match label with
  | some (d,move) => ∃ now, Moves move (holder d) now ∧ holder' = Function.update holder d now
  | none => holder' = holder

-- A client that had its turn, and whose case no desk keeps any more.
def Settled (v : Desks D P) (holder : D → Holder P) (p : P) : Prop :=
  v.fresh p = false ∧ ∀ d, (holder d).patron ≠ some p

-- The server changes and the holder stays.
omit [DecidableEq P] in
theorem Joint.serves (joint : Joint v holder) (d : D) (next : Server) (fits : Fits next (holder d)) :
    Joint {v with server := Function.update v.server d next} (Function.update holder d (holder d)) := by
  rw [Function.update_eq_self]
  refine ⟨joint.free,joint.reserved,joint.client,?_,joint.turn,joint.once⟩
  intro e
  by_cases same : e = d
  · subst same; simpa using fits
  · simpa [same] using joint.fits e

-- A client moves on at its desk.
theorem Joint.advances (joint : Joint v holder) (here : v.client p = some (d,c)) (c' : Client) (next : Server)
    (fits : Fits next (.client p c')) :
    Joint {v with
      server := Function.update v.server d next
      client := Function.update v.client p (some (d,c'))} (Function.update holder d (.client p c')) := by
  have free := joint.free
  have reserved := joint.reserved
  have client := joint.client
  have present := (client p d c).mp here
  have same : ∀ q, (Holder.client p c').patron = some q → (holder d).patron = some q := by
    simp [present,Holder.patron]
  refine ⟨?_,?_,?_,fits_at joint d (by intro e other; simp [other]) (by simpa using fits),joint.turn_at d same,
    joint.once_at d same⟩
  all_goals grind

-- The same where the desk's own server stays as it is.
theorem Joint.moves (joint : Joint v holder) (here : v.client p = some (d,c)) (c' : Client)
    (fits : Fits (v.server d) (.client p c')) :
    Joint {v with client := Function.update v.client p (some (d,c'))} (Function.update holder d (.client p c')) := by
  have moved := joint.advances here c' (v.server d) fits
  rwa [Function.update_eq_self] at moved

-- A client gets a desk.
theorem Joint.assigned (joint : Joint v holder) (fresh : v.fresh p = true)
    (before : holder d = .free ∨ holder d = .reserved) (fits : Fits (v.server d) (.client p .assigned)) :
    Joint {v with
      free := Function.update v.free d false
      reserved := Function.update v.reserved d false
      client := Function.update v.client p (some (d,.assigned))
      fresh := Function.update v.fresh p false} (Function.update holder d (.client p .assigned)) := by
  have free := joint.free
  have reserved := joint.reserved
  have client := joint.client
  have unknown : ∀ e, (holder e).patron ≠ some p := fun e held => by simp [joint.turn p e held] at fresh
  have notClient : ∀ e c, holder e ≠ .client p c := fun e c held => unknown e (by simp [held,Holder.patron])
  have turn := joint.turn
  have once := joint.once
  refine ⟨?_,?_,?_,fits_at joint d (by simp) fits,?_,?_⟩
  · grind
  · grind
  · grind
  · intro q e held
    by_cases same : q = p
    · simp [same]
    · simp only [Function.update_of_ne same]
      by_cases at_ : e = d
      · subst at_; simp [Holder.patron,Ne.symm same] at held
      · exact turn q e (by simpa [at_] using held)
  · intro q e f one two
    by_cases at_ : e = d <;> by_cases at' : f = d
    · rw [at_,at']
    · subst at_
      obtain rfl : p = q := by simpa [Holder.patron] using one
      exact absurd (by simpa [at'] using two) (unknown f)
    · subst at'
      obtain rfl : p = q := by simpa [Holder.patron] using two
      exact absurd (by simpa [at_] using one) (unknown e)
    · exact once q e f (by simpa [at_] using one) (by simpa [at'] using two)

theorem step_joint (joint : Joint v holder) (step : Step v d move v') :
    ∃ now, Moves move (holder d) now ∧ Joint v' (Function.update holder d now) := by
  have free := joint.free
  have reserved := joint.reserved
  have client := joint.client
  cases step with
  | opens server =>
    have here : holder d = .nobody := by simpa [server,Fits] using joint.fits d
    refine ⟨.free,⟨here,rfl⟩,?_,?_,?_,fits_at joint d (by intro e other; simp [other]) (by simp [Fits]),
      joint.turn_at d (by simp [Holder.patron]),joint.once_at d (by simp [Holder.patron])⟩
    all_goals grind
  | enters server =>
    refine ⟨_,rfl,joint.serves d _ ?_⟩
    have fits := joint.fits d
    simp_all [Fits]
  | rests server =>
    refine ⟨_,rfl,joint.serves d _ ?_⟩
    have fits := joint.fits d
    simp_all [Fits]
  | reserves isFree closed =>
    have here := joint.fits d
    have before := (free d).mp isFree
    rw [before] at here
    refine ⟨.reserved,⟨before,rfl⟩,?_,?_,?_,fits_at joint d (by simp) ?_,
      joint.turn_at d (by simp [Holder.patron]),joint.once_at d (by simp [Holder.patron])⟩
    · grind
    · grind
    · grind
    · cases server : v.server d <;> simp_all [Fits]
  | @assigns d p isReserved fresh =>
    have here := joint.fits d
    have before := (reserved d).mp isReserved
    rw [before] at here
    refine ⟨.client p .assigned,⟨Or.inr before,rfl⟩,?_⟩
    have notFree : v.free d = false := by
      by_contra isFree
      simp [(free d).mp (by simpa using isFree)] at before
    have moved := joint.assigned fresh (Or.inr before) (by cases server : v.server d <;> simp_all [Fits])
    rwa [show Function.update v.free d false = v.free from Function.update_eq_self_iff.mpr notFree.symm] at moved
  | @claims d p isFree closed fresh =>
    have here := joint.fits d
    have before := (free d).mp isFree
    rw [before] at here
    refine ⟨.client p .assigned,⟨Or.inl before,rfl⟩,?_⟩
    have notReserved : v.reserved d = false := by
      by_contra isReserved
      simp [(reserved d).mp (by simpa using isReserved)] at before
    have moved := joint.assigned fresh (Or.inl before) (by cases server : v.server d <;> simp_all [Fits])
    rwa [show Function.update v.reserved d false = v.reserved from
      Function.update_eq_self_iff.mpr notReserved.symm] at moved
  | arrives here =>
    have fits := joint.server here
    refine ⟨_,⟨(client _ _ _).mp here,rfl⟩,joint.moves here .entering ?_⟩
    cases server : v.server d <;> simp_all [Fits]
  | @calls p d v' here closed wakes =>
    have resting := joint.entering here closed
    refine ⟨_,⟨(client _ _ _).mp here,rfl⟩,?_⟩
    cases wakes with
    | resting => exact joint.advances here .calling .called (by simp [Fits])
    | lingering server => simp [resting] at server
    | @client q posted =>
      by_cases same : q = p
      · simp [same] at posted
      · have only := joint.only here (by simpa [same] using posted)
        exact absurd only.1.symm same
    | nobody server => exact absurd resting server
  | posts here =>
    have fits := joint.server here
    refine ⟨_,⟨(client _ _ _).mp here,rfl⟩,joint.moves here .posted ?_⟩
    cases server : v.server d <;> simp_all [Fits]
  | reads server nobody =>
    obtain ⟨p,posted⟩ := joint.posted (Or.inr ⟨server,nobody⟩)
    exact ⟨_,rfl,joint.serves d _ ⟨p,posted⟩⟩
  | answers server wakes =>
    obtain ⟨p,posted⟩ := joint.posted server
    have present := (client p d _).mpr posted
    refine ⟨_,⟨p,posted,rfl⟩,?_⟩
    cases wakes with
    | resting server => simp at server
    | lingering server => simp at server
    | @client q other =>
      obtain ⟨rfl,_⟩ := joint.only present other
      exact joint.advances present .answered .answered ⟨p,rfl⟩
    | nobody _ _ nobody => exact absurd present (nobody p)
  | lingers server =>
    refine ⟨_,rfl,joint.serves d _ ?_⟩
    have fits := joint.fits d
    simp_all [Fits]
  | @leaves p d v' here closed wakes =>
    have lingering := joint.answered here closed
    refine ⟨_,⟨(client _ _ _).mp here,rfl⟩,?_⟩
    cases wakes with
    | resting server => simp [lingering] at server
    | lingering => exact joint.advances here .leaving .dismissed ⟨p,Or.inl rfl⟩
    | @client q posted =>
      by_cases same : q = p
      · simp [same] at posted
      · have only := joint.only here (by simpa [same] using posted)
        exact absurd only.1.symm same
    | nobody _ server => exact absurd lingering server
  | @goes p d here =>
    have fits := joint.server here
    have present := (client p d _).mp here
    have same : ∀ q, (Holder.gone p).patron = some q → (holder d).patron = some q := by
      simp [present,Holder.patron]
    refine ⟨.gone p,⟨present,rfl⟩,?_,?_,?_,fits_at joint d (by simp) ?_,joint.turn_at d same,joint.once_at d same⟩
    · grind
    · grind
    · grind
    · cases server : v.server d <;> simp_all [Fits]
  | dismisses server nobody after =>
    have here := joint.fits d
    simp only [server,Fits] at here
    obtain ⟨p,leaving | gone⟩ := here
    · exact absurd ((client p d _).mpr leaving) (nobody p)
    · refine ⟨.nobody,⟨p,gone,rfl⟩,?_,?_,?_,fits_at joint d (by intro e other; simp [other]) ?_,
        joint.turn_at d (by simp [Holder.patron]),joint.once_at d (by simp [Holder.patron])⟩
      · grind
      · grind
      · grind
      · rcases after with rfl | rfl <;> simp [Fits]
  | closes server =>
    refine ⟨_,rfl,joint.serves d _ ?_⟩
    have fits := joint.fits d
    simp_all [Fits]

-- Nobody has a second turn.
theorem step_fresh (step : Step v d move v') (had : v.fresh p = false) : v'.fresh p = false := by
  cases step with
  | assigns | claims =>
    simp only [Function.update_apply]
    split <;> trivial
  | calls _ _ woken | leaves _ _ woken => simpa [woken.fresh] using had
  | answers _ woken => simpa [woken.fresh] using had
  | _ => exact had

-- A case is settled when its desk closes it, and at no other time.
theorem step_settled (joint : Joint v holder) (step : Step v d move v') (moves : Moves move (holder d) now) (p : P) :
    Settled v' (Function.update holder d now) p ↔ Settled v holder p ∨ move = .closes ∧ holder d = .gone p := by
  have once := joint.once
  have turn := joint.turn
  -- Whom the desk is for stays the same, or it becomes nobody's.
  have kept : v'.fresh = v.fresh → now.patron = (holder d).patron →
      (Settled v' (Function.update holder d now) p ↔ Settled v holder p) := by
    intro fresh same
    have patrons : ∀ e, (Function.update holder d now e).patron = (holder e).patron := by
      intro e
      by_cases at_ : e = d
      · subst at_; simpa using same
      · simp [at_]
    simp [Settled,fresh,patrons]
  have assigned : ∀ q, v.fresh q = true → v'.fresh = Function.update v.fresh q false →
      now = .client q .assigned → (holder d).patron = none →
      (Settled v' (Function.update holder d now) p ↔ Settled v holder p) := by
    rintro q fresh after rfl nobody
    by_cases same : p = q
    · subst same
      refine ⟨fun settled => ?_,fun settled => by simp [settled.1] at fresh⟩
      exact absurd (by simp [Holder.patron]) (settled.2 d)
    · have patrons : ∀ e, (Function.update holder d (.client q .assigned) e).patron ≠ some p ↔
          (holder e).patron ≠ some p := by
        intro e
        by_cases at_ : e = d
        · subst at_
          simp only [Function.update_self,nobody]
          simp [Holder.patron,Ne.symm same]
        · simp [at_]
      simp [Settled,after,same,patrons]
  cases step with
  | opens | reserves =>
    obtain ⟨before,rfl⟩ := moves
    simpa using kept rfl (by simp [before,Holder.patron])
  | enters | rests | reads | lingers | closes =>
    cases moves
    simpa using kept rfl rfl
  | assigns _ fresh | claims _ _ fresh =>
    obtain ⟨before,rfl⟩ := moves
    simpa using assigned _ fresh rfl rfl (by rcases before with before | before <;> simp [before,Holder.patron])
  | arrives | posts | goes =>
    obtain ⟨before,rfl⟩ := moves
    simpa using kept rfl (by simp [before,Holder.patron])
  | calls _ _ woken | leaves _ _ woken =>
    obtain ⟨before,rfl⟩ := moves
    simpa using kept (by simpa using woken.fresh) (by simp [before,Holder.patron])
  | answers _ woken =>
    obtain ⟨q,before,rfl⟩ := moves
    simpa using kept (by simpa using woken.fresh) (by simp [before,Holder.patron])
  | dismisses =>
    obtain ⟨q,before,rfl⟩ := moves
    have patrons : ∀ e, (Function.update holder d .nobody e).patron ≠ some p ↔
        e = d ∨ (holder e).patron ≠ some p := by
      intro e
      by_cases at_ : e = d
      · subst at_; simp [Holder.patron]
      · simp [at_]
    simp only [Settled,patrons,before,true_and]
    by_cases same : p = q
    · subst same
      refine ⟨fun _ => Or.inr rfl,fun _ => ⟨turn p d (by simp [before,Holder.patron]),?_⟩⟩
      intro e
      by_cases at_ : e = d
      · exact Or.inl at_
      · refine Or.inr fun held => at_ ?_
        exact once p e d held (by simp [before,Holder.patron])
    · have differs : Holder.gone q ≠ .gone p := by simpa using Ne.symm same
      simp only [differs,or_false]
      refine ⟨fun settled => ⟨settled.1,fun e => ?_⟩,fun settled => ⟨settled.1,fun e => Or.inr (settled.2 e)⟩⟩
      rcases settled.2 e with rfl | other
      · simp [before,Holder.patron,Ne.symm same]
      · exact other

-- A client on its way out, or gone.
def Done (v : Desks D P) (holder : D → Holder P) (p : P) : Prop :=
  v.fresh p = false ∧ ∀ d c, holder d = .client p c → c = .leaving

theorem step_done (step : Step v d move v') (moves : Moves move (holder d) now)
    (done : Done v' (Function.update holder d now) p) : Done v holder p ∨ move = .moves p .answered .leaving := by
  -- Away from the desk nothing happens, so only the stage there counts.
  have here : v'.fresh p = v.fresh p → (∀ c, holder d = .client p c → c = .leaving) → Done v holder p := by
    intro fresh stays
    refine ⟨fresh ▸ done.1,fun e c held => ?_⟩
    by_cases same : e = d
    · subst same; exact stays c held
    · exact done.2 e c (by simpa [same] using held)
  have after : ∀ c, now = .client p c → c = .leaving := fun c held => done.2 d c (by simpa using held)
  cases step with
  | opens | reserves =>
    obtain ⟨before,rfl⟩ := moves
    exact Or.inl (here rfl (by simp [before]))
  | enters | rests | reads | lingers | closes =>
    cases moves
    exact Or.inl (here rfl after)
  | @assigns d q | @claims d q =>
    obtain ⟨before,rfl⟩ := moves
    have differs : p ≠ q := by rintro rfl; simpa using after .assigned rfl
    exact Or.inl (here (by simp [differs]) (by rcases before with before | before <;> simp [before]))
  | arrives | posts =>
    obtain ⟨before,rfl⟩ := moves
    refine Or.inl (here rfl ?_)
    rw [before]
    intro c held
    cases held
    simpa using after _ rfl
  | calls _ _ woken =>
    obtain ⟨before,rfl⟩ := moves
    refine Or.inl (here (by simpa using congrFun woken.fresh p) ?_)
    rw [before]
    intro c held
    cases held
    simpa using after _ rfl
  | @leaves q d v' _ _ woken =>
    obtain ⟨before,rfl⟩ := moves
    by_cases same : q = p
    · exact Or.inr (by rw [same])
    · refine Or.inl (here (by simpa using congrFun woken.fresh p) ?_)
      rw [before]
      intro c held
      cases held
      exact absurd rfl same
  | answers _ woken =>
    obtain ⟨q,before,rfl⟩ := moves
    refine Or.inl (here (by simpa using congrFun woken.fresh p) ?_)
    rw [before]
    intro c held
    cases held
    simpa using after _ rfl
  | goes =>
    obtain ⟨before,rfl⟩ := moves
    refine Or.inl (here rfl ?_)
    rw [before]
    intro c held
    cases held
    rfl
  | dismisses =>
    obtain ⟨q,before,rfl⟩ := moves
    exact Or.inl (here rfl (by simp [before]))

end Rendezvous
