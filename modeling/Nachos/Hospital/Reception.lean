import Nachos.Library.Tally
import Nachos.Hospital.Stations

-- Patients and receptionists, seen apart from the rest of the hospital.
namespace Nachos.Hospital.Reception
open Monitor Tally

-- A patient from the Signal that calls it out of the line to the token.
inductive Walk where
  | woken
  | walking
  | atDesk
  | waiting
  | answered
  deriving DecidableEq

inductive Stage (R : Nat) where
  | arriving
  | queueing (r : Fin R)
  | inLine (r : Fin R)
  | called (r : Fin R) (walk : Walk)
  | served
  deriving DecidableEq

@[ext] structure View (R N : Nat) where
  clerk : Fin R → ReceptionistPc
  resting : Fin R → Bool
  bucket : Fin R → Int
  lineLength : Fin R → Int
  next : Int
  stage : Fin N → Stage R
  token : Fin N → Int

variable {n : Counts}

def stageOf : PatientPc n → Bool → Stage n.numberOfReceptionists
  | .reception .start,_ | .reception .lineAcquired,_ => .arriving
  | .reception (.lineEmptySignalled r),_ => .queueing r
  | .reception (.lineFullWaited r),true => .inLine r
  | .reception (.lineFullWaited r),false => .called r .woken
  | .reception (.lineReleased r),_ => .called r .walking
  | .reception (.deskAcquired r),_ => .called r .atDesk
  | .reception (.tokenWaited r),true => .called r .waiting
  | .reception (.tokenWaited r),false => .called r .answered
  | _,_ => .served

def view (s : State n) (asleep : ThreadId n → Bool) : View n.numberOfReceptionists n.numberOfPatients where
  clerk := s.receptionist
  resting r := asleep (.receptionist r)
  bucket := s.reception.receptionistTokenBucket
  lineLength := s.reception.receptionistLineLength
  next := s.reception.nextReceptionistToken
  stage p := stageOf (s.patient p).pc (asleep (.patient p))
  token p := (s.patient p).myPatientToken

-- What passes between a receptionist and its patients.
inductive Handed (N : Nat) where
  | called (p : Fin N)
  | placed (token : Int)
  | taken (p : Fin N) (token : Int)
  deriving DecidableEq

variable {R N : Nat}

-- A Signal on receptionist_cv[r].
inductive Wakes (v : View R N) (r : Fin R) : View R N → Prop where
  | clerk : v.resting r = true → v.clerk r = .bucketWaited ∨ v.clerk r = .tokenWaited →
      Wakes v r {v with resting := Function.update v.resting r false}
  | patient : v.stage p = .called r .waiting → Wakes v r {v with stage := Function.update v.stage p (.called r .answered)}
  | nobody : (v.clerk r = .bucketWaited ∨ v.clerk r = .tokenWaited → v.resting r = false) →
      (∀ p, v.stage p ≠ .called r .waiting) → Wakes v r v

inductive Step (v : View R N) : Option (Fin R × Handed N) → View R N → Prop where
  | joins : v.stage p = .arriving →
      Step v none {v with
        lineLength := Function.update v.lineLength r (v.lineLength r + 1)
        stage := Function.update v.stage p (.queueing r)
        resting := if v.clerk r = .lineEmptyWaited then Function.update v.resting r false else v.resting}
  | linesUp : v.stage p = .queueing r → Step v none {v with stage := Function.update v.stage p (.inLine r)}
  | leavesLine : v.stage p = .called r .woken →
      Step v none {v with
        lineLength := Function.update v.lineLength r (v.lineLength r - 1)
        stage := Function.update v.stage p (.called r .walking)}
  | walks : v.stage p = .called r .walking → Step v none {v with stage := Function.update v.stage p (.called r .atDesk)}
  | waits : v.stage p = .called r .atDesk ∨ v.stage p = .called r .answered → v.bucket r = -1 →
      v.clerk r ≠ .tokenAccessAcquired → Step v none {v with stage := Function.update v.stage p (.called r .waiting)}
  | takes : v.stage p = .called r .atDesk ∨ v.stage p = .called r .answered → v.bucket r ≠ -1 →
      v.clerk r ≠ .tokenAccessReleased → v.clerk r ≠ .tokenSignalled →
      Wakes {v with
        bucket := Function.update v.bucket r (-1)
        stage := Function.update v.stage p .served
        token := Function.update v.token p (v.bucket r)} r v' →
      Step v (some (r,.taken p (v.bucket r))) v'
  | rests : v.clerk r = .lineAcquired ∨ v.clerk r = .lineEmptyWaited → v.lineLength r = 0 →
      Step v none {v with
        clerk := Function.update v.clerk r .lineEmptyWaited
        resting := Function.update v.resting r true}
  | calls : v.clerk r = .lineAcquired ∨ v.clerk r = .lineEmptyWaited → v.resting r = false → v.stage p = .inLine r →
      Step v (some (r,.called p)) {v with
        clerk := Function.update v.clerk r .lineFullSignalled
        stage := Function.update v.stage p (.called r .woken)}
  | callsNobody : v.clerk r = .lineAcquired ∨ v.clerk r = .lineEmptyWaited → v.resting r = false →
      v.lineLength r ≠ 0 → (∀ p, v.stage p ≠ .inLine r) → (∀ p q, v.stage p ≠ .queueing q) →
      Step v none {v with clerk := Function.update v.clerk r .lineFullSignalled}
  | clerkWaits : v.clerk r = .deskAcquired ∨ v.clerk r = .bucketWaited → v.bucket r ≠ -1 →
      Step v none {v with
        clerk := Function.update v.clerk r .bucketWaited
        resting := Function.update v.resting r true}
  | clerkEnters : v.clerk r = .deskAcquired ∨ v.clerk r = .bucketWaited → v.bucket r = -1 → v.resting r = false →
      Step v none {v with clerk := Function.update v.clerk r .tokenAccessAcquired}
  | places : v.clerk r = .tokenAccessAcquired →
      Step v (some (r,.placed v.next)) {v with
        clerk := Function.update v.clerk r .tokenAccessReleased
        bucket := Function.update v.bucket r v.next
        next := v.next + 1}
  | tells : v.clerk r = .tokenAccessReleased →
      Wakes {v with clerk := Function.update v.clerk r .tokenSignalled} r v' → Step v none v'
  | sleeps : v.clerk r = .tokenSignalled ∨ v.clerk r = .tokenWaited → v.resting r = false → v.bucket r ≠ -1 →
      Step v none {v with
        clerk := Function.update v.clerk r .tokenWaited
        resting := Function.update v.resting r true}
  | leavesDesk : v.clerk r = .tokenSignalled ∨ v.clerk r = .tokenWaited → v.resting r = false → v.bucket r = -1 →
      Step v none {v with clerk := Function.update v.clerk r .deskReleased}
  -- The moves of a receptionist that touch nothing else.
  | passes : (v.clerk r,pc) ∈ [(.loop,.lineAcquired),(.lineFullSignalled,.lineReleased),(.lineReleased,.deskAcquired),
        (.deskReleased,.lineReacquired),(.lineReacquired,.loop),(.breakWaited,.loop)] → v.resting r = false →
      Step v none {v with clerk := Function.update v.clerk r pc}
  | offBreak : v.clerk r = .breakWaited → Step v none {v with resting := Function.update v.resting r false}

-- Which moments of the two sides go together: the receptionist, whether it
-- sleeps, whether its bucket is full, and the patient it called.
def Serves : ReceptionistPc → Bool → Bool → Option (Fin N × Walk) → Prop
  | .loop,_,full,walk | .lineAcquired,_,full,walk | .lineEmptyWaited,_,full,walk | .deskReleased,_,full,walk
  | .lineReacquired,_,full,walk => full = false ∧ walk = none
  | .lineFullSignalled,_,full,walk | .lineReleased,_,full,walk | .deskAcquired,_,full,walk
  | .tokenAccessAcquired,_,full,walk => full = false ∧ ∃ p w, walk = some (p,w) ∧ w ≠ .answered
  | .tokenAccessReleased,_,full,walk => full = true ∧ ∃ p w, walk = some (p,w) ∧ w ≠ .answered
  | .tokenSignalled,_,full,walk | .tokenWaited,true,full,walk =>
    full = true ∧ ∃ p w, walk = some (p,w) ∧ w ≠ .waiting
  | .tokenWaited,false,full,walk => full = false ∧ walk = none
  | .bucketWaited,_,_,_ | .breakWaited,_,_,_ => False

-- `walk` is the patient each receptionist called last and serves now.
structure Joint (v : View R N) (walk : Fin R → Option (Fin N × Walk)) : Prop where
  calls : ∀ p r w, v.stage p = .called r w ↔ walk r = some (p,w)
  serves : ∀ r, Serves (v.clerk r) (v.resting r) (v.bucket r ≠ -1) (walk r)
  rests : ∀ r, v.resting r = true → v.clerk r = .lineEmptyWaited ∨ v.clerk r = .tokenWaited

theorem Serves.moves (serves : Serves pc resting full (some (p,w))) (before : w ≠ .waiting) (after : w' ≠ .waiting)
    (one : w ≠ .answered) (two : w' ≠ .answered) : Serves pc resting full (some ((q : Fin N),w')) := by
  cases pc <;> cases resting <;> simp_all [Serves]

theorem Serves.waits (serves : Serves pc resting false (some (p,w))) :
    Serves pc resting false (some ((q : Fin N),.waiting)) := by
  cases pc <;> cases resting <;> simp_all [Serves]

-- A patient that finds a token finds its receptionist asleep for it.
theorem Serves.full (serves : Serves pc resting true (some ((p : Fin N),w))) (released : pc ≠ .tokenAccessReleased)
    (signalled : pc ≠ .tokenSignalled) : pc = .tokenWaited ∧ resting = true := by
  cases pc <;> cases resting <;> simp_all [Serves]

-- One desk changes, the others stay as they are.
theorem serves_at {v v' : View R N} (joint : Joint v walk) (r : Fin R)
    (others : ∀ q, q ≠ r → v'.clerk q = v.clerk q ∧ v'.resting q = v.resting q ∧ v'.bucket q = v.bucket q)
    (here : Serves (v'.clerk r) (v'.resting r) (v'.bucket r ≠ -1) now) (q : Fin R) :
    Serves (v'.clerk q) (v'.resting q) (v'.bucket q ≠ -1) (Function.update walk r now q) := by
  by_cases same : q = r
  · subst same
    simpa using here
  · obtain ⟨one,two,three⟩ := others q same
    simpa [same,one,two,three] using joint.serves q

-- One desk changes, and the patients that are called fit.
theorem Joint.changes {v v' : View R N} (joint : Joint v walk) (r : Fin R)
    (calls : ∀ p d w, v'.stage p = .called d w ↔ Function.update walk r now d = some (p,w))
    (others : ∀ q, q ≠ r → v'.clerk q = v.clerk q ∧ v'.resting q = v.resting q ∧ v'.bucket q = v.bucket q)
    (here : Serves (v'.clerk r) (v'.resting r) (v'.bucket r ≠ -1) now)
    (rests : v'.resting r = true → v'.clerk r = .lineEmptyWaited ∨ v'.clerk r = .tokenWaited) :
    Joint v' (Function.update walk r now) := by
  refine ⟨calls,serves_at joint r others here,?_⟩
  intro q resting
  by_cases same : q = r
  · subst same
    exact rests resting
  · obtain ⟨one,two,_⟩ := others q same
    rw [one]
    exact joint.rests q (two ▸ resting)

theorem Joint.same {v v' : View R N} (joint : Joint v walk) (r : Fin R) (stage : v'.stage = v.stage)
    (others : ∀ q, q ≠ r → v'.clerk q = v.clerk q ∧ v'.resting q = v.resting q ∧ v'.bucket q = v.bucket q)
    (here : Serves (v'.clerk r) (v'.resting r) (v'.bucket r ≠ -1) (walk r))
    (rests : v'.resting r = true → v'.clerk r = .lineEmptyWaited ∨ v'.clerk r = .tokenWaited) :
    Joint v' (Function.update walk r (walk r)) := by
  refine joint.changes r ?_ others here rests
  rw [stage,Function.update_eq_self]
  exact joint.calls

section
variable {stage : Fin N → Stage R} {walk : Fin R → Option (Fin N × Walk)} {p : Fin N} {r : Fin R} {now : Stage R}

-- The patient of a desk goes on with its visit, leaves, or is called; or another one moves.
theorem calls_moves (calls : ∀ p r w, stage p = .called r w ↔ walk r = some (p,w)) (present : walk r = some (p,w)) (w' : Walk) :
    ∀ q d c, Function.update stage p (.called r w') q = .called d c ↔ Function.update walk r (some (p,w')) d = some (q,c) := by
  have there := (calls p r w).mpr present
  grind -ring -linarith

theorem calls_leaves (calls : ∀ p r w, stage p = .called r w ↔ walk r = some (p,w)) (present : walk r = some (p,w))
    (outside : ∀ d c, now ≠ .called d c) :
    ∀ q d c, Function.update stage p now q = .called d c ↔ Function.update walk r none d = some (q,c) := by
  have there := (calls p r w).mpr present
  grind -ring -linarith

theorem calls_new (calls : ∀ p r w, stage p = .called r w ↔ walk r = some (p,w)) (before : ∀ d c, stage p ≠ .called d c)
    (nobody : walk r = none) (w : Walk) :
    ∀ q d c, Function.update stage p (.called r w) q = .called d c ↔ Function.update walk r (some (p,w)) d = some (q,c) := by
  grind -ring -linarith

theorem calls_elsewhere (calls : ∀ p r w, stage p = .called r w ↔ walk r = some (p,w)) (before : ∀ d c, stage p ≠ .called d c)
    (outside : ∀ d c, now ≠ .called d c) : ∀ q d c, Function.update stage p now q = .called d c ↔ walk d = some (q,c) := by
  grind -ring -linarith

end

-- The patients that receptionist_line_length[r] counts.
def inLength (r : Fin R) : Stage R → Bool
  | .queueing q | .inLine q | .called q .woken => q = r
  | _ => false

theorem inLength_cases (counted : inLength r stage = true) :
    stage = .queueing r ∨ stage = .inLine r ∨ stage = .called r .woken := by
  cases stage with
  | called q walk => cases walk <;> simp_all [inLength]
  | _ => simp_all [inLength]

structure Lengths (v : View R N) : Prop where
  length : ∀ r, v.lineLength r = tally fun p => inLength r (v.stage p)
  idle : ∀ r, v.clerk r = .lineEmptyWaited → v.resting r = true → v.lineLength r = 0
  next : 0 ≤ v.next

theorem Joint.idle {v : View R N} (joint : Joint v walk)
    (pc : v.clerk r = .lineAcquired ∨ v.clerk r = .lineEmptyWaited) : v.bucket r = -1 ∧ walk r = none := by
  have serves := joint.serves r
  rcases pc with pc | pc <;> simpa [pc,Serves] using serves

-- Where the hand-over of a token stands.
inductive Deal (N : Nat) where
  | free
  | calling (p : Fin N)
  | filled (p : Fin N) (token : Int)

def deal (v : View R N) (walk : Fin R → Option (Fin N × Walk)) (r : Fin R) : Deal N :=
  match walk r with
  | none => .free
  | some (p,_) => if v.bucket r = -1 then .calling p else .filled p (v.bucket r)

inductive Passes : Deal N → Handed N → Deal N → Prop where
  | called : Passes .free (.called p) (.calling p)
  | placed : Passes (.calling p) (.placed token) (.filled p token)
  | taken : Passes (.filled p token) (.taken p token) .free

def Deals (before after : Fin R → Deal N) : Option (Fin R × Handed N) → Prop
  | none => ∀ r, after r = before r
  | some (r,handed) => Passes (before r) handed (after r) ∧ ∀ q, q ≠ r → after q = before q

theorem deal_other {v v' : View R N} {q : Fin R} (bucket : v'.bucket q = v.bucket q)
    (customer : walk' q = walk q) :
    deal v' walk' q = deal v walk q := by
  simp [deal,bucket,customer]

-- The patient moves, the deal stays.
theorem deal_moves {v v' : View R N} (present : walk r = some (p,w)) (bucket : v'.bucket = v.bucket) (w' : Walk) :
    Deals (deal v walk) (deal v' (Function.update walk r (some (p,w')))) none := by
  intro q
  by_cases same : q = r
  · subst same
    simp [deal,present,bucket]
  · exact deal_other (by rw [bucket]) (by simp [same])

theorem deal_stays {v v' : View R N} (bucket : v'.bucket = v.bucket) (r : Fin R) :
    Deals (deal v walk) (deal v' (Function.update walk r (walk r))) none := by
  intro q
  exact deal_other (by rw [bucket]) (by simp)

theorem step_joint {v : View R N} (joint : Joint v walk) (lengths : Lengths v) (step : Step v label v') :
    ∃ walk', Joint v' walk' ∧ Deals (deal v walk) (deal v' walk') label := by
  have calls := joint.calls
  have serves := joint.serves
  have rests := joint.rests
  cases step with
  | @joins p r arriving =>
    refine ⟨walk,⟨calls_elsewhere calls (by simp [arriving]) (by simp),?_,?_⟩,fun q => deal_other rfl rfl⟩
    · intro q
      have here := serves q
      by_cases same : q = r
      · subst same
        split
        · rename_i pc
          simpa [pc,Serves] using here
        · exact here
      · split
        · simpa [same] using here
        · exact here
    · intro q resting
      by_cases same : q = r
      · subst same
        split at resting
        · simp at resting
        · exact rests q resting
      · refine rests q ?_
        split at resting
        · simpa [same] using resting
        · exact resting
  | linesUp queueing =>
    exact ⟨walk,⟨calls_elsewhere calls (by simp [queueing]) (by simp),serves,rests⟩,fun q => deal_other rfl rfl⟩
  | @leavesLine p r called =>
    have here := serves r
    have present := (calls p r _).mp called
    rw [present] at here
    exact ⟨_,⟨calls_moves calls present .walking,serves_at joint r (by simp)
      (here.moves (by simp) (by simp) (by simp) (by simp)),rests⟩,deal_moves present rfl .walking⟩
  | @walks p r called =>
    have here := serves r
    have present := (calls p r _).mp called
    rw [present] at here
    exact ⟨_,⟨calls_moves calls present .atDesk,serves_at joint r (by simp)
      (here.moves (by simp) (by simp) (by simp) (by simp)),rests⟩,deal_moves present rfl .atDesk⟩
  | @waits p r called empty =>
    have here := serves r
    obtain ⟨w,present⟩ : ∃ w, walk r = some (p,w) := by
      rcases called with called | called <;> exact ⟨_,(calls p r _).mp called⟩
    simp only [present,empty] at here
    refine ⟨_,⟨calls_moves calls present .waiting,serves_at joint r (by simp) ?_,rests⟩,deal_moves present rfl .waiting⟩
    simpa [empty] using here.waits
  | @takes p r v' called full notReleased notSignalled wakes =>
    have here := serves r
    obtain ⟨w,present⟩ : ∃ w, walk r = some (p,w) := by
      rcases called with called | called <;> exact ⟨_,(calls p r _).mp called⟩
    simp only [present,full,ne_eq,not_false_eq_true,decide_true] at here
    -- The receptionist sleeps until this Signal.
    have resting := here.full notReleased notSignalled
    cases wakes with
    | clerk =>
      refine ⟨_,joint.changes r (calls_leaves calls present (by simp)) (by intro q other; simp [other]) ?_ (by simp),
        ?_,?_⟩
      · simp [resting.1,Serves]
      · simpa [deal,present,full] using .taken
      · intro q other
        exact deal_other (by simp [other]) (by simp [other])
    | @patient q waiting =>
      by_cases same : q = p
      · simp [same] at waiting
      · have other := (calls q r _).mp (by simpa [same] using waiting)
        simp [present,Ne.symm same] at other
    | nobody awake => simp [resting] at awake
  | @rests r pc empty =>
    obtain ⟨bucket,nobody⟩ := joint.idle pc
    refine ⟨_,joint.same r rfl (by intro q other; simp [other]) ?_ (by simp),deal_stays rfl r⟩
    simp [bucket,nobody,Serves]
  | @calls r p pc awake inLine =>
    obtain ⟨bucket,nobody⟩ := joint.idle pc
    refine ⟨_,joint.changes r (calls_new calls (by simp [inLine]) nobody .woken) (by intro q other; simp [other]) ?_ (by simp [awake]),
      ?_,?_⟩
    · simp [bucket,Serves]
    · simpa [deal,nobody,bucket] using .called
    · intro q other
      exact deal_other rfl (by simp [other])
  | @callsNobody r pc awake some_ nobody noQueueing =>
    obtain ⟨bucket,unserved⟩ := joint.idle pc
    have positive : 0 < tally fun p => inLength r (v.stage p) := by
      have length := lengths.length r
      omega
    obtain ⟨p,counted⟩ := tally_pos.mp positive
    rcases inLength_cases counted with queueing | inLine | called
    · exact absurd queueing (noQueueing p r)
    · exact absurd inLine (nobody p)
    · rw [(calls p r _).mp called] at unserved
      cases unserved
  | @clerkWaits r pc full =>
    have here := serves r
    rcases pc with pc | pc <;> simp [pc,full,Serves] at here
  | @clerkEnters r pc empty awake =>
    have here := serves r
    refine ⟨_,joint.same r rfl (by intro q other; simp [other]) ?_ (by simp [awake]),deal_stays rfl r⟩
    rcases pc with pc | pc <;> simp [pc,empty,Serves] at here ⊢
    exact here
  | @places r pc =>
    have here := serves r
    have awake := rests r
    have next := lengths.next
    simp only [pc,Serves,ne_eq,decide_not,Bool.not_eq_eq_eq_not,Bool.not_false,decide_eq_true_eq] at here
    obtain ⟨empty,p,w,present,unanswered⟩ := here
    refine ⟨_,joint.same r rfl (by intro q other; simp [other]) ?_ ?_,?_,?_⟩
    · simpa [present,Serves] using ⟨by omega,unanswered⟩
    · simpa [pc] using awake
    · have full : v.next ≠ -1 := by omega
      simpa [deal,present,empty,full] using .placed
    · intro q other
      exact deal_other (by simp [other]) (by simp)
  | @tells r v' pc wakes =>
    have here := serves r
    have awake := rests r
    simp only [pc,Serves] at here
    obtain ⟨full,p,w,present,unanswered⟩ := here
    cases wakes with
    | clerk _ waited => simp at waited
    | @patient q waiting =>
      obtain ⟨rfl,rfl⟩ : p = q ∧ w = .waiting := by simpa [present] using (calls q r _).mp waiting
      refine ⟨_,joint.changes r (calls_moves calls present .answered) (by intro q other; simp [other]) ?_ ?_,
        deal_moves present rfl .answered⟩
      · simpa [Serves] using full
      · simpa [pc] using awake
    | nobody _ nobody =>
      refine ⟨_,joint.same r rfl (by intro q other; simp [other]) ?_ ?_,deal_stays rfl r⟩
      · have called := (calls p r w).mpr present
        simp only [Function.update_self,Serves]
        exact ⟨full,p,w,present,by rintro rfl; exact nobody p called⟩
      · simpa [pc] using awake
  | @sleeps r pc awake full =>
    have here := serves r
    refine ⟨_,joint.same r rfl (by intro q other; simp [other]) ?_ (by simp),deal_stays rfl r⟩
    rcases pc with pc | pc <;> simp [pc,awake,full,Serves] at here ⊢
    exact here
  | @leavesDesk r pc awake empty =>
    have here := serves r
    refine ⟨_,joint.same r rfl (by intro q other; simp [other]) ?_ (by simp [awake]),deal_stays rfl r⟩
    rcases pc with pc | pc <;> simp [pc,awake,empty,Serves] at here ⊢
    exact here
  | @passes r pc' pair awake =>
    have here := serves r
    refine ⟨_,joint.same r rfl (by intro q other; simp [other]) ?_ (by simp [awake]),deal_stays rfl r⟩
    simp only [List.mem_cons,Prod.mk.injEq,List.not_mem_nil,or_false] at pair
    rcases pair with ⟨pc,rfl⟩ | ⟨pc,rfl⟩ | ⟨pc,rfl⟩ | ⟨pc,rfl⟩ | ⟨pc,rfl⟩ | ⟨pc,rfl⟩ <;>
      simp [pc,Serves] at here ⊢ <;> exact here
  | @offBreak r pc =>
    have here := serves r
    simp [pc,Serves] at here

theorem length_moves {v : View R N} (lengths : Lengths v) (p : Fin N) (stage : Stage R) (r : Fin R) :
    ((tally fun q => inLength r (Function.update v.stage p stage q)) : Int) =
      v.lineLength r + (if inLength r stage then 1 else 0) - (if inLength r (v.stage p) then 1 else 0) := by
  have moved := tally_update v.stage (inLength r) p stage
  have length := lengths.length r
  split at moved <;> split at moved <;> simp_all
  all_goals omega

-- Only a Signal that finds the receptionist asleep ends its rest.
theorem wakes_lengths {v v' : View R N} (wakes : Wakes v r v') (lengths : Lengths v) : Lengths v' := by
  obtain ⟨length,idle,next⟩ := lengths
  cases wakes with
  | clerk => exact ⟨length,by grind -ring -linarith,next⟩
  | @patient p waiting =>
    refine ⟨?_,idle,next⟩
    intro q
    rw [length_moves ⟨length,idle,next⟩]
    simp [waiting,inLength]
  | nobody => exact ⟨length,idle,next⟩

theorem step_lengths {v : View R N} (joint : Joint v walk) (lengths : Lengths v) (step : Step v label v') : Lengths v' := by
  have moves := length_moves lengths
  obtain ⟨length,idle,next⟩ := lengths
  cases step with
  | @joins p r arriving =>
    refine ⟨?_,?_,next⟩
    · intro q
      rw [moves]
      by_cases same : q = r
      · simp [same,arriving,inLength]
      · simp [same,Ne.symm same,arriving,inLength]
    · intro q pc resting
      by_cases same : q = r
      · subst same
        simp_all
      · simp only [Function.update_of_ne same]
        refine idle q pc ?_
        split at resting <;> simp_all
  | linesUp queueing =>
    refine ⟨?_,idle,next⟩
    intro q
    rw [moves]
    simp [queueing,inLength]
  | @leavesLine p r called =>
    refine ⟨?_,?_,next⟩
    · intro q
      rw [moves]
      by_cases same : q = r
      · simp [same,called,inLength]
      · simp [same,Ne.symm same,called,inLength]
    · intro q pc resting
      by_cases same : q = r
      · subst same
        have here := joint.serves q
        rw [(joint.calls p q _).mp called] at here
        simp_all [Serves]
      · simpa [same] using idle q pc resting
  | walks called =>
    refine ⟨?_,idle,next⟩
    intro q
    rw [moves]
    simp [called,inLength]
  | waits called =>
    refine ⟨?_,idle,next⟩
    intro q
    rw [moves]
    rcases called with called | called <;> simp [called,inLength]
  | @takes p r v' called full notReleased notSignalled wakes =>
    refine wakes_lengths wakes ⟨?_,idle,next⟩
    intro q
    simp only
    rw [moves]
    rcases called with called | called <;> simp [called,inLength]
  | @rests r pc empty => exact ⟨length,by grind -ring -linarith,next⟩
  | @calls r p pc awake inLine =>
    refine ⟨?_,by grind -ring -linarith,next⟩
    intro q
    rw [moves]
    simp [inLine,inLength]
  | callsNobody => exact ⟨length,by grind -ring -linarith,next⟩
  | clerkWaits => exact ⟨length,by grind -ring -linarith,next⟩
  | clerkEnters => exact ⟨length,by grind -ring -linarith,next⟩
  | places => exact ⟨length,by grind -ring -linarith,by simp only; omega⟩
  | tells pc wakes => exact wakes_lengths wakes ⟨length,by grind -ring -linarith,next⟩
  | sleeps => exact ⟨length,by grind -ring -linarith,next⟩
  | leavesDesk => exact ⟨length,by grind -ring -linarith,next⟩
  | passes pair => exact ⟨length,by grind -ring -linarith,next⟩
  | offBreak => exact ⟨length,by grind -ring -linarith,next⟩

-- The patients a token has been placed for.
def granted (v : View R N) (p : Fin N) : Bool :=
  match v.stage p with
  | .served => true
  | .called r _ => v.bucket r ≠ -1
  | _ => false

structure Tokens (v : View R N) : Prop where
  fresh : ∀ p, v.token p = -2 ↔ v.stage p ≠ .served
  held : ∀ p, v.stage p = .served → 0 ≤ v.token p ∧ v.token p < v.next
  bucket : ∀ r, v.bucket r ≠ -1 → 0 ≤ v.bucket r ∧ v.bucket r < v.next
  distinct : ∀ p q, v.stage p = .served → v.stage q = .served → v.token p = v.token q → p = q
  apart : ∀ p r, v.stage p = .served → v.bucket r ≠ -1 → v.token p ≠ v.bucket r
  buckets : ∀ q r, v.bucket q ≠ -1 → v.bucket q = v.bucket r → q = r
  granted : v.next = tally (granted v)

-- A step that hands nothing over.
theorem Tokens.moves {v v' : View R N} (tokens : Tokens v) (next : v'.next = v.next) (bucket : v'.bucket = v.bucket)
    (token : v'.token = v.token) (served : ∀ p, v'.stage p = .served ↔ v.stage p = .served)
    (same : ∀ p, Reception.granted v' p = Reception.granted v p) : Tokens v' := by
  obtain ⟨fresh,held,buckets,distinct,apart,differ,count⟩ := tokens
  refine ⟨?_,?_,?_,?_,?_,?_,?_⟩
  · simpa only [token,ne_eq,served] using fresh
  · simpa only [token,next,served] using held
  · simpa only [bucket,next] using buckets
  · simpa only [token,served] using distinct
  · simpa only [token,bucket,served] using apart
  · simpa only [bucket] using differ
  · rw [next,count,tally_congr same]

theorem stage_served {stage : Fin N → Stage R} (before : stage p ≠ .served) (after : now ≠ .served) (q : Fin N) :
    Function.update stage p now q = .served ↔ stage q = .served := by
  by_cases same : q = p
  · subst same; simp [before,after]
  · simp [same]

theorem wakes_tokens {v v' : View R N} (wakes : Wakes v r v') (tokens : Tokens v) : Tokens v' := by
  cases wakes with
  | clerk => exact tokens.moves rfl rfl rfl (fun _ => Iff.rfl) (fun _ => rfl)
  | @patient p waiting =>
    refine tokens.moves rfl rfl rfl (stage_served (by simp [waiting]) (by simp)) ?_
    intro q
    by_cases same : q = p
    · subst same; simp [granted,waiting]
    · simp [granted,same]
  | nobody => exact tokens

theorem Joint.only {v : View R N} (joint : Joint v walk) (one : v.stage p = .called r w)
    (two : v.stage q = .called r w') : q = p := by
  have first := (joint.calls p r w).mp one
  rw [(joint.calls q r w').mp two] at first
  simp_all

-- The token moves from the bucket to the patient.
theorem takes_tokens {v : View R N} (joint : Joint v walk) (tokens : Tokens v) (called : v.stage p = .called r w)
    (full : v.bucket r ≠ -1) :
    Tokens {v with
      bucket := Function.update v.bucket r (-1)
      stage := Function.update v.stage p .served
      token := Function.update v.token p (v.bucket r)} := by
  have only : ∀ q w', v.stage q = .called r w' → q = p := fun q w' other => joint.only called other
  obtain ⟨fresh,held,buckets,distinct,apart,differ,count⟩ := tokens
  refine ⟨?_,?_,?_,?_,?_,?_,?_⟩
  · grind -ring -linarith
  · grind -ring -linarith
  · grind -ring -linarith
  · grind -ring -linarith
  · grind -ring -linarith
  · grind -ring -linarith
  · rw [count]
    refine congrArg _ (tally_congr ?_)
    intro q
    by_cases same : q = p
    · subst same; simp [granted,called,full]
    · have others := only q
      simp only [granted,Function.update_of_ne same]
      cases stage : v.stage q with
      | called r' w' =>
        have differs : r' ≠ r := by rintro rfl; exact same (others w' stage)
        simp [differs]
      | _ => rfl

-- A new token, for a patient that had none.
theorem places_tokens {v : View R N} (joint : Joint v walk) (tokens : Tokens v) (called : v.stage p = .called r w)
    (empty : v.bucket r = -1) :
    Tokens {v with bucket := Function.update v.bucket r v.next, next := v.next + 1} := by
  have only : ∀ q w', v.stage q = .called r w' → q = p := fun q w' other => joint.only called other
  obtain ⟨fresh,held,buckets,distinct,apart,differ,count⟩ := tokens
  refine ⟨fresh,?_,?_,distinct,?_,?_,?_⟩
  · grind -ring -linarith
  · grind -ring -linarith
  · grind -ring -linarith
  · grind -ring -linarith
  · have gained := tally_gain (P := granted v)
      (Q := granted {v with bucket := Function.update v.bucket r v.next, next := v.next + 1}) p
      (by simp [granted,called,empty]) (by simp [granted,called]; omega) ?_
    · rw [gained,count]
      simp
    · intro q other
      have others := only q
      simp only [granted]
      cases stage : v.stage q with
      | called r' w' =>
        have differs : r' ≠ r := by rintro rfl; exact other (others w' stage)
        simp [differs]
      | _ => rfl

theorem step_tokens {v : View R N} (joint : Joint v walk) (tokens : Tokens v) (step : Step v label v') : Tokens v' := by
  have stays : ∀ p r w w', v.stage p = .called r w →
      Tokens {v with stage := Function.update v.stage p (.called r w')} := by
    intro p r w w' called
    refine tokens.moves rfl rfl rfl (stage_served (by simp [called]) (by simp)) ?_
    intro q
    by_cases same : q = p
    · subst same; simp [granted,called]
    · simp [granted,same]
  cases step with
  | @joins p r arriving =>
    refine tokens.moves rfl rfl rfl (stage_served (by simp [arriving]) (by simp)) ?_
    intro q
    by_cases same : q = p
    · subst same; simp [granted,arriving]
    · simp [granted,same]
  | @linesUp p r queueing =>
    refine tokens.moves rfl rfl rfl (stage_served (by simp [queueing]) (by simp)) ?_
    intro q
    by_cases same : q = p
    · subst same; simp [granted,queueing]
    · simp [granted,same]
  | leavesLine called => exact (stays _ _ _ .walking called).moves rfl rfl rfl (fun _ => Iff.rfl) (fun _ => rfl)
  | walks called => exact stays _ _ _ _ called
  | waits called =>
    rcases called with called | called <;> exact stays _ _ _ _ called
  | @takes p r v' called full notReleased notSignalled wakes =>
    refine wakes_tokens wakes ?_
    obtain ⟨w,here⟩ : ∃ w, v.stage p = .called r w := by rcases called with called | called <;> exact ⟨_,called⟩
    exact takes_tokens joint tokens here full
  | rests => exact tokens.moves rfl rfl rfl (fun _ => Iff.rfl) (fun _ => rfl)
  | @calls r p pc awake inLine =>
    refine tokens.moves rfl rfl rfl (stage_served (by simp [inLine]) (by simp)) ?_
    obtain ⟨bucket,nobody⟩ := joint.idle pc
    intro q
    by_cases same : q = p
    · subst same; simp [granted,inLine,bucket]
    · simp [granted,same]
  | callsNobody => exact tokens.moves rfl rfl rfl (fun _ => Iff.rfl) (fun _ => rfl)
  | clerkWaits => exact tokens.moves rfl rfl rfl (fun _ => Iff.rfl) (fun _ => rfl)
  | clerkEnters => exact tokens.moves rfl rfl rfl (fun _ => Iff.rfl) (fun _ => rfl)
  | @places r pc =>
    have here := joint.serves r
    simp only [pc,Serves,ne_eq,decide_not,Bool.not_eq_eq_eq_not,Bool.not_false,decide_eq_true_eq] at here
    obtain ⟨empty,p,w,present,_⟩ := here
    have placed := places_tokens joint tokens ((joint.calls p r w).mpr present) empty
    exact placed.moves rfl rfl rfl (fun _ => Iff.rfl) (fun _ => rfl)
  | tells pc wakes =>
    exact wakes_tokens wakes (tokens.moves rfl rfl rfl (fun _ => Iff.rfl) (fun _ => rfl))
  | sleeps => exact tokens.moves rfl rfl rfl (fun _ => Iff.rfl) (fun _ => rfl)
  | leavesDesk => exact tokens.moves rfl rfl rfl (fun _ => Iff.rfl) (fun _ => rfl)
  | passes => exact tokens.moves rfl rfl rfl (fun _ => Iff.rfl) (fun _ => rfl)
  | offBreak => exact tokens.moves rfl rfl rfl (fun _ => Iff.rfl) (fun _ => rfl)

-- Every token is taken by the patient called for it before the next call.
def Complete : List (Handed N) → Prop
  | [] => True
  | .taken p token :: .placed token' :: .called p' :: older => p = p' ∧ token = token' ∧ Complete older
  | _ => False

def Logged : Deal N → List (Handed N) → Prop
  | .free,log => Complete log
  | .calling p,log => ∃ older, log = .called p :: older ∧ Complete older
  | .filled p token,log => ∃ older, log = .placed token :: .called p :: older ∧ Complete older

theorem Passes.logged (passes : Passes before handed after) (logged : Logged before log) :
    Logged (after : Deal N) (handed :: log) := by
  cases passes with
  | called => exact ⟨log,rfl,logged⟩
  | placed =>
    obtain ⟨older,rfl,complete⟩ := logged
    exact ⟨older,rfl,complete⟩
  | taken =>
    obtain ⟨older,rfl,complete⟩ := logged
    exact ⟨rfl,rfl,complete⟩

-- Whole rounds, and at most one that is under way.
def Orderly : List (Handed N) → Prop
  | .called _ :: older => Complete older
  | .placed _ :: .called _ :: older => Complete older
  | log => Complete log

theorem Logged.orderly (logged : Logged now (log : List (Handed N))) : Orderly log := by
  cases now with
  | free =>
    cases log with
    | nil => trivial
    | cons handed older => cases handed <;> simp_all [Logged,Complete,Orderly]
  | calling p =>
    obtain ⟨older,rfl,complete⟩ := logged
    exact complete
  | filled p token =>
    obtain ⟨older,rfl,complete⟩ := logged
    exact complete

end Nachos.Hospital.Reception
