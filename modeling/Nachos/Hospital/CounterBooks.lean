import Nachos.Hospital.CounterDesks

-- What lies on the desks of a counter, and the money that passes over them.
namespace Nachos.Hospital.Counter
open Monitor Tally Rendezvous

variable {n : Counts} (c : Counter n D B X)

-- What a clerk remembers of the patient in front of it.
def remembered : ClerkPc B → Option B
  | .answerSignalled about | .answerWaited about | .paymentAcquired about => some about
  | _ => none

-- What lies on a desk follows from whom it is for.
def Desk (s : State n) (x : X) (about : Option B) : Holder (Fin n.numberOfPatients) → Prop
  | .client p .posted => ∃ old, x = c.posting (s.patient p) old
  | .client p .answered => ∃ old b, about = some b ∧ c.answering s (c.posting (s.patient p) old) = some (b,x)
  | .client p .leaving | .gone p =>
    ∃ old b y, about = some b ∧ c.answering s (c.posting (s.patient p) old) = some (b,y) ∧ x = c.paying y
  | _ => True

-- The moves that put nothing on the desk.
def Quiet : Move P → Prop
  | .stays | .opens | .assigned _ | .moves _ .assigned .entering | .moves _ .entering .calling | .goes _ => True
  | _ => False

-- What both moves do to the desks and the total; `gain` is what is collected.
inductive Effect (s : State n) (tray : Fin D → X) (about : Fin D → Option B) :
    Option (Fin D × Move (Fin n.numberOfPatients)) → (Fin D → X) → (Fin D → Option B) → Int →
    List (Fin D × Paper n.numberOfPatients) → Prop where
  | quiet : (∀ d move, label = some (d,move) → Quiet move) → Effect s tray about label tray about 0 []
  | posts : Effect s tray about (some (d,.moves p .calling .posted))
      (Function.update tray d (c.posting (s.patient p) (tray d))) about 0 []
  | answers : c.answering s (tray d) = some (b,x) →
      Effect s tray about (some (d,.answers)) (Function.update tray d x) (Function.update about d (some b)) 0 []
  | leaves : Effect s tray about (some (d,.moves p .answered .leaving))
      (Function.update tray d (c.paying (tray d))) about 0 [(d,.paid p (c.due (tray d)))]
  | records : about d = some b →
      Effect s tray about (some (d,.closes)) (Function.update tray d (c.recording (tray d)))
        (Function.update about d none) (c.collected b (tray d))
        [(d,.recorded (c.token b) (c.collected b (tray d)))]

section
variable {c} {s s' : State n} {asleep asleep' : ThreadId n → Bool}

theorem clerk_effect (moves : c.ClerkMoves s i (c.pc s i) (c.books s') next op label papers)
    (pcs : c.pc s' = Function.update (c.pc s) i next) :
    ∃ gain, (c.books s').total = (c.books s).total + gain ∧
      c.Effect s (c.books s).tray (fun d => remembered (c.pc s d)) label (c.books s').tray
        (fun d => remembered (c.pc s' d)) gain papers := by
  have about : (fun d => remembered (c.pc s' d)) =
      Function.update (fun d => remembered (c.pc s d)) i (remembered next) := by
    funext d
    by_cases same : d = i
    · subst same; simp [pcs]
    · simp [pcs,same]
  rw [about]
  have stays : remembered next = remembered (c.pc s i) →
      Function.update (fun d => remembered (c.pc s d)) i (remembered next) = fun d => remembered (c.pc s d) :=
    fun same => Function.update_eq_self_iff.mpr same
  generalize place : c.pc s i = before at moves stays
  generalize c.books s' = books at moves ⊢
  cases moves with
  | opens first =>
    rw [stays (by rcases first with rfl | rfl <;> rfl)]
    exact ⟨0,by simp,.quiet (by simp [Quiet])⟩
  | answers answered => exact ⟨0,by simp,.answers answered⟩
  | records => exact ⟨_,rfl,.records (by simp [place,remembered])⟩
  | comes | breaks | enters | leavesLine | rests | lingers | collects | closes =>
    rw [stays rfl]
    exact ⟨0,by simp,.quiet (by simp [Quiet])⟩

theorem visit_effect (moves : c.VisitMoves s p at_ (c.books s') next op label papers) (pcs : c.pc s' = c.pc s) :
    (c.books s').total = (c.books s).total ∧
      c.Effect s (c.books s).tray (fun d => remembered (c.pc s d)) label (c.books s').tray
        (fun d => remembered (c.pc s' d)) 0 papers := by
  rw [pcs]
  generalize c.books s' = books at moves ⊢
  cases moves with
  | posts => exact ⟨rfl,.posts⟩
  | leaves => exact ⟨rfl,.leaves⟩
  | comes | joins | again | claims | claimsAfter | arrives | calls | goes =>
    exact ⟨rfl,.quiet (by simp [Quiet])⟩

-- Nothing that a patient with a desk is asked for changes any more.
structure Steady (c : Counter n D B X) (s s' : State n) (p : Fin n.numberOfPatients) : Prop where
  posting : ∀ x, c.posting (s'.patient p) x = c.posting (s.patient p) x
  answering : ∀ x, c.answering s' (c.posting (s.patient p) x) = c.answering s (c.posting (s.patient p) x)
  price : c.price s' p = c.price s p
  token : (s'.patient p).myPatientToken = (s.patient p).myPatientToken

theorem Desk.steady (steady : ∀ p, holder.patron = some p → c.Steady s s' p) (desk : c.Desk s x about holder) :
    c.Desk s' x about holder := by
  cases holder with
  | client p stage =>
    have same := steady p rfl
    cases stage with
    | posted | answered | leaving => simpa only [Desk,same.posting,same.answering] using desk
    | assigned | entering | calling => trivial
  | gone p =>
    have same := steady p rfl
    simpa only [Desk,same.posting,same.answering] using desk
  | nobody | free | reserved => trivial

def fresh (c : Counter n D B X) (s : State n) (p : Fin n.numberOfPatients) : Bool :=
  freshOf (c.early (s.patient p).pc) (c.visit (s.patient p).pc)

-- Token and price of the patients that have had a desk.
def profile (c : Counter n D B X) (s : State n) (p : Fin n.numberOfPatients) : Option (Int × Int) :=
  if c.fresh s p then none else some ((s.patient p).myPatientToken,c.price s p)

-- Every payment is taken by the clerk, with the token of its patient, before the next one.
def Complete (profile : Fin N → Option (Int × Int)) : List (Paper N) → Prop
  | [] => True
  | .recorded token amount :: .paid p amount' :: older =>
    profile p = some (token,amount) ∧ amount' = amount ∧ Complete profile older
  | _ => False

def Logged (profile : Fin N → Option (Int × Int)) (holder : Holder (Fin N)) (log : List (Paper N)) : Prop :=
  match holder with
  | .client p .leaving | .gone p => ∃ token amount older,
    profile p = some (token,amount) ∧ log = .paid p amount :: older ∧ Complete profile older
  | _ => Complete profile log

theorem Complete.grows {profile profile' : Fin N → Option (Int × Int)}
    (grows : ∀ p x, profile p = some x → profile' p = some x) (complete : Complete profile log) :
    Complete profile' log := by
  fun_induction Complete profile log with
  | case1 => trivial
  | case2 token amount p amount' older ih => exact ⟨grows _ _ complete.1,complete.2.1,ih complete.2.2⟩
  | case3 => exact absurd complete id

theorem Logged.grows {profile profile' : Fin N → Option (Int × Int)}
    (grows : ∀ p x, profile p = some x → profile' p = some x) (logged : Logged profile holder log) :
    Logged profile' holder log := by
  have round : ∀ p, (∃ token amount older, profile p = some (token,amount) ∧ log = .paid p amount :: older ∧
      Complete profile older) → ∃ token amount older, profile' p = some (token,amount) ∧
      log = .paid p amount :: older ∧ Complete profile' older := by
    rintro p ⟨token,amount,older,known,rfl,complete⟩
    exact ⟨token,amount,older,grows _ _ known,rfl,complete.grows grows⟩
  cases holder with
  | client p stage =>
    cases stage with
    | leaving => exact round p logged
    | _ => exact Complete.grows grows logged
  | gone p => exact round p logged
  | _ => exact Complete.grows grows logged

-- What one desk has on paper.
def log (c : Counter n D B X) (d : Fin D) (history : List (Entry (ThreadId n) (LockId n) (ConditionId n) (Event n))) :
    List (Paper n.numberOfPatients) :=
  history.flatMap fun entry => entry.events.filterMap fun event =>
    (c.paper event).bind fun (e,paper) => if e = d then some paper else none

structure Ledger (c : Counter n D B X) (s : State n) (asleep : ThreadId n → Bool)
    (log : Fin D → List (Paper n.numberOfPatients)) (holder : Fin D → Holder (Fin n.numberOfPatients)) : Prop where
  joint : Joint (c.view s asleep).desks holder
  holds : Holds (c.view s asleep)
  desk : ∀ d, c.Desk s ((c.books s).tray d) (remembered (c.pc s d)) (holder d)
  logged : ∀ d, Logged (c.profile s) (holder d) (log d)
  recorded : ∀ t, (∃ d amount, .recorded t amount ∈ log d) ↔
    ∃ p, Settled (c.view s asleep).desks holder p ∧ (s.patient p).myPatientToken = t
  total : (c.books s).total = sumOver (c.price s) (Settled (c.view s asleep).desks holder)

def papersAt (d : Fin D) (papers : List (Fin D × Paper N)) : List (Paper N) :=
  papers.filterMap fun (e,paper) => if e = d then some paper else none

theorem quiet_desk {known : Fin n.numberOfPatients → Option (Int × Int)} (quiet : Quiet move)
    (moves : Moves move before after) (desk : c.Desk s x about before) (logged : Logged known before papers) :
    c.Desk s x about after ∧ Logged known after papers := by
  cases move with
  | stays => cases moves; exact ⟨desk,logged⟩
  | opens => obtain ⟨rfl,rfl⟩ := moves; exact ⟨trivial,logged⟩
  | assigned p => obtain ⟨rfl | rfl,rfl⟩ := moves <;> exact ⟨trivial,logged⟩
  | moves p first next =>
    obtain ⟨rfl,rfl⟩ := moves
    cases first <;> cases next <;> first | exact absurd quiet id | exact ⟨trivial,logged⟩
  | goes p => obtain ⟨rfl,rfl⟩ := moves; exact ⟨desk,logged⟩
  | reserves | answers | closes => exact absurd quiet id

theorem ledger_step {log : Fin D → List (Paper n.numberOfPatients)} (ledger : c.Ledger s asleep log holder)
    (steady : ∀ p, c.fresh s p = false → c.Steady s s' p)
    (step : Step (c.view s asleep) label (c.view s' asleep'))
    (total : (c.books s').total = (c.books s).total + gain)
    (effect : c.Effect s (c.books s).tray (fun d => remembered (c.pc s d)) label (c.books s').tray
      (fun d => remembered (c.pc s' d)) gain papers) :
    ∃ holder', c.Ledger s' asleep' (fun d => papersAt d papers ++ log d) holder' := by
  obtain ⟨holder',after,joint,settled⟩ := step_joint ledger.joint step
  have holds := step_holds ledger.joint ledger.holds step
  have stays : ∀ p, c.fresh s p = false → c.fresh s' p = false := fun p had => step.fresh had
  have grows : ∀ p x, c.profile s p = some x → c.profile s' p = some x := by
    intro p x known
    cases had : c.fresh s p with
    | true => simp [profile,had] at known
    | false => simpa [profile,had,stays p had,(steady p had).token,(steady p had).price] using known
  have desks : ∀ d, c.Desk s' ((c.books s).tray d) (remembered (c.pc s d)) (holder d) :=
    fun d => (ledger.desk d).steady fun p held => steady p (ledger.joint.turn p d held)
  have logs : ∀ d, Logged (c.profile s') (holder d) (log d) := fun d => (ledger.logged d).grows grows
  have worth : ∀ p, Settled (c.view s asleep).desks holder p → c.price s' p = c.price s p :=
    fun p done => (steady p done.1).price
  -- Unless a case is closed, everything on paper stands as before.
  have open_ : (∀ d, label ≠ some (d,.closes)) → gain = 0 →
      (∀ d, papersAt d papers = [] ∨ ∃ p amount, papersAt d papers = [.paid p amount]) →
      (∀ d, c.Desk s' ((c.books s').tray d) (remembered (c.pc s' d)) (holder' d)) →
      (∀ d, Logged (c.profile s') (holder' d) (papersAt d papers ++ log d)) →
      c.Ledger s' asleep' (fun d => papersAt d papers ++ log d) holder' := by
    intro closes none_ paper desk logged
    have same : ∀ p, Settled (c.view s' asleep').desks holder' p ↔ Settled (c.view s asleep).desks holder p := by
      intro p
      rw [settled]
      simp [closes]
    refine ⟨joint,holds,desk,logged,?_,?_⟩
    · intro t
      have entries : ∀ d amount, .recorded t amount ∈ papersAt d papers ++ log d ↔ .recorded t amount ∈ log d := by
        intro d amount
        rcases paper d with nothing | ⟨p,paid,only⟩
        · simp [nothing]
        · simp [only]
      simp only [entries,same,ledger.recorded t]
      refine exists_congr fun p => and_congr_right fun done => ?_
      rw [(steady p done.1).token]
    · rw [total,none_,ledger.total,sumOver_congr same worth]
      simp
  -- One desk changes, the others stay as they are.
  have at_ : ∀ d now x about, holder' = Function.update holder d now →
      (c.books s').tray = Function.update (c.books s).tray d x →
      (fun e => remembered (c.pc s' e)) = Function.update (fun e => remembered (c.pc s e)) d about →
      c.Desk s' x about now → ∀ e, c.Desk s' ((c.books s').tray e) (remembered (c.pc s' e)) (holder' e) := by
    rintro d now x about rfl trays abouts desk e
    rw [trays,congrFun abouts e]
    by_cases same : e = d
    · subst same; simpa using desk
    · simpa [same] using desks e
  have paper : ∀ d now new, holder' = Function.update holder d now → papers = [(d,new)] →
      Logged (c.profile s') now (new :: log d) → ∀ e, Logged (c.profile s') (holder' e) (papersAt e papers ++ log e) := by
    rintro d now new rfl rfl logged e
    by_cases same : e = d
    · subst same; simpa [papersAt] using logged
    · simpa [papersAt,same,Ne.symm same] using logs e
  have silent : ∀ d now, holder' = Function.update holder d now → papers = [] →
      Logged (c.profile s') now (log d) → ∀ e, Logged (c.profile s') (holder' e) (papersAt e papers ++ log e) := by
    rintro d now rfl rfl logged e
    by_cases same : e = d
    · subst same; simpa [papersAt] using logged
    · simpa [papersAt,same] using logs e
  refine ⟨holder',?_⟩
  generalize trays : (c.books s').tray = tray at effect
  generalize abouts : (fun d => remembered (c.pc s' d)) = about at effect
  cases effect with
  | quiet quiet =>
    have each : ∀ d, c.Desk s' ((c.books s).tray d) (remembered (c.pc s d)) (holder' d) ∧
        Logged (c.profile s') (holder' d) (log d) := by
      intro d
      match label with
      | none =>
        cases after
        exact ⟨desks d,logs d⟩
      | some (e,move) =>
        obtain ⟨now,moves,rfl⟩ := after
        by_cases same : d = e
        · subst same
          simpa using quiet_desk (quiet d move rfl) moves (desks d) (logs d)
        · simpa [same] using ⟨desks d,logs d⟩
    refine open_ ?_ rfl (by simp [papersAt]) ?_ ?_
    · rintro d rfl
      exact quiet d _ rfl
    · intro d
      rw [trays,congrFun abouts d]
      exact (each d).1
    · intro d
      simpa [papersAt] using (each d).2
  | @posts d p =>
    obtain ⟨now,⟨before,rfl⟩,moved⟩ := after
    have same := steady p (ledger.joint.turn p d (by simp [before,Holder.patron]))
    refine open_ (by simp) rfl (by simp [papersAt]) ?_ ?_
    · refine at_ d _ _ (remembered (c.pc s d)) moved trays (by rw [abouts]; simp) ⟨(c.books s).tray d,?_⟩
      rw [same.posting]
    · have logged := logs d
      rw [before] at logged
      exact silent d _ moved rfl logged
  | @answers d b x answered =>
    obtain ⟨now,⟨p,before,rfl⟩,moved⟩ := after
    have same := steady p (ledger.joint.turn p d (by simp [before,Holder.patron]))
    have desk := ledger.desk d
    rw [before] at desk
    obtain ⟨old,asked⟩ := desk
    refine open_ (by simp) rfl (by simp [papersAt]) ?_ ?_
    · refine at_ d _ _ (some b) moved trays abouts ⟨old,b,rfl,?_⟩
      rw [same.posting,same.answering,← asked,answered]
    · have logged := logs d
      rw [before] at logged
      exact silent d _ moved rfl logged
  | @leaves d p =>
    obtain ⟨now,⟨before,rfl⟩,moved⟩ := after
    have had := ledger.joint.turn p d (by simp [before,Holder.patron])
    have desk := desks d
    have logged := logs d
    rw [before] at desk logged
    obtain ⟨old,b,remembers,answered⟩ := desk
    refine open_ (by simp) rfl ?_ ?_ ?_
    · intro e
      by_cases here : d = e <;> simp [papersAt,here]
    · exact at_ d _ _ (remembered (c.pc s d)) moved trays (by rw [abouts]; simp) ⟨old,b,_,remembers,answered,rfl⟩
    · refine paper d _ _ moved rfl ⟨(s'.patient p).myPatientToken,_,_,?_,rfl,logged⟩
      simp [profile,stays p had,(c.fair answered).2.1]
  | @records d b remembers =>
    obtain ⟨now,⟨p,before,rfl⟩,moved⟩ := after
    have had := ledger.joint.turn p d (by simp [before,Holder.patron])
    have desk := desks d
    have logged := logs d
    rw [before] at desk logged
    obtain ⟨old,b',y,remembers',answered,paid⟩ := desk
    obtain rfl : b = b' := Option.some.inj (remembers.symm.trans remembers')
    obtain ⟨token,_,amount⟩ := c.fair answered
    rw [← paid] at amount
    obtain ⟨token',amount',older,known,top,complete⟩ := logged
    have known' : c.profile s' p = some (c.token b,c.collected b ((c.books s).tray d)) := by
      simp [profile,stays p had,token,amount]
    have new : ∀ q, Settled (c.view s' asleep').desks holder' q ↔ Settled (c.view s asleep).desks holder q ∨ q = p := by
      intro q
      rw [settled]
      simp [before,eq_comm]
    refine ⟨joint,holds,at_ d _ _ none moved trays abouts trivial,paper d _ _ moved rfl ?_,?_,?_⟩
    · rw [top]
      rw [known'] at known
      exact ⟨known',(Prod.mk.inj (Option.some.inj known)).2.symm,complete⟩
    · intro t
      have entries : (∃ e amount, .recorded t amount ∈
          papersAt e [(d,.recorded (c.token b) (c.collected b ((c.books s).tray d)))] ++ log e) ↔
          t = c.token b ∨ ∃ e amount, .recorded t amount ∈ log e := by
        constructor
        · rintro ⟨e,amount,present⟩
          rcases List.mem_append.mp present with first | later
          · by_cases here : d = e <;> simp [papersAt,here] at first
            exact Or.inl first.1
          · exact Or.inr ⟨e,amount,later⟩
        · rintro (rfl | ⟨e,amount,later⟩)
          · exact ⟨d,c.collected b ((c.books s).tray d),List.mem_append_left _ (by simp [papersAt])⟩
          · exact ⟨e,amount,List.mem_append_right _ later⟩
      rw [entries,ledger.recorded t,token]
      constructor
      · rintro (rfl | ⟨q,done,rfl⟩)
        · exact ⟨p,(new p).mpr (Or.inr rfl),rfl⟩
        · exact ⟨q,(new q).mpr (Or.inl done),(steady q done.1).token⟩
      · rintro ⟨q,done,rfl⟩
        rcases (new q).mp done with done | rfl
        · exact Or.inr ⟨q,done,(steady q done.1).token.symm⟩
        · exact Or.inl rfl
    · have unsettled : ¬Settled (c.view s asleep).desks holder p :=
        fun done => done.2 d (by simp [before,Holder.patron])
      rw [total,ledger.total,sumOver_insert p unsettled new,amount]
      rw [sumOver_congr (fun _ => Iff.rfl) worth]

end

end Nachos.Hospital.Counter
