import Nachos.Hospital.CounterBooks

-- The runs of the whole simulation, as one counter sees them.
namespace Nachos.Hospital.Counter
open Monitor Tally Rendezvous

variable {n : Counts} (c : Counter n D B X)

-- A step of the simulation at a counter.
def Moved (s : State n) (asleep : ThreadId n → Bool) (s' : State n) (asleep' : ThreadId n → Bool)
    (events : List (Event n)) : Prop :=
  ∃ label papers gain, Step (c.view s asleep) label (c.view s' asleep') ∧
    (c.books s').total = (c.books s).total + gain ∧
    c.Effect s (c.books s).tray (fun d => remembered (c.pc s d)) label (c.books s').tray
      (fun d => remembered (c.pc s' d)) gain papers ∧
    events.filterMap c.paper = papers

variable {c} {s s' : State n} {asleep asleep' : ThreadId n → Bool}

theorem clerk_moved (ready : (program n).Ready s asleep (c.clerk i))
    (moves : c.ClerkMoves s i (c.pc s i) (c.books s') next op label papers)
    (pcs : c.pc s' = Function.update (c.pc s) i next) (patients : s'.patient = s.patient)
    (sleeps : (program n).Sleeps s (c.clerk i) asleep op woken asleep') (written : events.filterMap c.paper = papers) :
    c.Moved s asleep s' asleep' events := by
  obtain ⟨gain,total,effect⟩ := clerk_effect moves pcs
  exact ⟨label,papers,gain,clerk_step ready moves pcs patients sleeps,total,effect,written⟩

theorem visit_moved (ready : (program n).Ready s asleep (.patient p)) (place : c.visit (s.patient p).pc = some at_)
    (moves : c.VisitMoves s p at_ (c.books s') next op label papers) (after : c.visit me.pc = next)
    (late : next = none → c.early me.pc = false) (pcs : c.pc s' = c.pc s)
    (patients : s'.patient = Function.update s.patient p me)
    (sleeps : (program n).Sleeps s (.patient p) asleep op woken asleep') (written : events.filterMap c.paper = papers) :
    c.Moved s asleep s' asleep' events := by
  obtain ⟨total,effect⟩ := visit_effect moves pcs
  exact ⟨label,papers,0,visit_step ready place moves after late pcs patients sleeps,by rw [total]; simp,effect,written⟩

theorem moved_elsewhere (changes : Changes s draw t s' op events) (ready : (program n).Ready s asleep t)
    (away : home s t ≠ c.here) (sleeps : (program n).Sleeps s t asleep op woken asleep') :
    c.Moved s asleep s' asleep' events := by
  obtain ⟨pcs,books,_⟩ := c.frame changes away
  refine ⟨none,[],0,?_,by rw [books]; simp,?_,List.filterMap_eq_nil_iff.mpr fun event present => ?_⟩
  · rw [view_elsewhere changes away sleeps (silent_elsewhere changes ready.going away)]
    exact .idles
  · rw [books,pcs]
    exact .quiet (by simp)
  · refine c.paper_home ?_
    rw [events_home changes event present]
    exact away

theorem log_step (d : Fin D) (events : List (Event n)) (written : events.filterMap c.paper = papers) :
    c.log d (⟨t,op,woken,events⟩ :: history) = papersAt d papers ++ c.log d history := by
  rw [← written]
  simp only [log,List.flatMap_cons,papersAt,List.filterMap_filterMap]

theorem initial_ledger (pcs : c.pc (initialized n) = fun _ => .loop)
    (line : (c.books (initialized n)).line = ⟨0,0,fun _ => 1⟩) (total : (c.books (initialized n)).total = 0)
    (visit : c.visit (.reception .start) = none) (early : c.early (.reception .start) = true) :
    c.Ledger (initialized n) (fun _ => false) (fun _ => []) fun _ => .nobody := by
  have place : ∀ p, ((initialized n).patient p).pc = .reception .start := fun _ => rfl
  have unsettled : ∀ p, ¬Settled (c.view (initialized n) fun _ => false).desks (fun _ => .nobody) p := by
    simp [Settled,view,place,visit,early,freshOf]
  refine ⟨⟨?_,?_,?_,?_,?_,?_⟩,⟨?_,?_,.unheard ?_⟩,fun _ => trivial,fun _ => trivial,?_,?_⟩
  · simp [view,line]
  · simp [view]
  · simp [view,place,visit,clientOf]
  · simp [view,pcs,serverOf,Fits]
  · simp [Holder.patron]
  · simp [Holder.patron]
  · simp [view,line,tally]
  · simp [view,line,place,visit,waitingOf,tally]
  · simp [view,place,visit,waitingOf]
  · simp [unsettled]
  · rw [total,sumOver_empty unsettled]

-- The books are right in every run, if they are after every step at the counter.
theorem runs_ledger (start : c.Ledger (initialized n) (fun _ => false) (fun _ => []) fun _ => .nobody)
    (steady : ∀ {history asleep s draw t s' op events woken asleep'}, (program n).Runs history asleep s →
      (program n).Runs (⟨t,op,woken,events⟩ :: history) asleep' s' → Changes s draw t s' op events →
      ∀ p, c.fresh s p = false → c.Steady s s' p)
    (moved : ∀ {history asleep s draw t s' op events woken asleep' holder}, (program n).Runs history asleep s →
      c.Ledger s asleep (fun d => c.log d history) holder → (program n).Ready s asleep t →
      Changes s draw t s' op events → (program n).Sleeps s t asleep op woken asleep' → home s t = c.here →
      c.Moved s asleep s' asleep' events)
    (path : (program n).Runs history asleep s) :
    ∃ holder, c.Ledger s asleep (fun d => c.log d history) holder := by
  induction path with
  | initial => exact ⟨_,start⟩
  | @step history asleep s t draw s' op events woken asleep' prior ready executed sleeps ih =>
    obtain ⟨holder,ledger⟩ := ih
    have changes := exec_changes executed
    have path := prior.step ready executed sleeps
    obtain ⟨label,papers,gain,step,total,effect,written⟩ : c.Moved s asleep s' asleep' events := by
      by_cases here : home s t = c.here
      · exact moved prior ledger ready changes sleeps here
      · exact moved_elsewhere changes ready here sleeps
    obtain ⟨holder',after⟩ := ledger_step ledger (steady prior path changes) step total effect
    refine ⟨holder',?_⟩
    simpa only [log_step _ events written] using after

-- Every payment was taken before the next one was put down.
def Taken : List (Paper N) → Prop
  | [] => True
  | .recorded _ amount :: .paid _ amount' :: older => amount' = amount ∧ Taken older
  | _ => False

theorem Complete.taken {known : Fin N → Option (Int × Int)} (complete : Complete known papers) : Taken papers := by
  fun_induction Complete known papers with
  | case1 => trivial
  | case2 token amount p amount' older ih => exact ⟨complete.2.1,ih complete.2.2⟩
  | case3 => exact absurd complete id

theorem Taken.paid {papers : List (Paper N)} (taken : Taken papers) (present : .recorded t amount ∈ papers) :
    ∃ p, .paid p amount ∈ papers := by
  fun_induction Taken papers with
  | case1 => simp at present
  | case2 token amount' q paid older ih =>
    obtain ⟨rfl,rest⟩ := taken
    simp only [List.mem_cons,reduceCtorEq,Paper.recorded.injEq,false_or] at present
    rcases present with ⟨_,rfl⟩ | later
    · exact ⟨q,by simp⟩
    · obtain ⟨p,there⟩ := ih rest later
      exact ⟨p,by simp [there]⟩
  | case3 => exact absurd taken id

theorem Complete.paid {known : Fin N → Option (Int × Int)} (complete : Complete known papers)
    (present : .paid p amount ∈ papers) : ∃ token, known p = some (token,amount) := by
  fun_induction Complete known papers with
  | case1 => simp at present
  | case2 token amount' q paid older ih =>
    obtain ⟨profile,rfl,rest⟩ := complete
    simp only [List.mem_cons,reduceCtorEq,Paper.paid.injEq,false_or] at present
    rcases present with ⟨rfl,rfl⟩ | later
    · exact ⟨token,profile⟩
    · exact ih rest later
  | case3 => exact absurd complete id

theorem Logged.cases {known : Fin N → Option (Int × Int)} (logged : Logged known who papers) :
    Complete known papers ∨ ∃ p token amount older, (who = .client p .leaving ∨ who = .gone p) ∧
      known p = some (token,amount) ∧ papers = .paid p amount :: older ∧ Complete known older := by
  cases who with
  | client p stage =>
    cases stage with
    | leaving =>
      obtain ⟨token,amount,older,profile,same,complete⟩ := logged
      exact Or.inr ⟨p,token,amount,older,Or.inl rfl,profile,same,complete⟩
    | _ => exact Or.inl logged
  | gone p =>
    obtain ⟨token,amount,older,profile,same,complete⟩ := logged
    exact Or.inr ⟨p,token,amount,older,Or.inr rfl,profile,same,complete⟩
  | _ => exact Or.inl logged

section
variable {log : Fin D → List (Paper n.numberOfPatients)} {holder : Fin D → Holder (Fin n.numberOfPatients)}

theorem Ledger.paid (ledger : c.Ledger s asleep log holder) (present : .paid p amount ∈ log d) :
    c.fresh s p = false ∧ amount = c.price s p := by
  have profile : ∃ token, c.profile s p = some (token,amount) := by
    rcases (ledger.logged d).cases with complete | ⟨q,token,amount',older,_,profile,same,complete⟩
    · exact complete.paid present
    · rw [same] at present
      rcases List.mem_cons.mp present with first | later
      · cases first
        exact ⟨token,profile⟩
      · exact complete.paid later
  obtain ⟨token,profile⟩ := profile
  cases had : c.fresh s p with
  | true => simp [Counter.profile,had] at profile
  | false =>
    simp only [Counter.profile,had,Bool.false_eq_true,if_false,Option.some.injEq,Prod.mk.injEq] at profile
    exact ⟨rfl,profile.2.symm⟩

-- What was put down last and not yet taken still lies there.
theorem Ledger.pending (ledger : c.Ledger s asleep log holder) (d : Fin D) :
    Taken (log d) ∨ ∃ p amount older about, log d = .paid p amount :: older ∧ Taken older ∧
      remembered (c.pc s d) = some about ∧ c.collected about ((c.books s).tray d) = amount := by
  rcases (ledger.logged d).cases with complete | ⟨p,token,amount,older,held,profile,same,complete⟩
  · exact Or.inl complete.taken
  · have price := (ledger.paid (same ▸ List.mem_cons_self ..)).2
    have desk := ledger.desk d
    obtain ⟨old,about,y,remembers,answered,paid⟩ : ∃ old b y, remembered (c.pc s d) = some b ∧
        c.answering s (c.posting (s.patient p) old) = some (b,y) ∧ (c.books s).tray d = c.paying y := by
      rcases held with held | held <;> (rw [held] at desk; exact desk)
    refine Or.inr ⟨p,amount,older,about,same,complete.taken,remembers,?_⟩
    rw [paid,(c.fair answered).2.2,price]

-- Nothing is recorded that was not paid.
theorem Ledger.recorded_paid (ledger : c.Ledger s asleep log holder) (present : .recorded t amount ∈ log d) :
    ∃ p, .paid p amount ∈ log d := by
  rcases ledger.pending d with taken | ⟨p,paid,older,_,same,taken,_⟩
  · exact taken.paid present
  · rw [same] at present ⊢
    obtain ⟨q,there⟩ := taken.paid (by simpa using present)
    exact ⟨q,List.mem_cons_of_mem _ there⟩

-- The total is what the patients whose payment was recorded had to pay.
theorem Ledger.collected (ledger : c.Ledger s asleep log holder)
    (distinct : ∀ p q, c.fresh s p = false → (s.patient p).myPatientToken = (s.patient q).myPatientToken → p = q) :
    (c.books s).total = sumOver (c.price s) fun p => ∃ d amount, .recorded (s.patient p).myPatientToken amount ∈ log d := by
  rw [ledger.total]
  refine (sumOver_congr (fun p => ?_) fun _ _ => rfl).symm
  rw [ledger.recorded]
  constructor
  · rintro ⟨q,settled,same⟩
    rwa [← distinct q p settled.1 same]
  · exact fun settled => ⟨p,settled,rfl⟩

end

end Nachos.Hospital.Counter
