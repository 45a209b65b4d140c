import Nachos.Hospital.Reception

-- The runs of the whole simulation, as the reception sees them.
namespace Nachos.Hospital.Reception
open Monitor Tally

variable {n : Counts}

abbrev Record (n : Counts) := Entry (ThreadId n) (LockId n) (ConditionId n) (Event n)

-- A patient called out of the line of receptionist r.
def calledBy (r : Fin n.numberOfReceptionists) :
    Op (LockId n) (ConditionId n) → Option (ThreadId n) → List (Handed n.numberOfPatients)
  | .signal (.receptionistLineFullCv q) _,some (.patient p) => if q = r then [.called p] else []
  | _,_ => []

def handedIn (r : Fin n.numberOfReceptionists) : Event n → Option (Handed n.numberOfPatients)
  | .tokenPlaced q token => if q = r then some (.placed token) else none
  | .tokenTaken p q token => if q = r then some (.taken p token) else none
  | _ => none

def handed (r : Fin n.numberOfReceptionists) (entry : Record n) : List (Handed n.numberOfPatients) :=
  calledBy r entry.op entry.woken ++ entry.events.filterMap (handedIn r)

-- What receptionist r and its patients handed each other, newest first.
def handedOver (r : Fin n.numberOfReceptionists) (history : List (Record n)) : List (Handed n.numberOfPatients) :=
  history.flatMap (handed r)

def heard (label : Option (Fin R × Handed N)) (r : Fin R) : List (Handed N) :=
  match label with
  | some (q,handed) => if q = r then [handed] else []
  | none => []

theorem stageOf_elsewhere {pc : PatientPc n} (away : pc.home ≠ .reception) (b : Bool) : stageOf pc b = .served := by
  cases pc <;> cases b <;> simp_all [PatientPc.home,stageOf]

theorem stageOf_awake {pc : PatientPc n} (site : pc.site = .sleeping c) (away : stationOf (lockOf c) ≠ .reception)
    (b b' : Bool) : stageOf pc b = stageOf pc b' := by
  cases pc with
  | reception pc => cases pc <;> simp [PatientPc.site] at site <;> subst site <;> simp [stationOf,lockOf] at away
  | _ => rw [stageOf_elsewhere (by simp [PatientPc.home]),stageOf_elsewhere (by simp [PatientPc.home])]

theorem stageOf_away {pc : PatientPc n} (away : Away .reception pc) (b : Bool) : stageOf pc b = .served := by
  by_cases here : pc.home = .reception
  · have starts := away here
    cases pc <;> simp_all [PatientPc.home,PatientPc.starts]
  · exact stageOf_elsewhere here b

theorem clerk_site {s : State n} (site : site s (.receptionist r) = .sleeping c) : stationOf (lockOf c) = .reception := by
  simp only [Hospital.site] at site
  cases pc : s.receptionist r <;> simp [pc,ReceptionistPc.site] at site <;> subst site <;> rfl

-- A step elsewhere is not seen here.
theorem view_elsewhere {s : State n} (changes : Changes s draw t s' op events) (away : home s t ≠ .reception)
    (sleeps : (program n).Sleeps s t asleep op woken asleep')
    (silent : ∀ c, conditionOf op = some c → stationOf (lockOf c) ≠ .reception) :
    view s' asleep' = view s asleep := by
  have same := sleeps_elsewhere sleeps silent
  have resting : ∀ r, asleep' (.receptionist r) = asleep (.receptionist r) := by
    intro r
    rcases same (.receptionist r) with same | rfl | ⟨c,site,other⟩
    · exact same
    · exact absurd rfl away
    · exact absurd (clerk_site site) other
  have stages : ∀ p, stageOf (s'.patient p).pc (asleep' (.patient p)) = stageOf (s.patient p).pc (asleep (.patient p)) := by
    intro p
    rcases patients_elsewhere changes away p with ⟨still,own⟩ | ⟨_,before,after⟩
    · rw [still]
      rcases same (.patient p) with same | own' | ⟨c,site,other⟩
      · rw [same]
      · exact absurd own'.symm own
      · exact stageOf_awake site other _ _
    · rw [stageOf_elsewhere before,stageOf_away after]
  obtain ⟨data,clerks⟩ := reception_elsewhere changes away
  simp [view,data,clerks,resting,stages,tokens_elsewhere changes away]

section
variable {s : State n} {asleep : ThreadId n → Bool}

theorem view_rests (r : Fin n.numberOfReceptionists) (b : Bool) :
    view s (Function.update asleep (.receptionist r) b) =
      {view s asleep with resting := Function.update (view s asleep).resting r b} := by
  ext x <;> simp [view,Function.update_apply]

theorem view_sleeps (p : Fin n.numberOfPatients) (b : Bool) :
    view s (Function.update asleep (.patient p) b) =
      {view s asleep with stage := Function.update (view s asleep).stage p (stageOf (s.patient p).pc b)} := by
  ext x
  · rfl
  · simp [view]
  · rfl
  · rfl
  · rfl
  · by_cases same : x = p
    · subst same; simp [view]
    · simp [view,same]
  · rfl

theorem view_patient (p : Fin n.numberOfPatients) (data : ReceptionData n) (me : Patient n) :
    view {s with reception := data, patient := Function.update s.patient p me} asleep =
      {view s asleep with
        bucket := data.receptionistTokenBucket
        lineLength := data.receptionistLineLength
        next := data.nextReceptionistToken
        stage := Function.update (view s asleep).stage p (stageOf me.pc (asleep (.patient p)))
        token := Function.update (view s asleep).token p me.myPatientToken} := by
  ext x
  · rfl
  · rfl
  · rfl
  · rfl
  · rfl
  · by_cases same : x = p
    · subst same; simp [view]
    · simp [view,same]
  · by_cases same : x = p
    · subst same; simp [view]
    · simp [view,same]

theorem view_moves (p : Fin n.numberOfPatients) (data : ReceptionData n) (pc : PatientPc n) :
    view {s with reception := data, patient := Function.update s.patient p {s.patient p with pc}} asleep =
      {view s asleep with
        bucket := data.receptionistTokenBucket
        lineLength := data.receptionistLineLength
        next := data.nextReceptionistToken
        stage := Function.update (view s asleep).stage p (stageOf pc (asleep (.patient p)))} := by
  rw [view_patient]
  exact View.ext rfl rfl rfl rfl rfl rfl (Function.update_eq_self p _)

theorem view_waits (p : Fin n.numberOfPatients) (data : ReceptionData n) (pc : PatientPc n) :
    view {s with reception := data, patient := Function.update s.patient p {s.patient p with pc}}
        (Function.update asleep (.patient p) true) =
      {view s asleep with
        bucket := data.receptionistTokenBucket
        lineLength := data.receptionistLineLength
        next := data.nextReceptionistToken
        stage := Function.update (view s asleep).stage p (stageOf pc true)} := by
  rw [view_sleeps,view_moves]
  simp

theorem stage_inLine (stage : (view s asleep).stage p = .inLine r) :
    (s.patient p).pc = .reception (.lineFullWaited r) ∧ asleep (.patient p) = true := by
  simp only [view] at stage
  revert stage
  fun_cases stageOf (s.patient p).pc (asleep (.patient p)) <;> simp_all

theorem stage_waiting (stage : (view s asleep).stage p = .called r .waiting) :
    (s.patient p).pc = .reception (.tokenWaited r) ∧ asleep (.patient p) = true := by
  simp only [view] at stage
  revert stage
  fun_cases stageOf (s.patient p).pc (asleep (.patient p)) <;> simp_all

theorem stage_queueing (stage : (view s asleep).stage p = .queueing r) :
    (s.patient p).pc = .reception (.lineEmptySignalled r) := by
  simp only [view] at stage
  revert stage
  fun_cases stageOf (s.patient p).pc (asleep (.patient p)) <;> simp_all

-- A Signal on receptionist_cv[r], as the view has it. The caller is awake, so
-- what it did before the Signal does not matter.
theorem wakes_view (s' : State n) (awake : asleep t = false)
    (sleeps : (program n).Sleeps s t asleep (.signal (.receptionistCv r) l) woken asleep')
    (clerks : ∀ q, .receptionist q ≠ t → s'.receptionist q = s.receptionist q)
    (patients : ∀ p, .patient p ≠ t → (s'.patient p).pc = (s.patient p).pc) :
    Wakes (view s' asleep) r (view s' asleep') := by
  cases sleeps with
  | @wakes u c l sleeping site =>
    have other : u ≠ t := by rintro rfl; simp [awake] at sleeping
    rcases sleeping_sleeper site with ⟨rfl,pc⟩ | ⟨p,rfl,pc⟩
    · rw [view_rests]
      exact .clerk sleeping (by simpa [view,clerks r other] using pc)
    · have pc := (patients p other).trans pc
      rw [view_sleeps,pc]
      exact .patient (by simp [view,pc,sleeping,stageOf])
  | unheard nobody =>
    refine .nobody ?_ ?_
    · intro pc
      by_contra sleeping
      have sleeping : asleep (.receptionist r) = true := by simpa [view] using sleeping
      have other : .receptionist r ≠ t := by rintro rfl; simp [awake] at sleeping
      simp only [view,clerks r other] at pc
      refine nobody (.receptionist r) sleeping ?_
      rcases pc with pc | pc <;> simp [program,Hospital.site,pc,ReceptionistPc.site]
    · intro p stage
      obtain ⟨pc,sleeping⟩ := stage_waiting stage
      have other : .patient p ≠ t := by rintro rfl; simp [awake] at sleeping
      rw [patients p other] at pc
      exact nobody (.patient p) sleeping (by simp [program,Hospital.site,pc,PatientPc.site])

theorem receptionist_step (ready : (program n).Ready s asleep (.receptionist i))
    (ran : receptionist i s.reception (s.receptionist i) = .ok (reception,pc,op,events))
    (sleeps : (program n).Sleeps s (.receptionist i) asleep op woken asleep') :
    ∃ label, Step (view s asleep) label
        (view {s with reception := reception, receptionist := Function.update s.receptionist i pc} asleep') ∧
      ∀ r, handed r ⟨.receptionist i,op,woken,events⟩ = heard label r := by
  have awake : (view s asleep).resting i = false := ready.awake
  have alone : LockId.receptionistLineLock ∈ held s (.receptionist i) →
      ∀ p q, (view s asleep).stage p ≠ .queueing q := by
    intro line p q stage
    refine ready.alone _ line (.patient p) (by simp) ?_
    have pc := stage_queueing stage
    simp [Program.Active,program,held,Hospital.site,pc,PatientPc.held,PatientPc.site,Site.needs]
  -- The two program counters in front of the line.
  have line : (s.receptionist i = .lineAcquired ∨ s.receptionist i = .lineEmptyWaited) →
      LockId.receptionistLineLock ∈ held s (.receptionist i) := by
    rintro (place | place) <;> simp [held,place,ReceptionistPc.held]
  have looks : (s.receptionist i = .lineAcquired ∨ s.receptionist i = .lineEmptyWaited) →
      s.reception.receptionistLineLength i ≠ 0 →
      (program n).Sleeps s (.receptionist i) asleep (.signal (.receptionistLineFullCv i) .receptionistLineLock) woken
        asleep' →
      ∃ label, Step (view s asleep) label
          (view {s with
            reception := {s.reception with
              receptionistState := Function.update s.reception.receptionistState i 1}
            receptionist := Function.update s.receptionist i .lineFullSignalled} asleep') ∧
        ∀ r, handed r ⟨.receptionist i,.signal (.receptionistLineFullCv i) .receptionistLineLock,woken,[]⟩ =
          heard label r := by
    intro place length sleeps
    cases sleeps with
    | @wakes u c l sleeping site =>
      obtain ⟨p,rfl,pc⟩ := sleeping_sleeper site
      refine ⟨some (i,.called p),?_,by simp [handed,calledBy,heard]⟩
      rw [view_sleeps]
      simp only [pc,stageOf]
      exact .calls place awake (by simp [view,pc,sleeping,stageOf])
    | unheard nobody =>
      refine ⟨none,.callsNobody place awake length ?_ (alone (line place)),by simp [handed,calledBy,heard]⟩
      intro p stage
      obtain ⟨pc,sleeping⟩ := stage_inLine stage
      exact nobody (.patient p) sleeping (by simp [program,Hospital.site,pc,PatientPc.site])
  unfold receptionist at ran
  split at ran <;> rename_i place
  · cases ran
    cases sleeps
    exact ⟨none,.passes (r := i) (by simp [view,place]) awake,by simp [handed,calledBy,heard]⟩
  · split at ran
    · rename_i empty
      cases ran
      cases sleeps
      rw [view_rests]
      exact ⟨none,.rests (Or.inl place) empty,by simp [handed,calledBy,heard]⟩
    · rename_i length
      cases ran
      exact looks (Or.inl place) length sleeps
  · split at ran
    · rename_i empty
      cases ran
      cases sleeps
      rw [view_rests]
      exact ⟨none,.rests (Or.inr place) empty,by simp [handed,calledBy,heard]⟩
    · rename_i length
      cases ran
      exact looks (Or.inr place) length sleeps
  · cases ran
    cases sleeps
    exact ⟨none,.passes (r := i) (by simp [view,place]) awake,by simp [handed,calledBy,heard]⟩
  · cases ran
    cases sleeps
    exact ⟨none,.passes (r := i) (by simp [view,place]) awake,by simp [handed,calledBy,heard]⟩
  · split at ran
    · rename_i full
      cases ran
      cases sleeps
      rw [view_rests]
      exact ⟨none,.clerkWaits (Or.inl place) full,by simp [handed,calledBy,heard]⟩
    · rename_i empty
      cases ran
      cases sleeps
      exact ⟨none,.clerkEnters (Or.inl place) (not_not.mp empty) awake,by simp [handed,calledBy,heard]⟩
  · split at ran
    · rename_i full
      cases ran
      cases sleeps
      rw [view_rests]
      exact ⟨none,.clerkWaits (Or.inr place) full,by simp [handed,calledBy,heard]⟩
    · rename_i empty
      cases ran
      cases sleeps
      exact ⟨none,.clerkEnters (Or.inr place) (not_not.mp empty) awake,by simp [handed,calledBy,heard]⟩
  · cases ran
    cases sleeps
    refine ⟨some (i,.placed s.reception.nextReceptionistToken),.places place,?_⟩
    intro r
    by_cases same : i = r <;> simp [handed,handedIn,calledBy,heard,same]
  · cases ran
    refine ⟨none,.tells place (wakes_view
      {s with receptionist := Function.update s.receptionist i .tokenSignalled} ready.awake sleeps ?_ (fun _ _ => rfl)),
      by simp [handed,calledBy,heard]⟩
    intro q other
    have differs : q ≠ i := by rintro rfl; exact other rfl
    simp [differs]
  · split at ran
    · rename_i full
      cases ran
      cases sleeps
      rw [view_rests]
      exact ⟨none,.sleeps (Or.inl place) awake full,by simp [handed,calledBy,heard]⟩
    · rename_i empty
      cases ran
      cases sleeps
      exact ⟨none,.leavesDesk (Or.inl place) awake (not_not.mp empty),by simp [handed,calledBy,heard]⟩
  · split at ran
    · rename_i full
      cases ran
      cases sleeps
      rw [view_rests]
      exact ⟨none,.sleeps (Or.inr place) awake full,by simp [handed,calledBy,heard]⟩
    · rename_i empty
      cases ran
      cases sleeps
      exact ⟨none,.leavesDesk (Or.inr place) awake (not_not.mp empty),by simp [handed,calledBy,heard]⟩
  · cases ran
    cases sleeps
    exact ⟨none,.passes (r := i) (by simp [view,place]) awake,by simp [handed,calledBy,heard]⟩
  · rw [if_neg (by simp [receptionistLineLengthIsNull])] at ran
    cases ran
    cases sleeps
    exact ⟨none,.passes (r := i) (by simp [view,place]) awake,by simp [handed,calledBy,heard]⟩
  · cases ran
    cases sleeps
    exact ⟨none,.passes (r := i) (by simp [view,place]) awake,by simp [handed,calledBy,heard]⟩

theorem patient_step (ready : (program n).Ready s asleep (.patient p)) (place : (s.patient p).pc = .reception pc)
    (ran : patientReception p s.reception (s.patient p) pc = .ok (reception,me,op,events))
    (sleeps : (program n).Sleeps s (.patient p) asleep op woken asleep') :
    (view {s with reception := reception, patient := Function.update s.patient p me} asleep' = view s asleep ∧
      ∀ r, handed r ⟨.patient p,op,woken,events⟩ = []) ∨
    ∃ label, Step (view s asleep) label
        (view {s with reception := reception, patient := Function.update s.patient p me} asleep') ∧
      ∀ r, handed r ⟨.patient p,op,woken,events⟩ = heard label r := by
  have awake : asleep (.patient p) = false := ready.awake
  have stage : (view s asleep).stage p = stageOf (.reception pc) false := by simp [view,place,awake]
  -- While the patient is at the desk, the receptionist is not between the bucket and its Signal.
  have alone : ∀ r, LockId.receptionistLock r ∈ (PatientPc.reception pc).held → s.receptionist r ≠ .tokenAccessAcquired ∧
      s.receptionist r ≠ .tokenAccessReleased ∧ s.receptionist r ≠ .tokenSignalled := by
    intro r desk
    have other := ready.alone (.receptionistLock r) (by simpa [program,held,place] using desk) (.receptionist r) (by simp)
    refine ⟨?_,?_,?_⟩ <;> intro pc <;>
      simp [Program.Active,program,held,Hospital.site,pc,ReceptionistPc.held,ReceptionistPc.site,Site.needs] at other
  -- The two program counters at the desk.
  have desk : ∀ r, LockId.receptionistLock r ∈ (PatientPc.reception pc).held →
      (view s asleep).stage p = .called r .atDesk ∨ (view s asleep).stage p = .called r .answered →
      (if s.reception.receptionistTokenBucket r = -1 then
        .ok (s.reception,{s.patient p with pc := .reception (.tokenWaited r)},
          .wait (.receptionistCv r) (.receptionistLock r),[])
      else
        .ok ({s.reception with receptionistTokenBucket := Function.update s.reception.receptionistTokenBucket r (-1)},
          {s.patient p with
            pc := .reception (.tokenSignalled r), myPatientToken := s.reception.receptionistTokenBucket r},
          .signal (.receptionistCv r) (.receptionistLock r),
          [.tokenTaken p r (s.reception.receptionistTokenBucket r)]) : Outcome n (ReceptionData n) (Patient n)) =
        .ok (reception,me,op,events) →
      (view {s with reception := reception, patient := Function.update s.patient p me} asleep' = view s asleep ∧
        ∀ r, handed r ⟨.patient p,op,woken,events⟩ = []) ∨
      ∃ label, Step (view s asleep) label
          (view {s with reception := reception, patient := Function.update s.patient p me} asleep') ∧
        ∀ r, handed r ⟨.patient p,op,woken,events⟩ = heard label r := by
    intro r held stage ran
    obtain ⟨acquired,released,signalled⟩ := alone r held
    split at ran
    · rename_i empty
      cases ran
      cases sleeps
      rw [view_waits]
      exact Or.inr ⟨none,.waits stage empty acquired,by simp [handed,calledBy,heard]⟩
    · rename_i full
      cases ran
      refine Or.inr ⟨some (r,.taken p (s.reception.receptionistTokenBucket r)),?_,?_⟩
      · refine .takes stage full released signalled ?_
        have wakes := wakes_view {s with
          reception := {s.reception with
            receptionistTokenBucket := Function.update s.reception.receptionistTokenBucket r (-1)}
          patient := Function.update s.patient p {s.patient p with
            pc := .reception (.tokenSignalled r)
            myPatientToken := s.reception.receptionistTokenBucket r}} awake sleeps (fun _ _ => rfl) (by
              intro q other
              have differs : q ≠ p := by rintro rfl; exact other rfl
              simp [differs])
        rw [show view _ asleep = _ from view_patient p _ _] at wakes
        exact wakes
      · intro q
        by_cases same : r = q <;> simp [handed,handedIn,calledBy,heard,same]
  unfold patientReception at ran
  split at ran
  · cases ran
    cases sleeps
    refine Or.inl ⟨?_,by simp [handed,calledBy]⟩
    rw [view_moves]
    exact View.ext rfl rfl rfl rfl rfl (Function.update_eq_self_iff.mpr stage.symm) rfl
  · split at ran
    · cases ran
    · rename_i r chosen
      cases ran
      refine Or.inr ⟨none,?_,by simp [handed,calledBy,heard]⟩
      cases sleeps with
      | @wakes u c l sleeping site =>
        obtain ⟨rfl,pc⟩ := sleeping_sleeper site
        rw [view_rests,view_moves]
        have joins := Step.joins (r := r) stage
        rw [if_pos (show (view s asleep).clerk r = _ from pc)] at joins
        exact joins
      | unheard nobody =>
        rw [view_moves]
        have joins := Step.joins (r := r) stage
        have resting : (if (view s asleep).clerk r = .lineEmptyWaited then
            Function.update (view s asleep).resting r false else (view s asleep).resting) = (view s asleep).resting := by
          split
          · rename_i pc
            refine Function.update_eq_self_iff.mpr ?_
            by_contra sleeping
            have sleeping : asleep (.receptionist r) = true := by simpa [view] using sleeping
            refine nobody (.receptionist r) sleeping ?_
            simp [program,Hospital.site,show s.receptionist r = _ from pc,ReceptionistPc.site]
          · rfl
        rw [resting] at joins
        exact joins
  · cases ran
    cases sleeps
    rw [view_waits]
    exact Or.inr ⟨none,.linesUp stage,by simp [handed,calledBy,heard]⟩
  · cases ran
    cases sleeps
    rw [view_moves]
    exact Or.inr ⟨none,.leavesLine stage,by simp [handed,calledBy,heard]⟩
  · cases ran
    cases sleeps
    rw [view_moves]
    exact Or.inr ⟨none,.walks stage,by simp [handed,calledBy,heard]⟩
  · exact desk _ (by simp [PatientPc.held]) (Or.inl stage) ran
  · exact desk _ (by simp [PatientPc.held]) (Or.inr stage) ran
  · cases ran
    cases sleeps
    refine Or.inl ⟨?_,by simp [handed,calledBy]⟩
    rw [view_moves]
    exact View.ext rfl rfl rfl rfl rfl (Function.update_eq_self_iff.mpr stage.symm) rfl

theorem calledBy_elsewhere (away : ∀ c, conditionOf op = some c → stationOf (lockOf c) ≠ .reception)
    (r : Fin n.numberOfReceptionists) (woken : Option (ThreadId n)) : calledBy r op woken = [] := by
  unfold calledBy
  split
  · exact absurd rfl (away _ rfl)
  · rfl

theorem handedIn_elsewhere {event : Event n} (away : eventStation event ≠ .reception)
    (r : Fin n.numberOfReceptionists) : handedIn r event = none := by
  cases event <;> simp_all [handedIn,eventStation]

theorem handed_elsewhere {events : List (Event n)}
    (away : ∀ c, conditionOf op = some c → stationOf (lockOf c) ≠ .reception)
    (others : ∀ event ∈ events, eventStation event ≠ .reception) (t : ThreadId n) (woken : Option (ThreadId n))
    (r : Fin n.numberOfReceptionists) : handed r ⟨t,op,woken,events⟩ = [] := by
  simp only [handed,calledBy_elsewhere away,List.nil_append,List.filterMap_eq_nil_iff]
  exact fun event present => handedIn_elsewhere (others event present) r

-- The manager's Signal to the receptionists on break.
theorem manager_step (sleeps : (program n).Sleeps s t asleep (.signal .receptionistBreakCv l) woken asleep') :
    view {s with manager := pc} asleep' = view s asleep ∨
      Step (view s asleep) none (view {s with manager := pc} asleep') := by
  cases sleeps with
  | @wakes u c l sleeping site =>
    obtain ⟨r,rfl,pc⟩ := sleeping_sleeper site
    right
    rw [view_rests]
    exact .offBreak pc
  | unheard => exact Or.inl rfl

theorem run_step (ready : (program n).Ready s asleep t) (changes : Changes s draw t s' op events)
    (sleeps : (program n).Sleeps s t asleep op woken asleep') :
    (view s' asleep' = view s asleep ∧ ∀ r, handed r ⟨t,op,woken,events⟩ = []) ∨
    ∃ label, Step (view s asleep) label (view s' asleep') ∧
      ∀ r, handed r ⟨t,op,woken,events⟩ = heard label r := by
  have elsewhere : home s t ≠ .reception → (∀ c, conditionOf op = some c → stationOf (lockOf c) ≠ .reception) →
      view s' asleep' = view s asleep ∧ ∀ r, handed r ⟨t,op,woken,events⟩ = [] := by
    intro away silent
    refine ⟨view_elsewhere changes away sleeps silent,handed_elsewhere silent ?_ t woken⟩
    intro event present
    rw [events_home changes event present]
    exact away
  by_cases manager : t = .hospitalManager
  · subst manager
    cases changes with
    | manager ran =>
      rcases manager_signals ran with none_ | ⟨c,rfl,which⟩
      · exact Or.inl (elsewhere (by simp [home]) (by simp [none_]))
      · rcases which with rfl | which
        · rcases manager_step sleeps with same | step
          · exact Or.inl ⟨same,by simp [handed,calledBy]⟩
          · exact Or.inr ⟨none,step,by simp [handed,calledBy,heard]⟩
        · refine Or.inl (elsewhere (by simp [home]) ?_)
          rintro d same
          cases Option.some.inj same
          rcases which with rfl | rfl | rfl <;> simp [lockOf,stationOf]
  · by_cases here : home s t = .reception
    · cases changes with
      | receptionist ran => exact Or.inr (receptionist_step ready ran sleeps)
      | atReception place ran => exact patient_step ready place ran sleeps
      | manager => exact absurd rfl manager
      | doorboy | doctor | cashier | pharmacist => simp [home] at here
      | atDoor place | atExam place | atCashier place | atPharmacy place | leaving place =>
        simp [home,place,PatientPc.home] at here
    · exact Or.inl (elsewhere here fun c condition => by rw [op_home changes ready.going manager condition]; exact here)

end

-- What holds at the reception in every state of every run.
structure Holds (v : View R N) (log : Fin R → List (Handed N)) : Prop where
  joint : ∃ walk, Joint v walk ∧ ∀ r, Logged (deal v walk r) (log r)
  lengths : Lengths v
  tokens : Tokens v

theorem deals_logged {before after : Fin R → Deal N} {log : Fin R → List (Handed N)} (deals : Deals before after label)
    (logged : ∀ r, Logged (before r) (log r)) (r : Fin R) : Logged (after r) (heard label r ++ log r) := by
  cases label with
  | none => simpa [heard,deals r] using logged r
  | some label =>
    obtain ⟨q,handed⟩ := label
    obtain ⟨passes,others⟩ := deals
    by_cases same : q = r
    · subst same
      simpa [heard] using passes.logged (logged q)
    · simpa [heard,same,others r (Ne.symm same)] using logged r

theorem initial_holds (n : Counts) : Holds (view (initialized n) fun _ => false) fun _ => [] := by
  refine ⟨⟨fun _ => none,⟨?_,?_,?_⟩,?_⟩,⟨?_,?_,?_⟩,⟨?_,?_,?_,?_,?_,?_,?_⟩⟩
  all_goals simp [view,initialized,stageOf,Serves,Logged,deal,Complete,tally,inLength,granted]

theorem runs_hold (path : (program n).Runs history asleep s) :
    Holds (view s asleep) fun r => handedOver r history := by
  induction path with
  | initial => exact initial_holds n
  | @step history asleep s t draw s' op events woken asleep' prior ready executed sleeps ih =>
    obtain ⟨⟨walk,joint,logged⟩,lengths,tokens⟩ := ih
    rcases run_step ready (exec_changes executed) sleeps with ⟨same,quiet⟩ | ⟨label,step,told⟩
    · rw [same]
      refine ⟨⟨walk,joint,?_⟩,lengths,tokens⟩
      simpa [handedOver,quiet] using logged
    · obtain ⟨walk',joint',deals⟩ := step_joint joint lengths step
      refine ⟨⟨walk',joint',?_⟩,step_lengths joint lengths step,step_tokens joint tokens step⟩
      simpa [handedOver,told] using deals_logged deals logged

theorem Tokens.below {v : View R N} (tokens : Tokens v) (served : v.stage p = .served) :
    0 ≤ v.token p ∧ v.token p < N := by
  obtain ⟨lower,upper⟩ := tokens.held p served
  have bound : v.next ≤ N := by
    rw [tokens.granted]
    have most := tally_le (Reception.granted v)
    rw [Fintype.card_fin] at most
    exact_mod_cast most
  exact ⟨lower,lt_of_lt_of_le upper bound⟩

-- Who has a token has one of its own, inside patient_consultancy_fee.
theorem runs_tokens (path : (program n).Runs history asleep s) :
    (∀ p, (s.patient p).myPatientToken ≠ -2 → 0 ≤ (s.patient p).myPatientToken ∧
      (s.patient p).myPatientToken < n.numberOfPatients) ∧
    ∀ p q, (s.patient p).myPatientToken ≠ -2 →
      (s.patient p).myPatientToken = (s.patient q).myPatientToken → p = q := by
  have tokens := (runs_hold path).tokens
  have served : ∀ p, (s.patient p).myPatientToken ≠ -2 → (view s asleep).stage p = .served :=
    fun p held => not_not.mp (mt (tokens.fresh p).mpr held)
  refine ⟨fun p held => tokens.below (served p held),fun p q held same => ?_⟩
  exact tokens.distinct p q (served p held) (served q (by rw [← same]; exact held)) same

-- The other stations see only patients that have one.
theorem runs_served (path : (program n).Runs history asleep s) (away : (s.patient p).pc.home ≠ .reception) :
    (s.patient p).myPatientToken ≠ -2 := fun unset =>
  ((runs_hold path).tokens.fresh p).mp unset (stageOf_elsewhere away _)

-- Tokens are unique and index patient_consultancy_fee, and every one goes from
-- its bucket to the patient that was called for it before the bucket is refilled.
theorem tokens_unique (reached : Machine.Reached (program n) m) :
    (∀ p q, (m.state.patient p).myPatientToken ≠ -2 →
      (m.state.patient p).myPatientToken = (m.state.patient q).myPatientToken → p = q) ∧
    (∀ p, (m.state.patient p).myPatientToken ≠ -2 → 0 ≤ (m.state.patient p).myPatientToken ∧
      (m.state.patient p).myPatientToken < n.numberOfPatients ∧
      tokenIndex (n := n) (m.state.patient p).myPatientToken ≠ none) ∧
    ∀ r, Orderly (handedOver r m.history) := by
  have path := Machine.reached_runs (disciplined n) reached
  obtain ⟨inside,distinct⟩ := runs_tokens path
  obtain ⟨walk,_,logged⟩ := (runs_hold path).joint
  refine ⟨distinct,fun p held => ?_,fun r => (logged r).orderly⟩
  obtain ⟨lower,upper⟩ := inside p held
  exact ⟨lower,upper,by simp [tokenIndex,lower,upper]⟩

-- One patient gets its token.
def tokenSchedule : List (ThreadId ⟨1,0,0,0,0,1⟩) :=
  let receptionist := .receptionist (Fin.last 0)
  let patient := .patient (Fin.last 0)
  [receptionist,receptionist,patient,patient,receptionist,patient] ++
    List.replicate 8 receptionist ++ List.replicate 4 patient

theorem tokens_unique_first_token :
    ∃ m, (Machine.initial (program ⟨1,0,0,0,0,1⟩)).dispatch (program ⟨1,0,0,0,0,1⟩) ⟨0,0,0⟩ tokenSchedule = some m ∧
      (m.state.patient 0).myPatientToken = 0 ∧ handedOver 0 m.history = [.taken 0 0,.placed 0,.called 0] ∧
      Orderly (handedOver 0 m.history) := by
  have ran : (Machine.initial (program ⟨1,0,0,0,0,1⟩)).dispatch (program ⟨1,0,0,0,0,1⟩) ⟨0,0,0⟩ tokenSchedule =
    some _ := rfl
  exact ⟨_,ran,rfl,rfl,(tokens_unique (Machine.dispatch_reached .initial ran)).2.2 0⟩

end Nachos.Hospital.Reception
