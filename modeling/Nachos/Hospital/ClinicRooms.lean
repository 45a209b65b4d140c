import Nachos.Library.Trace
import Nachos.Hospital.ClinicDesks

-- What passes between a doctor and its patients, and through the mailbox.
namespace Nachos.Hospital.Clinic
open Monitor Rendezvous Protocol

-- One examination, from the mailbox to the release of the doctor's lock.
inductive Exam (N : Nat) where
  | assigned (p : Fin N)
  | seen (token : Int)
  | drawn (token sickness : Int)
  | written (token sickness : Int)
  | told (p : Fin N) (diagnosis : Int)
  | released (p : Fin N)
  deriving DecidableEq

inductive Case (N : Nat) where
  | none
  | assigned (p : Fin N)
  | seen (p : Fin N) (token : Int)
  | drawn (p : Fin N) (token sickness : Int)
  | written (p : Fin N) (token sickness : Int)
  | told (p : Fin N) (token sickness : Int)

-- `known` is the token of a patient that has been assigned a doctor.
inductive Passes (known : Fin N → Option Int) : Case N → Exam N → Case N → Prop where
  | assigned : Passes known .none (.assigned p) (.assigned p)
  | seen : known p = some token → Passes known (.assigned p) (.seen token) (.seen p token)
  | drawn : 0 ≤ sickness → sickness ≤ 4 → Passes known (.seen p token) (.drawn token sickness) (.drawn p token sickness)
  | written : Passes known (.drawn p token sickness) (.written token sickness) (.written p token sickness)
  | told : Passes known (.written p token sickness) (.told p sickness) (.told p token sickness)
  | released : Passes known (.told p token sickness) (.released p) .none

theorem Passes.grows {known known' : Fin N → Option Int} (grows : ∀ p token, known p = some token → known' p = some token)
    (x : Case N) (e : Exam N) (y : Case N) (passes : Passes known x e y) : Passes known' x e y := by
  cases passes with
  | assigned => exact .assigned
  | seen token => exact .seen (grows _ _ token)
  | drawn low high => exact .drawn low high
  | written => exact .written
  | told => exact .told
  | released => exact .released

inductive Mail (K D N : Nat) where
  | stored (b : Fin K) (d : Fin D)
  | read (p : Fin N) (d : Option (Fin D))
  deriving DecidableEq

-- A doctor put into the empty mailbox is read by one patient.
inductive Posts : Option (Fin D) → Mail K D N → Option (Fin D) → Prop where
  | stored : Posts none (.stored b d) (some d)
  | read : Posts (some d) (.read p (some d)) none

-- What a doctor remembers: the token, and the sickness once it is drawn.
def mindOf : DoctorPc → Option (Int × Option Int)
  | .randomAcquired token => some (token,none)
  | .examining token sickness _ => some (token,some sickness)
  | _ => none

structure Papers (n : Counts) where
  bucket : Fin n.doctorsCount → Int
  mind : Fin n.doctorsCount → Option (Int × Option Int)
  fee : Fin n.numberOfPatients → Int
  diagnosis : Fin n.numberOfPatients → Int

variable {n : Counts}

def papers (s : State n) : Papers n where
  bucket := s.exam.patientDoctorBucket
  mind d := mindOf (s.doctor d)
  fee := s.exam.patientConsultancyFee
  diagnosis p := (s.patient p).myPatientDiagnosis

def token (s : State n) (p : Fin n.numberOfPatients) : Int := (s.patient p).myPatientToken

-- The moves that leave all papers alone.
def Quiet : Move P → Prop
  | .stays | .opens | .reserves | .moves _ .assigned .entering | .moves _ .entering .calling | .closes => True
  | _ => False

-- What a step writes and hands over.
inductive Effect (token : Fin n.numberOfPatients → Int) (v : View n.doorboysCount n.doctorsCount n.numberOfPatients)
    (x : Papers n) : Option (Fin n.doctorsCount × Move (Fin n.numberOfPatients)) → Papers n →
    List (Fin n.doctorsCount × Exam n.numberOfPatients) → Prop where
  | quiet : (∀ d move, label = some (d,move) → Quiet move) → Effect token v x label x []
  | assigns : Effect token v x (some (d,.assigned p)) x [(d,.assigned p)]
  | posts : Effect token v x (some (d,.moves p .calling .posted))
      {x with bucket := Function.update x.bucket d (token p)} []
  | sees : v.server d = .called → (∀ p, v.client p ≠ some (d,.calling)) → x.mind d = none →
      Effect token v x (some (d,.stays)) {x with mind := Function.update x.mind d (some (x.bucket d,none))}
        [(d,.seen (x.bucket d))]
  | draws : x.mind d = some (t,none) → 0 ≤ sickness → sickness ≤ 4 →
      Effect token v x none {x with mind := Function.update x.mind d (some (t,some sickness))} [(d,.drawn t sickness)]
  | writes : x.mind d = some (t,some sickness) → tokenIndex t = some entry →
      Effect token v x (some (d,.answers))
        {x with
          bucket := Function.update x.bucket d sickness
          mind := Function.update x.mind d none
          fee := Function.update x.fee entry sickness} [(d,.written t sickness)]
  | tells : Effect token v x (some (d,.moves p .answered .leaving))
      {x with
        bucket := Function.update x.bucket d (-2)
        diagnosis := Function.update x.diagnosis p (x.bucket d)} [(d,.told p (x.bucket d))]
  | goes : Effect token v x (some (d,.goes p)) x [(d,.released p)]

def examEvent (d : Fin n.doctorsCount) : Event n → Option (Exam n.numberOfPatients)
  | .doctorRead p (some e) => if e = d then some (.assigned p) else none
  | .patientRead e token => if e = d then some (.seen token) else none
  | .sicknessDrawn e token sickness => if e = d then some (.drawn token sickness) else none
  | .feeWritten e token fee => if e = d then some (.written token fee) else none
  | .diagnosisRead p e diagnosis => if e = d then some (.told p diagnosis) else none
  | _ => none

-- A patient that gives back the lock of a doctor leaves it.
def releasedBy (d : Fin n.doctorsCount) : ThreadId n → Op (LockId n) (ConditionId n) → List (Exam n.numberOfPatients)
  | .patient p,.release (.doctorLock e) => if e = d then [.released p] else []
  | _,_ => []

def examIn (d : Fin n.doctorsCount) (entry : Entry (ThreadId n) (LockId n) (ConditionId n) (Event n)) :
    List (Exam n.numberOfPatients) :=
  releasedBy d entry.thread entry.op ++ entry.events.filterMap (examEvent d)

def mailEvent : Event n → Option (Mail n.doorboysCount n.doctorsCount n.numberOfPatients)
  | .doctorStored b d => some (.stored b d)
  | .doctorRead p d => some (.read p d)
  | _ => none

-- The examinations of doctor d, newest first.
def examinations (d : Fin n.doctorsCount) (history : List (Entry (ThreadId n) (LockId n) (ConditionId n) (Event n))) :
    List (Exam n.numberOfPatients) :=
  history.flatMap (examIn d)

-- What went through next_available_doctor.
def mailbox (history : List (Entry (ThreadId n) (LockId n) (ConditionId n) (Event n))) :
    List (Mail n.doorboysCount n.doctorsCount n.numberOfPatients) :=
  history.flatMap fun entry => entry.events.filterMap mailEvent

def notesAt (d : Fin D) (notes : List (Fin D × Exam N)) : List (Exam N) :=
  notes.filterMap fun (e,note) => if e = d then some note else none

-- The mailbox around a step.
def Posted (before : Option (Fin D)) (mails : List (Mail K D N)) (after : Option (Fin D)) : Prop :=
  mails = [] ∧ after = before ∨ ∃ mail, mails = [mail] ∧ Posts before mail after

-- A step of the simulation as the clinic sees it.
def Moved (s : State n) (asleep : ThreadId n → Bool) (s' : State n) (asleep' : ThreadId n → Bool)
    (entry : Entry (ThreadId n) (LockId n) (ConditionId n) (Event n)) : Prop :=
  ∃ label notes, Step (view s asleep) label (view s' asleep') ∧
    Effect (token s) (view s asleep) (papers s) label (papers s') notes ∧
    (∀ d, examIn d entry = notesAt d notes) ∧
    Posted s.door.nextAvailableDoctor (entry.events.filterMap mailEvent) s'.door.nextAvailableDoctor

section
variable {s s' : State n} {asleep asleep' : ThreadId n → Bool}

theorem papers_atExam (exam : ExamData n) (p : Fin n.numberOfPatients) (me : Patient n) :
    papers {s with exam := exam, patient := Function.update s.patient p me} =
      ⟨exam.patientDoctorBucket,(papers s).mind,exam.patientConsultancyFee,
        Function.update (papers s).diagnosis p me.myPatientDiagnosis⟩ := by
  refine congrArg (Papers.mk _ _ _) ?_
  funext q
  by_cases same : q = p
  · subst same; simp [papers]
  · simp [papers,same]

theorem exam_step (ready : (program n).Ready s asleep (.patient p)) (place : (s.patient p).pc = .exam pc)
    (ran : patientExam p s.exam (s.patient p) pc = .ok (exam,me,op,events))
    (sleeps : (program n).Sleeps s (.patient p) asleep op woken asleep') :
    Moved s asleep {s with exam := exam, patient := Function.update s.patient p me} asleep' ⟨.patient p,op,woken,events⟩ := by
  have awake := ready.awake
  have held : (program n).held s (.patient p) = (PatientPc.exam pc).held := by simp [program,held,place]
  have client : (view s asleep).client p = clientOf (.exam pc) false := by simp [view,place,awake]
  have fresh : (view s asleep).fresh p = false := by simp [view,place,freshOf]
  have guest : (view s asleep).guest p = .away := by simp [view,place,guestOf]
  have kept : (papers s).diagnosis = Function.update (papers s).diagnosis p (s.patient p).myPatientDiagnosis :=
    (Function.update_eq_self_iff.mpr rfl).symm
  have others : ∀ q, ThreadId.patient q ≠ .patient p → (Function.update s.patient p me q).pc = (s.patient q).pc := by
    intro q other
    have differs : q ≠ p := by rintro rfl; exact other rfl
    simp [differs]
  have moved : ∀ b, freshOf me.pc = false → guestOf me.pc b = .away →
      view {s with exam := exam, patient := Function.update s.patient p me} (Function.update asleep (.patient p) b) =
        {view s asleep with client := Function.update (view s asleep).client p (clientOf me.pc b)} := by
    intro b one two
    rw [view_exam_moves,one,two]
    exact View.ext rfl rfl rfl (Function.update_eq_self_iff.mpr fresh.symm) rfl rfl rfl rfl
      (Function.update_eq_self_iff.mpr guest.symm)
  have walks := moved false
  rw [show Function.update asleep (.patient p) false = asleep from Function.update_eq_self_iff.mpr awake.symm] at walks
  unfold patientExam at ran
  split at ran
  · rename_i d
    cases ran
    obtain ⟨desks,wakes,free,reserved,same,result⟩ := wakes_view
      {s with patient := Function.update s.patient p {s.patient p with pc := .exam (.doctorSignalled d)}} awake sleeps
      (fun _ _ => rfl) others
    rw [walks rfl rfl] at wakes free reserved same result
    refine ⟨some (d,.moves p .entering .calling),[],?_,?_,by simp [examIn,releasedBy,notesAt],Or.inl ⟨rfl,rfl⟩⟩
    · rw [show view _ asleep' = _ from result]
      refine .serves (.calls client ?_ wakes) free reserved same
      intro opened
      exact ready.alone (.doctorLock d) (by simp [held,PatientPc.held]) (.doctor d) (by simp) (opened_active opened)
    · rw [papers_atExam,← kept]
      exact .quiet (by simp [Quiet])
  · rename_i d
    cases ran
    cases sleeps
    refine ⟨some (d,.moves p .calling .posted),[],?_,?_,by simp [examIn,releasedBy,notesAt],Or.inl ⟨rfl,rfl⟩⟩
    · rw [moved true rfl rfl]
      have step : Rendezvous.Step (view s asleep).desks d _ _ := .posts client
      exact .serves step rfl rfl rfl
    · rw [papers_atExam,← kept]
      exact .posts
  · rename_i d
    split at ran
    · cases ran
    · cases ran
      obtain ⟨desks,wakes,free,reserved,same,result⟩ := wakes_view
        {s with
          exam := {s.exam with patientDoctorBucket := Function.update s.exam.patientDoctorBucket d (-2)}
          patient := Function.update s.patient p {s.patient p with
            pc := .exam (.leaveSignalled d)
            myPatientDiagnosis := s.exam.patientDoctorBucket d}} awake sleeps (fun _ _ => rfl) others
      rw [walks rfl rfl] at wakes free reserved same result
      refine ⟨some (d,.moves p .answered .leaving),[(d,.told p (s.exam.patientDoctorBucket d))],?_,?_,?_,
        Or.inl ⟨rfl,rfl⟩⟩
      · rw [show view _ asleep' = _ from result]
        refine .serves (.leaves client ?_ wakes) free reserved same
        intro answered
        exact ready.alone (.doctorLock d) (by simp [held,PatientPc.held]) (.doctor d) (by simp) (answered_active answered)
      · rw [papers_atExam]
        exact .tells
      · intro e
        simp only [examIn,releasedBy,notesAt,examEvent,List.filterMap_cons,List.filterMap_nil,List.nil_append]
  · rename_i d
    cases ran
    cases sleeps
    refine ⟨some (d,.goes p),[(d,.released p)],?_,?_,?_,Or.inl ⟨rfl,rfl⟩⟩
    · rw [walks rfl rfl]
      have step : Rendezvous.Step (view s asleep).desks d _ _ := .goes client
      exact .serves step rfl rfl rfl
    · rw [papers_atExam,← kept]
      exact .goes
    · intro e
      by_cases same : d = e <;> simp [examIn,releasedBy,notesAt,same]

theorem door_step (holds : Holds (view s asleep)) (ready : (program n).Ready s asleep (.patient p))
    (place : (s.patient p).pc = .door pc) (ran : patientDoor p s.door (s.patient p) pc = .ok (door,me,op,events))
    (sleeps : (program n).Sleeps s (.patient p) asleep op woken asleep') :
    Moved s asleep {s with door := door, patient := Function.update s.patient p me} asleep' ⟨.patient p,op,woken,events⟩ := by
  have awake := ready.awake
  have client : (view s asleep).client p = clientOf (.door pc) false := by simp [view,place,awake]
  have fresh : (view s asleep).fresh p = freshOf (.door pc) := by simp [view,place]
  have guest : (view s asleep).guest p = guestOf (.door pc) false := by simp [view,place,awake]
  have kept : me.myPatientDiagnosis = (s.patient p).myPatientDiagnosis →
      papers {s with door := door, patient := Function.update s.patient p me} = papers s := by
    intro same
    refine congrArg (Papers.mk _ _ _) ?_
    funext q
    by_cases at_ : q = p
    · subst at_; simpa using same
    · simp [at_]
  have walks := view_door_moves (s := s) asleep door p me false
  rw [show Function.update asleep (.patient p) false = asleep from Function.update_eq_self_iff.mpr awake.symm] at walks
  have still : door = s.door → clientOf me.pc false = clientOf (.door pc) false → freshOf me.pc = freshOf (.door pc) →
      guestOf me.pc false = guestOf (.door pc) false →
      view {s with door := door, patient := Function.update s.patient p me} asleep = view s asleep := by
    rintro rfl one two three
    rw [walks,one,two,three]
    exact View.ext rfl rfl (Function.update_eq_self_iff.mpr client.symm) (Function.update_eq_self_iff.mpr fresh.symm)
      rfl rfl rfl rfl (Function.update_eq_self_iff.mpr guest.symm)
  unfold patientDoor at ran
  split at ran
  · cases ran
    cases sleeps
    refine ⟨none,[],?_,?_,by simp [examIn,releasedBy,notesAt],Or.inl ⟨rfl,rfl⟩⟩
    · rw [still rfl rfl rfl rfl]
      exact .idles
    · rw [kept rfl]
      exact .quiet (by simp)
  · cases ran
    refine ⟨none,[],?_,?_,by simp [examIn,releasedBy,notesAt],Or.inl ⟨rfl,rfl⟩⟩
    · have joined : view {s with
          door := {s.door with numberOfPatientsInDoorboyLine := s.door.numberOfPatientsInDoorboyLine + 1}
          patient := Function.update s.patient p {s.patient p with pc := .door .lineFullSignalled}} asleep =
          {view s asleep with
            number := (view s asleep).number + 1
            guest := Function.update (view s asleep).guest p .queueing} := by
        rw [walks]
        exact View.ext rfl rfl (Function.update_eq_self_iff.mpr client.symm) (Function.update_eq_self_iff.mpr fresh.symm)
          rfl rfl rfl rfl rfl
      cases sleeps with
      | @wakes u c l sleeping site =>
        obtain ⟨b,rfl,pc⟩ := sleeping_sleeper site
        rw [view_boy_sleeps,joined,pc]
        exact .joins guest (by simp [view,pc,sleeping,boyOf])
      | unheard nobody =>
        rw [joined]
        refine .joinsAlone guest ?_
        intro b idle
        obtain ⟨pc,sleeping⟩ := boyOf_idle idle
        exact nobody (.doorboy b) sleeping (by simp [program,site,pc,DoorboyPc.site])
    · rw [kept rfl]
      exact .quiet (by simp)
  · cases ran
    cases sleeps
    refine ⟨none,[],?_,?_,by simp [examIn,releasedBy,notesAt],Or.inl ⟨rfl,rfl⟩⟩
    · rw [view_door_moves]
      have moved : ({view s asleep with
          client := Function.update (view s asleep).client p none
          fresh := Function.update (view s asleep).fresh p true
          guest := Function.update (view s asleep).guest p .inLine} : View _ _ _) =
          {view s asleep with guest := Function.update (view s asleep).guest p .inLine} :=
        View.ext rfl rfl (Function.update_eq_self_iff.mpr client.symm) (Function.update_eq_self_iff.mpr fresh.symm)
          rfl rfl rfl rfl rfl
      exact moved ▸ .linesUp guest
    · rw [kept rfl]
      exact .quiet (by simp)
  · cases ran
    obtain ⟨d,b,full,waiting⟩ := holds.reads guest (fun b calling => ready.alone .doorboyLineLock
      (by simp [program,held,place,PatientPc.held]) (.doorboy b) (by simp) (boy_calling_active calling))
    have full : s.door.nextAvailableDoctor = some d := full
    refine ⟨some (d,.assigned p),[(d,.assigned p)],?_,?_,?_,Or.inr ⟨.read p (some d),by simp [mailEvent,full],?_⟩⟩
    · cases sleeps with
      | @wakes u c l sleeping site =>
        obtain ⟨b,rfl,pc⟩ := sleeping_sleeper site
        have step := Step.reads (v := view s asleep) (b := b) guest fresh full (by simp [view,pc,sleeping,boyOf])
        rw [view_boy_sleeps,walks,pc,full]
        exact step
      | unheard nobody =>
        obtain ⟨pc,sleeping⟩ := boyOf_waiting waiting
        exact absurd (by simp [program,site,pc,DoorboyPc.site]) (nobody (.doorboy b) sleeping)
    · rw [kept rfl]
      exact .assigns
    · intro e
      by_cases same : d = e <;> simp [examIn,releasedBy,notesAt,examEvent,full,same]
    · rw [full]
      exact .read
  · cases ran
    cases sleeps
    refine ⟨none,[],?_,?_,by simp [examIn,releasedBy,notesAt],Or.inl ⟨rfl,rfl⟩⟩
    · rename_i d
      rw [still rfl (by cases d <;> rfl) rfl rfl]
      exact .idles
    · rw [kept rfl]
      exact .quiet (by simp)
  · cases ran
  · rename_i d
    cases ran
    cases sleeps
    refine ⟨some (d,.moves p .assigned .entering),[],?_,?_,by simp [examIn,releasedBy,notesAt],Or.inl ⟨rfl,rfl⟩⟩
    · rw [walks]
      have moved : ({view s asleep with
          client := Function.update (view s asleep).client p (some (d,.entering))
          fresh := Function.update (view s asleep).fresh p false
          guest := Function.update (view s asleep).guest p .away} : View _ _ _) =
          {view s asleep with client := Function.update (view s asleep).client p (some (d,.entering))} :=
        View.ext rfl rfl rfl (Function.update_eq_self_iff.mpr fresh.symm)
          rfl rfl rfl rfl (Function.update_eq_self_iff.mpr guest.symm)
      have step : Rendezvous.Step (view s asleep).desks d _ _ := .arrives client
      exact moved ▸ .serves step rfl rfl rfl
    · rw [kept rfl]
      exact .quiet (by simp [Quiet])

theorem boy_step (holds : Holds (view s asleep)) (ready : (program n).Ready s asleep (.doorboy b))
    (ran : doorboy b s.door (s.doorboy b) = .ok (door,pc,op,events))
    (sleeps : (program n).Sleeps s (.doorboy b) asleep op woken asleep') :
    Moved s asleep {s with door := door, doorboy := Function.update s.doorboy b pc} asleep' ⟨.doorboy b,op,woken,events⟩ := by
  have awake := ready.awake
  have boy : (view s asleep).boy b = boyOf (s.doorboy b) false := by simp [view,awake]
  have moved : ∀ asleep_, view {s with door := door, doorboy := Function.update s.doorboy b pc}
      (Function.update asleep (.doorboy b) asleep_) = {view s asleep with
        free := fun e => door.doctorState e = 0
        available := door.numberOfAvailableDoctors
        number := door.numberOfPatientsInDoorboyLine
        mailbox := door.nextAvailableDoctor
        boy := Function.update (view s asleep).boy b (boyOf pc asleep_)} := by
    intro asleep_
    rw [view_boy_sleeps,view_boy]
    simp only [Function.update_self,Function.update_idem]
  have walks := moved false
  rw [show Function.update asleep (.doorboy b) false = asleep from Function.update_eq_self_iff.mpr awake.symm] at walks
  -- Steps that say nothing to a doctor or through the mailbox.
  have quiet : ∀ label, Step (view s asleep) label (view {s with
        door := door, doorboy := Function.update s.doorboy b pc} asleep') →
      (∀ d move, label = some (d,move) → Quiet move) → events = [] →
      door.nextAvailableDoctor = s.door.nextAvailableDoctor →
      Moved s asleep {s with door := door, doorboy := Function.update s.doorboy b pc} asleep'
        ⟨.doorboy b,op,woken,events⟩ := by
    rintro label step quiet rfl same
    exact ⟨label,[],step,.quiet quiet,by simp [examIn,releasedBy,notesAt],Or.inl ⟨rfl,same⟩⟩
  have still : door = s.door → boyOf pc false = boyOf (s.doorboy b) false →
      view {s with door := door, doorboy := Function.update s.doorboy b pc} asleep = view s asleep := by
    rintro rfl same
    rw [walks,same]
    exact View.ext rfl rfl rfl rfl rfl rfl rfl (Function.update_eq_self_iff.mpr boy.symm) rfl
  have looks : boyOf (s.doorboy b) false = .off ∨ boyOf (s.doorboy b) false = .idle false →
      (if s.door.numberOfPatientsInDoorboyLine = 0 then
        (.ok (s.door,.lineFullWaited,.wait .doorboyLineFullCv .doorboyLineLock,[]) : Outcome n _ _)
      else
        .ok ({s.door with numberOfPatientsInDoorboyLine := s.door.numberOfPatientsInDoorboyLine - 1},.lineReleased,
          .release .doorboyLineLock,[])) = .ok (door,pc,op,events) →
      Moved s asleep {s with door := door, doorboy := Function.update s.doorboy b pc} asleep'
        ⟨.doorboy b,op,woken,events⟩ := by
    intro place ran
    rw [← boy] at place
    split at ran
    · rename_i zero
      cases ran
      cases sleeps
      refine quiet none ?_ (by simp) rfl rfl
      rw [moved]
      exact .sleeps place zero
    · rename_i some_
      cases ran
      cases sleeps
      refine quiet none ?_ (by simp) rfl rfl
      rw [walks]
      exact .takes place some_
  have seeks : boyOf (s.doorboy b) false = .engaged ∨ boyOf (s.doorboy b) false = .seeking false →
      LockId.doctorDoorboyLock ∈ held s (.doorboy b) →
      doorboy b s.door .doctorsAcquired = .ok (door,pc,op,events) →
      Moved s asleep {s with door := door, doorboy := Function.update s.doorboy b pc} asleep'
        ⟨.doorboy b,op,woken,events⟩ := by
    intro place lock ran
    rw [← boy] at place
    simp only [doorboy] at ran
    split at ran
    · rename_i zero
      cases ran
      cases sleeps
      refine quiet none ?_ (by simp) rfl rfl
      rw [moved]
      exact .seeks place zero
    · split at ran
      · cases ran
      · rename_i d found
        cases ran
        cases sleeps
        refine quiet (some (d,.reserves)) ?_ (by simp [Quiet]) rfl rfl
        have free : (fun e => decide (Function.update s.door.doctorState d 1 e = 0)) =
            Function.update (view s asleep).free d false := by
          funext e
          by_cases same : e = d
          · subst same; simp
          · simp [same,view]
        rw [walks]
        simp only [free]
        refine .reserves place (by simp [view,firstFree_free found]) ?_ ?_
        · exact fun opening => ready.alone _ lock (.doctor d) (by simp) (opening_active opening)
        · intro b'
          by_contra inside
          have inside : ((view s asleep).boy b').inside = true := by simpa using inside
          by_cases same : b' = b
          · subst same
            rcases place with place | place <;> simp [place,Boy.inside] at inside
          · exact ready.alone _ lock (.doorboy b') (by simpa using same) (inside_active inside)
  unfold doorboy at ran
  split at ran <;> rename_i place
  · cases ran
    cases sleeps
    exact quiet none (by rw [still rfl (by rw [place]; rfl)]; exact .idles) (by simp) rfl rfl
  · exact looks (Or.inl (by rw [place]; rfl)) ran
  · exact looks (Or.inr (by rw [place]; rfl)) ran
  · cases ran
    cases sleeps
    exact quiet none (by rw [still rfl (by rw [place]; rfl)]; exact .idles) (by simp) rfl rfl
  · exact seeks (Or.inl (by rw [place]; rfl)) (by simp [held,place,DoorboyPc.held]) ran
  · exact seeks (Or.inr (by rw [place]; rfl)) (by simp [held,place,DoorboyPc.held]) ran
  · rename_i d
    cases ran
    have carrying : (view s asleep).boy b = .carrying d := by rw [boy,place]; rfl
    obtain ⟨p,inLine⟩ := holds.stores carrying (fun p queueing => ready.alone .doorboyLineLock
      (by simp [program,held,place,DoorboyPc.held]) (.patient p) (by simp) (queueing_active queueing))
    have empty : s.door.nextAvailableDoctor = none := holds.carrying carrying
    refine ⟨none,[],?_,.quiet (by simp),by simp [examIn,releasedBy,notesAt,examEvent],
      Or.inr ⟨.stored b d,by simp [mailEvent],?_⟩⟩
    · cases sleeps with
      | @wakes u c l sleeping site =>
        obtain ⟨q,rfl,at_⟩ := sleeping_sleeper site
        have step := Step.stores (v := view s asleep) (p := q) carrying (by simp [view,at_,sleeping,guestOf])
        rw [view_patient_sleeps,walks,at_]
        have client : Function.update (view s asleep).client q none = (view s asleep).client :=
          Function.update_eq_self_iff.mpr (by simp [view,at_,clientOf])
        simp only [clientOf,guestOf,client]
        exact step
      | unheard nobody =>
        obtain ⟨at_,sleeping⟩ := guestOf_inLine inLine
        exact absurd (by simp [program,site,at_,PatientPc.site]) (nobody (.patient p) sleeping)
    · rw [empty]
      exact .stored
  · cases ran
    cases sleeps
    refine quiet none ?_ (by simp) rfl rfl
    rw [moved]
    exact .rests (by rw [boy,place]; rfl)
  · split at ran
    · cases ran
      cases sleeps
      refine quiet none ?_ (by simp) rfl rfl
      rw [walks]
      exact .returns (by rw [boy,place]; rfl)
    · cases ran
  · split at ran
    · cases ran
      cases sleeps
      refine quiet none ?_ (by simp) rfl rfl
      rw [moved]
      have same : Function.update (view s asleep).boy b .off = (view s asleep).boy :=
        Function.update_eq_self_iff.mpr (by rw [boy,place]; rfl)
      simp only [boyOf,same]
      exact .idles
    · cases ran
      cases sleeps
      exact quiet none (by rw [still rfl (by rw [place]; rfl)]; exact .idles) (by simp) rfl rfl
  · cases ran
    cases sleeps
    exact quiet none (by rw [still rfl (by rw [place]; rfl)]; exact .idles) (by simp) rfl rfl

-- A doctor that has told a patient waits until the bucket is empty.
theorem doctor_step (ready : (program n).Ready s asleep (.doctor d))
    (told : s.doctor d = .diagnosisSignalled → s.exam.patientDoctorBucket d ≠ -2)
    (left : s.doctor d = .leaveWaited → s.exam.patientDoctorBucket d = -2)
    (ran : doctor d (s.door,s.exam) draw (s.doctor d) = .ok ((door,exam),pc,op,events))
    (sleeps : (program n).Sleeps s (.doctor d) asleep op woken asleep') :
    Moved s asleep {s with door := door, exam := exam, doctor := Function.update s.doctor d pc} asleep'
      ⟨.doctor d,op,woken,events⟩ := by
  have awake := ready.awake
  have server : (view s asleep).server d = serverOf (s.doctor d) false := by simp [view,awake]
  have mind : (papers s).mind d = mindOf (s.doctor d) := rfl
  have others : ∀ e, ThreadId.doctor e ≠ .doctor d → Function.update s.doctor d pc e = s.doctor e := by
    intro e other
    have differs : e ≠ d := by rintro rfl; exact other rfl
    simp [differs]
  have written : papers {s with door := door, exam := exam, doctor := Function.update s.doctor d pc} =
      {papers s with
        bucket := exam.patientDoctorBucket
        mind := Function.update (papers s).mind d (mindOf pc)
        fee := exam.patientConsultancyFee} := by
    refine congrArg (fun mind => Papers.mk _ mind _ _) ?_
    exact Function.comp_update mindOf s.doctor d pc
  have moved : ∀ b, view {s with door := door, exam := exam, doctor := Function.update s.doctor d pc}
      (Function.update asleep (.doctor d) b) = {view s asleep with
        server := Function.update (view s asleep).server d (serverOf pc b)
        free := fun e => door.doctorState e = 0
        available := door.numberOfAvailableDoctors
        number := door.numberOfPatientsInDoorboyLine
        mailbox := door.nextAvailableDoctor} := by
    intro b
    rw [view_doctor_sleeps,view_doctor]
    simp only [Function.update_self,Function.update_idem]
  have walks := moved false
  rw [show Function.update asleep (.doctor d) false = asleep from Function.update_eq_self_iff.mpr awake.symm] at walks
  -- Steps that say nothing to the patient.
  have quiet : ∀ label, Step (view s asleep) label (view {s with
        door := door, exam := exam, doctor := Function.update s.doctor d pc} asleep') →
      (∀ d move, label = some (d,move) → Quiet move) → events = [] → exam = s.exam →
      door.nextAvailableDoctor = s.door.nextAvailableDoctor → mindOf pc = mindOf (s.doctor d) →
      Moved s asleep {s with door := door, exam := exam, doctor := Function.update s.doctor d pc} asleep'
        ⟨.doctor d,op,woken,events⟩ := by
    rintro label step quiet rfl rfl same still
    refine ⟨label,[],step,?_,by simp [examIn,releasedBy,notesAt],Or.inl ⟨rfl,same⟩⟩
    rw [written,still,← mind,Function.update_eq_self]
    exact .quiet quiet
  have still : door = s.door → serverOf pc false = serverOf (s.doctor d) false →
      view {s with door := door, exam := exam, doctor := Function.update s.doctor d pc} asleep = view s asleep := by
    rintro rfl same
    rw [walks,same]
    exact View.ext (Function.update_eq_self_iff.mpr server.symm) rfl rfl rfl rfl rfl rfl rfl rfl
  have serves : ∀ move next, Rendezvous.Step (view s asleep).desks d move
        {(view s asleep).desks with server := Function.update (view s asleep).server d next} →
      Step (view s asleep) (some (d,move))
        {view s asleep with server := Function.update (view s asleep).server d next} :=
    fun _ _ step => .serves step rfl rfl rfl
  unfold doctor at ran
  dsimp only at ran
  split at ran <;> rename_i place
  · cases ran
    cases sleeps
    exact quiet none (by rw [still rfl (by rw [place]; rfl)]; exact .idles) (by simp) rfl rfl rfl (by rw [place]; rfl)
  · cases ran
    have free : (fun e => decide (Function.update s.door.doctorState d 0 e = 0)) =
        Function.update (view s asleep).free d true := by
      funext e
      by_cases same : e = d
      · subst same; simp
      · simp [same,view]
    have away : (view s asleep).server d = .away := by rw [server,place]; rfl
    refine quiet (some (d,.opens)) ?_ (by simp [Quiet]) rfl rfl rfl (by rw [place]; rfl)
    cases sleeps with
    | @wakes u c l sleeping site =>
      obtain ⟨b,rfl,pc⟩ := sleeping_sleeper site
      rw [view_boy_sleeps,walks,pc]
      simp only [free]
      exact .opens away (by simp [view,pc,sleeping,boyOf])
    | unheard nobody =>
      rw [walks]
      simp only [free]
      refine .opensAlone away ?_
      intro b seeking
      obtain ⟨pc,sleeping⟩ := boyOf_seeking seeking
      exact nobody (.doorboy b) sleeping (by simp [program,site,pc,DoorboyPc.site])
  · cases ran
    cases sleeps
    exact quiet none (by rw [still rfl (by rw [place]; rfl)]; exact .idles) (by simp) rfl rfl rfl (by rw [place]; rfl)
  · cases ran
    cases sleeps
    refine quiet (some (d,.stays)) ?_ (by simp [Quiet]) rfl rfl rfl (by rw [place]; rfl)
    rw [walks]
    exact serves _ _ (.enters (by rw [place] at server; exact server))
  · cases ran
    cases sleeps
    refine quiet (some (d,.stays)) ?_ (by simp [Quiet]) rfl rfl rfl (by rw [place]; rfl)
    rw [moved]
    exact serves _ _ (.rests (by rw [place] at server; exact server))
  · cases ran
    cases sleeps
    have called : (view s asleep).server d = .called := by rw [server,place]; rfl
    have nobody : ∀ p, (view s asleep).client p ≠ some (d,.calling) := fun p calling =>
      ready.alone (.doctorLock d) (by simp [program,held,place,DoctorPc.held]) (.patient p) (by simp)
        (calling_active calling)
    refine ⟨some (d,.stays),[(d,.seen (s.exam.patientDoctorBucket d))],?_,?_,?_,Or.inl ⟨rfl,rfl⟩⟩
    · rw [walks]
      exact serves _ _ (.reads called nobody)
    · rw [written]
      exact .sees called nobody (by rw [mind,place]; rfl)
    · intro e
      simp only [examIn,releasedBy,notesAt,examEvent,List.filterMap_cons,List.filterMap_nil,List.nil_append]
  · rename_i patientToken
    cases ran
    cases sleeps
    refine ⟨none,[(d,.drawn patientToken (draw.second % 5 : Nat))],?_,?_,?_,Or.inl ⟨rfl,rfl⟩⟩
    · rw [still rfl (by rw [place]; rfl)]
      exact .idles
    · rw [written]
      exact .draws (by rw [mind,place]; rfl) (by omega) (by omega)
    · intro e
      simp only [examIn,releasedBy,notesAt,examEvent,List.filterMap_cons,List.filterMap_nil,List.nil_append]
  · cases ran
    cases sleeps
    exact quiet none (by rw [still rfl (by rw [place]; rfl)]; exact .idles) (by simp) rfl rfl rfl (by rw [place]; rfl)
  · rename_i patientToken patientSickness
    split at ran
    · cases ran
    · rename_i entry index
      cases ran
      obtain ⟨desks,wakes,free,reserved,same,result⟩ := wakes_view
        {s with
          exam := {s.exam with
            patientDoctorBucket := Function.update s.exam.patientDoctorBucket d patientSickness
            patientConsultancyFee := Function.update s.exam.patientConsultancyFee entry patientSickness}
          doctor := Function.update s.doctor d .diagnosisSignalled} awake sleeps others (fun _ _ => rfl)
      rw [show view _ asleep = _ from walks] at wakes free reserved same result
      refine ⟨some (d,.answers),[(d,.written patientToken patientSickness)],?_,?_,?_,Or.inl ⟨rfl,rfl⟩⟩
      · rw [show view _ asleep' = _ from result]
        exact .serves (.answers (Or.inl (by rw [place] at server; exact server)) wakes) free reserved same
      · rw [written]
        exact .writes (by rw [mind,place]; rfl) index
      · intro e
        simp only [examIn,releasedBy,notesAt,examEvent,List.filterMap_cons,List.filterMap_nil,List.nil_append]
  · rw [if_pos (told place)] at ran
    cases ran
    cases sleeps
    refine quiet (some (d,.stays)) ?_ (by simp [Quiet]) rfl rfl rfl (by rw [place]; rfl)
    rw [moved]
    exact serves _ _ (.lingers (by rw [place] at server; exact server))
  · rw [if_neg (not_not.mpr (left place))] at ran
    cases ran
    cases sleeps
    refine quiet (some (d,.closes)) ?_ (by simp [Quiet]) rfl rfl rfl (by rw [place]; rfl)
    rw [walks]
    refine serves _ _ (.dismisses (by rw [place] at server; exact server) ?_ (Or.inr rfl))
    intro p leaving
    exact ready.alone (.doctorLock d) (by simp [program,held,place,DoctorPc.held]) (.patient p) (by simp)
      (leaving_active leaving)

end

end Nachos.Hospital.Clinic
