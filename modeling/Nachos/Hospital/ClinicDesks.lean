import Nachos.Hospital.Clinic
import Nachos.Hospital.Stations

-- The clinic inside the simulation: which steps of the threads are which of its moves.
namespace Nachos.Hospital.Clinic
open Monitor Tally Rendezvous

variable {n : Counts}

def serverOf : DoctorPc → Bool → Server
  | .loop,_ | .doctorsAcquired,_ => .away
  | .availableSignalled,_ | .roomAcquired,_ => .opening
  | .doctorsReleased,_ => .opened
  | .patientWaited,true => .resting
  | .patientWaited,false => .called
  | .randomAcquired _,_ | .examining _ _ _,_ => .busy
  | .diagnosisSignalled,_ => .answered
  | .leaveWaited,true => .lingering
  | .leaveWaited,false => .dismissed

def clientOf : PatientPc n → Bool → Option (Fin n.doctorsCount × Client)
  | .door (.readSignalled (some d)),_ | .door (.lineReleased (some d)),_ => some (d,.assigned)
  | .exam (.roomAcquired d),_ => some (d,.entering)
  | .exam (.doctorSignalled d),_ => some (d,.calling)
  | .exam (.diagnosisWaited d),true => some (d,.posted)
  | .exam (.diagnosisWaited d),false => some (d,.answered)
  | .exam (.leaveSignalled d),_ => some (d,.leaving)
  | _,_ => none

def freshOf : PatientPc n → Bool
  | .reception _ | .door .start | .door .lineAcquired | .door .lineFullSignalled | .door .lineEmptyWaited => true
  | _ => false

def guestOf : PatientPc n → Bool → Guest
  | .door .lineFullSignalled,_ => .queueing
  | .door .lineEmptyWaited,true => .inLine
  | .door .lineEmptyWaited,false => .called
  | _,_ => .away

def boyOf : DoorboyPc n → Bool → Boy n.doctorsCount
  | .loop,_ | .lineAcquired,_ | .doctorsReleased,_ | .breakWaited,_ => .off
  | .lineFullWaited,asleep => .idle asleep
  | .lineReleased,_ | .doctorsAcquired,_ => .engaged
  | .doctorWaited,asleep => .seeking asleep
  | .lineReacquired d,_ => .carrying d
  | .lineEmptySignalled,_ => .calling
  | .readWaited,true => .waiting
  | .readWaited,false => .told

def view (s : State n) (asleep : ThreadId n → Bool) : View n.doorboysCount n.doctorsCount n.numberOfPatients where
  server d := serverOf (s.doctor d) (asleep (.doctor d))
  free d := s.door.doctorState d = 0
  client p := clientOf (s.patient p).pc (asleep (.patient p))
  fresh p := freshOf (s.patient p).pc
  available := s.door.numberOfAvailableDoctors
  number := s.door.numberOfPatientsInDoorboyLine
  mailbox := s.door.nextAvailableDoctor
  boy b := boyOf (s.doorboy b) (asleep (.doorboy b))
  guest p := guestOf (s.patient p).pc (asleep (.patient p))

section
variable {s : State n} {asleep : ThreadId n → Bool}

theorem view_doctor (door : DoorData n) (exam : ExamData n) (d : Fin n.doctorsCount) (pc : DoctorPc) :
    view {s with door := door, exam := exam, doctor := Function.update s.doctor d pc} asleep =
      {view s asleep with
        server := Function.update (view s asleep).server d (serverOf pc (asleep (.doctor d)))
        free := fun e => door.doctorState e = 0
        available := door.numberOfAvailableDoctors
        number := door.numberOfPatientsInDoorboyLine
        mailbox := door.nextAvailableDoctor} := by
  refine View.ext ?_ rfl rfl rfl rfl rfl rfl rfl rfl
  funext e
  by_cases same : e = d
  · subst same; simp [view]
  · simp [view,same]

theorem view_boy (door : DoorData n) (b : Fin n.doorboysCount) (pc : DoorboyPc n) :
    view {s with door := door, doorboy := Function.update s.doorboy b pc} asleep =
      {view s asleep with
        free := fun e => door.doctorState e = 0
        available := door.numberOfAvailableDoctors
        number := door.numberOfPatientsInDoorboyLine
        mailbox := door.nextAvailableDoctor
        boy := Function.update (view s asleep).boy b (boyOf pc (asleep (.doorboy b)))} := by
  refine View.ext rfl rfl rfl rfl rfl rfl rfl ?_ rfl
  funext e
  by_cases same : e = b
  · subst same; simp [view]
  · simp [view,same]

theorem view_atDoor (door : DoorData n) (p : Fin n.numberOfPatients) (me : Patient n) :
    view {s with door := door, patient := Function.update s.patient p me} asleep =
      {view s asleep with
        free := fun e => door.doctorState e = 0
        client := Function.update (view s asleep).client p (clientOf me.pc (asleep (.patient p)))
        fresh := Function.update (view s asleep).fresh p (freshOf me.pc)
        available := door.numberOfAvailableDoctors
        number := door.numberOfPatientsInDoorboyLine
        mailbox := door.nextAvailableDoctor
        guest := Function.update (view s asleep).guest p (guestOf me.pc (asleep (.patient p)))} := by
  refine View.ext rfl rfl ?_ ?_ rfl rfl rfl rfl ?_
  all_goals
    funext q
    by_cases same : q = p
    · subst same; simp [view]
    · simp [view,same]

theorem view_doctor_sleeps (d : Fin n.doctorsCount) (b : Bool) :
    view s (Function.update asleep (.doctor d) b) =
      {view s asleep with server := Function.update (view s asleep).server d (serverOf (s.doctor d) b)} := by
  refine View.ext ?_ rfl (by simp [view]) rfl rfl rfl rfl (by simp [view]) (by simp [view])
  funext e
  by_cases same : e = d
  · subst same; simp [view]
  · simp [view,same]

theorem view_boy_sleeps (k : Fin n.doorboysCount) (b : Bool) :
    view s (Function.update asleep (.doorboy k) b) =
      {view s asleep with boy := Function.update (view s asleep).boy k (boyOf (s.doorboy k) b)} := by
  refine View.ext (by simp [view]) rfl (by simp [view]) rfl rfl rfl rfl ?_ (by simp [view])
  funext e
  by_cases same : e = k
  · subst same; simp [view]
  · simp [view,same]

theorem view_patient_sleeps (p : Fin n.numberOfPatients) (b : Bool) :
    view s (Function.update asleep (.patient p) b) =
      {view s asleep with
        client := Function.update (view s asleep).client p (clientOf (s.patient p).pc b)
        guest := Function.update (view s asleep).guest p (guestOf (s.patient p).pc b)} := by
  refine View.ext (by simp [view]) rfl ?_ rfl rfl rfl rfl (by simp [view]) ?_
  all_goals
    funext q
    by_cases same : q = p
    · subst same; simp [view]
    · simp [view,same]

-- A patient moves, asleep or awake.
theorem view_door_moves (asleep : ThreadId n → Bool) (door : DoorData n) (p : Fin n.numberOfPatients) (me : Patient n) (b : Bool) :
    view {s with door := door, patient := Function.update s.patient p me} (Function.update asleep (.patient p) b) =
      {view s asleep with
        free := fun e => door.doctorState e = 0
        client := Function.update (view s asleep).client p (clientOf me.pc b)
        fresh := Function.update (view s asleep).fresh p (freshOf me.pc)
        available := door.numberOfAvailableDoctors
        number := door.numberOfPatientsInDoorboyLine
        mailbox := door.nextAvailableDoctor
        guest := Function.update (view s asleep).guest p (guestOf me.pc b)} := by
  rw [view_patient_sleeps,view_atDoor]
  simp only [Function.update_self,Function.update_idem]

theorem view_exam_moves (exam : ExamData n) (p : Fin n.numberOfPatients) (me : Patient n) (b : Bool) :
    view {s with exam := exam, patient := Function.update s.patient p me} (Function.update asleep (.patient p) b) =
      {view s asleep with
        client := Function.update (view s asleep).client p (clientOf me.pc b)
        fresh := Function.update (view s asleep).fresh p (freshOf me.pc)
        guest := Function.update (view s asleep).guest p (guestOf me.pc b)} :=
  view_door_moves (s := {s with exam := exam}) asleep s.door p me b

theorem clientOf_posted {at_ : PatientPc n} (here : clientOf at_ b = some (d,.posted)) :
    at_ = .exam (.diagnosisWaited d) ∧ b = true := by
  revert here
  fun_cases clientOf at_ b <;> simp_all

theorem clientOf_calling {at_ : PatientPc n} (here : clientOf at_ b = some (d,.calling)) :
    at_ = .exam (.doctorSignalled d) := by
  revert here
  fun_cases clientOf at_ b <;> simp_all

theorem clientOf_leaving {at_ : PatientPc n} (here : clientOf at_ b = some (d,.leaving)) :
    at_ = .exam (.leaveSignalled d) := by
  revert here
  fun_cases clientOf at_ b <;> simp_all

theorem guestOf_queueing {at_ : PatientPc n} (here : guestOf at_ b = .queueing) : at_ = .door .lineFullSignalled := by
  revert here
  fun_cases guestOf at_ b <;> simp_all

theorem guestOf_inLine {at_ : PatientPc n} (here : guestOf at_ b = .inLine) :
    at_ = .door .lineEmptyWaited ∧ b = true := by
  revert here
  fun_cases guestOf at_ b <;> simp_all

theorem guestOf_called {at_ : PatientPc n} (here : guestOf at_ b = .called) :
    at_ = .door .lineEmptyWaited ∧ b = false := by
  revert here
  fun_cases guestOf at_ b <;> simp_all

theorem serverOf_resting (here : serverOf at_ b = .resting) : at_ = .patientWaited ∧ b = true := by
  revert here
  fun_cases serverOf at_ b <;> simp_all

theorem serverOf_lingering (here : serverOf at_ b = .lingering) : at_ = .leaveWaited ∧ b = true := by
  revert here
  fun_cases serverOf at_ b <;> simp_all

theorem serverOf_opening (here : serverOf at_ b = .opening) : at_ = .availableSignalled ∨ at_ = .roomAcquired := by
  revert here
  fun_cases serverOf at_ b <;> simp_all

theorem serverOf_opened (here : serverOf at_ b = .opened) : at_ = .doctorsReleased := by
  revert here
  fun_cases serverOf at_ b <;> simp_all

theorem serverOf_answered (here : serverOf at_ b = .answered) : at_ = .diagnosisSignalled := by
  revert here
  fun_cases serverOf at_ b <;> simp_all

theorem boyOf_idle {at_ : DoorboyPc n} (here : boyOf at_ b = .idle true) : at_ = .lineFullWaited ∧ b = true := by
  revert here
  fun_cases boyOf at_ b <;> simp_all

theorem boyOf_seeking {at_ : DoorboyPc n} (here : boyOf at_ b = .seeking true) : at_ = .doctorWaited ∧ b = true := by
  revert here
  fun_cases boyOf at_ b <;> simp_all

theorem boyOf_waiting {at_ : DoorboyPc n} (here : boyOf at_ b = .waiting) : at_ = .readWaited ∧ b = true := by
  revert here
  fun_cases boyOf at_ b <;> simp_all

theorem boyOf_calling {at_ : DoorboyPc n} (here : boyOf at_ b = .calling) : at_ = .lineEmptySignalled := by
  revert here
  fun_cases boyOf at_ b <;> simp_all

-- Threads in the middle of a critical section.
theorem opening_active (place : (view s asleep).server d = .opening) :
    (program n).Active s (.doctor d) .doctorDoorboyLock := by
  rcases serverOf_opening place with pc | pc
  all_goals simp [Program.Active,program,held,site,pc,DoctorPc.held,DoctorPc.site,Site.needs]

theorem opened_active (place : (view s asleep).server d = .opened) :
    (program n).Active s (.doctor d) (.doctorLock d) := by
  simp [Program.Active,program,held,site,serverOf_opened place,DoctorPc.held,DoctorPc.site,Site.needs]

theorem answered_active (place : (view s asleep).server d = .answered) :
    (program n).Active s (.doctor d) (.doctorLock d) := by
  simp [Program.Active,program,held,site,serverOf_answered place,DoctorPc.held,DoctorPc.site,Site.needs]

theorem calling_active (place : (view s asleep).client p = some (d,.calling)) :
    (program n).Active s (.patient p) (.doctorLock d) := by
  simp [Program.Active,program,held,site,clientOf_calling place,PatientPc.held,PatientPc.site,Site.needs]

theorem leaving_active (place : (view s asleep).client p = some (d,.leaving)) :
    (program n).Active s (.patient p) (.doctorLock d) := by
  simp [Program.Active,program,held,site,clientOf_leaving place,PatientPc.held,PatientPc.site,Site.needs]

theorem queueing_active (place : (view s asleep).guest p = .queueing) :
    (program n).Active s (.patient p) .doorboyLineLock := by
  simp [Program.Active,program,held,site,guestOf_queueing place,PatientPc.held,PatientPc.site,Site.needs]

theorem boy_calling_active (place : (view s asleep).boy b = .calling) :
    (program n).Active s (.doorboy b) .doorboyLineLock := by
  simp [Program.Active,program,held,site,boyOf_calling place,DoorboyPc.held,DoorboyPc.site,Site.needs]

-- A door-boy keeps doctor_doorboy_lock from the choice of a doctor until a
-- patient has read it, over a Wait on another lock.
theorem inside_active (place : ((view s asleep).boy b).inside = true) :
    (program n).Active s (.doorboy b) .doctorDoorboyLock := by
  simp only [view] at place
  cases pc : s.doorboy b <;> simp [pc,boyOf,Boy.inside] at place <;>
    simp [Program.Active,program,held,site,pc,DoorboyPc.held,DoorboyPc.site,Site.needs,lockOf]

-- A Signal at a doctor's room, as the view has it.
theorem wakes_view (s' : State n) (awake : asleep t = false)
    (sleeps : (program n).Sleeps s t asleep (.signal (.doctorCv d) l) woken asleep')
    (doctors : ∀ e, .doctor e ≠ t → s'.doctor e = s.doctor e)
    (patients : ∀ p, .patient p ≠ t → (s'.patient p).pc = (s.patient p).pc) :
    ∃ desks, Wakes (view s' asleep).desks d desks ∧ desks.free = (view s' asleep).free ∧
      desks.reserved = (view s' asleep).carries ∧ desks.fresh = (view s' asleep).fresh ∧
      view s' asleep' = {view s' asleep with server := desks.server, client := desks.client} := by
  cases sleeps with
  | @wakes u c l sleeping site =>
    have other : u ≠ t := by rintro rfl; simp [awake] at sleeping
    rcases sleeping_sleeper site with ⟨rfl,pc⟩ | ⟨p,rfl,place⟩
    · have same := doctors d other
      rcases pc with pc | pc
      · refine ⟨_,.resting (by simp [View.desks,view,same,pc,sleeping,serverOf]),rfl,rfl,rfl,?_⟩
        rw [view_doctor_sleeps,same,pc]
        rfl
      · refine ⟨_,.lingering (by simp [View.desks,view,same,pc,sleeping,serverOf]),rfl,rfl,rfl,?_⟩
        rw [view_doctor_sleeps,same,pc]
        rfl
    · have place := (patients p other).trans place
      refine ⟨_,.client (p := p) (by simp [View.desks,view,place,sleeping,clientOf]),rfl,rfl,rfl,?_⟩
      rw [view_patient_sleeps,place]
      exact View.ext rfl rfl rfl rfl rfl rfl rfl rfl
        (Function.update_eq_self_iff.mpr (by simp [view,place,guestOf]))
  | unheard nobody =>
    refine ⟨_,.nobody ?_ ?_ ?_,rfl,rfl,rfl,rfl⟩
    · intro place
      obtain ⟨pc,sleeping⟩ := serverOf_resting place
      have other : .doctor d ≠ t := by rintro rfl; simp [awake] at sleeping
      rw [doctors d other] at pc
      exact nobody (.doctor d) sleeping (by simp [program,site,pc,DoctorPc.site])
    · intro place
      obtain ⟨pc,sleeping⟩ := serverOf_lingering place
      have other : .doctor d ≠ t := by rintro rfl; simp [awake] at sleeping
      rw [doctors d other] at pc
      exact nobody (.doctor d) sleeping (by simp [program,site,pc,DoctorPc.site])
    · intro p place
      obtain ⟨at_,sleeping⟩ := clientOf_posted place
      have other : .patient p ≠ t := by rintro rfl; simp [awake] at sleeping
      rw [patients p other] at at_
      exact nobody (.patient p) sleeping (by simp [program,site,at_,PatientPc.site])

end

end Nachos.Hospital.Clinic
