import Nachos.Blocked
import Nachos.Hospital.Departures
import Nachos.Hospital.LockOrder
import Nachos.Hospital.Standstill

-- While all other threads are BLOCKED the manager goes on alone, and its loop wakes one of them.
namespace Nachos.Hospital
open Monitor Tally

variable {n : Counts}

abbrev Simulation (n : Counts) := Machine (ThreadId n) (LockId n) (ConditionId n) (State n) (Event n)

-- A sleeper holds nothing but the lock it will come back with, except for a
-- door-boy that waits for its patient inside doctor_doorboy_lock.
theorem sleeper_holds {s : State n} (place : site s t = .sleeping c) (holds : l ∈ held s t) (other : lockOf c ≠ l) :
    l = .doctorDoorboyLock ∧ ∃ b, t = .doorboy b ∧ s.doorboy b = .readWaited := by
  have sleeper := sleeping_sleeper place
  cases c with
  | receptionistBreakCv | cashierBreakCv | pharmacistBreakCv =>
    obtain ⟨i,rfl,pc⟩ := sleeper
    simp_all [held,ReceptionistPc.held,ClerkPc.held,lockOf]
  | doorboyBreakCv | doorboyLineFullCv | doctorAvailableCv =>
    obtain ⟨b,rfl,pc⟩ := sleeper
    simp_all [held,DoorboyPc.held,lockOf]
  | patientReadNextAvailableDoctorCv =>
    obtain ⟨b,rfl,pc⟩ := sleeper
    simp only [held,pc,DoorboyPc.held,List.mem_cons,List.not_mem_nil,or_false] at holds
    exact ⟨holds.resolve_left (Ne.symm other),b,rfl,pc⟩
  | receptionistLineEmptyCv r =>
    obtain ⟨rfl,pc⟩ := sleeper
    simp_all [held,ReceptionistPc.held,lockOf]
  | receptionistLineFullCv r | doorboyLineEmptyCv | cashierLineEmptyCv | pharmacistLineEmptyCv =>
    obtain ⟨p,rfl,pc⟩ := sleeper
    simp_all [held,PatientPc.held,VisitPc.held,lockOf]
  | receptionistCv r =>
    rcases sleeper with ⟨rfl,pc | pc⟩ | ⟨p,rfl,pc⟩
    all_goals simp_all [held,PatientPc.held,ReceptionistPc.held,lockOf]
  | doctorCv d =>
    rcases sleeper with ⟨rfl,pc | pc⟩ | ⟨p,rfl,pc⟩
    all_goals simp_all [held,PatientPc.held,DoctorPc.held,lockOf]
  | cashierCv i | pharmacistCv i =>
    rcases sleeper with ⟨rfl,pc | ⟨about,pc⟩⟩ | ⟨p,rfl,pc⟩
    all_goals simp_all [held,PatientPc.held,VisitPc.held,ClerkPc.held,lockOf]

-- Who has ended has given everything back.
theorem ended_holds {s : State n} (ended : site s t = .ended) : held s t = [] := by
  rcases ended_finished ended with ⟨rfl,pc⟩ | ⟨p,rfl,pc⟩
  · simp [held,pc,ManagerPc.held]
  · simp [held,pc,PatientPc.held]

-- All other threads are BLOCKED, and the manager owns no lock.
structure Stuck (m : Simulation n) : Prop where
  reached : Machine.Reached (program n) m
  others : ∀ t, t ≠ .hospitalManager → m.kernel.status t = .BLOCKED
  nothing : ∀ l, (m.kernel.lock l).ownerThread ≠ some .hospitalManager

section
variable {m : Simulation n}

-- The owners lead to a door-boy that waits for its patient.
theorem Stuck.owners_lead (stuck : Stuck m) (owned : (m.kernel.lock l).ownerThread = some t) :
    rank l = 0 ∧ ∃ b, m.state.doorboy b = .readWaited ∧ Machine.asleep m.kernel (.doorboy b) = true := by
  obtain ⟨valid,coupled⟩ := Machine.reached_valid (disciplined n) stuck.reached
  have blocked : ∀ l t, (m.kernel.lock l).ownerThread = some t → m.kernel.status t = .BLOCKED := by
    intro l t owned
    refine stuck.others t ?_
    rintro rfl
    exact stuck.nothing l owned
  have bounded : ∀ l : LockId n, rank l ≤ 2 := fun l => by cases l <;> simp [rank]
  obtain ⟨l',u,higher,owner,sleeps | ended⟩ := Machine.owners_lead (ordered n) valid coupled bounded blocked owned
  · obtain ⟨c,place,other⟩ := Machine.asleep_gaveUp valid coupled sleeps owner
    obtain ⟨rfl,b,rfl,waits⟩ := sleeper_holds place (coupled.owns _ _ owner) other
    exact ⟨Nat.le_zero.mp higher,b,waits,sleeps⟩
  · have holds := coupled.owns _ _ owner
    rw [show (program n).held m.state u = [] from ended_holds ended] at holds
    simp at holds

-- The patient that door-boy called would be in front of doorboy_line_lock, which
-- is of higher rank than any lock with an owner.
theorem Stuck.unowned (stuck : Stuck m) (l : LockId n) : (m.kernel.lock l).ownerThread = none := by
  by_contra owned
  obtain ⟨t,owned⟩ := Option.ne_none_iff_exists'.mp owned
  obtain ⟨valid,coupled⟩ := Machine.reached_valid (disciplined n) stuck.reached
  obtain ⟨_,b,waits,sleeps⟩ := stuck.owners_lead owned
  obtain ⟨⟨holder,case,kept⟩,_⟩ := Clinic.runs_kept (Machine.reached_runs (disciplined n) stuck.reached)
  have full := kept.holds.mail.mpr ⟨b,by simp [Clinic.view,waits,sleeps,Clinic.boyOf,Clinic.Boy.calls]⟩
  obtain ⟨p,called⟩ := kept.holds.called.mp full
  obtain ⟨place,awake⟩ := Clinic.guestOf_called called
  rcases Machine.blocked_place valid coupled (stuck.others (.patient p) (by simp)) with
    ⟨l',entering,u,owner⟩ | sleeps' | ended
  · have needs := (coupled.entering entering).1
    simp only [program,site,place,PatientPc.site,Site.needs,lockOf,Option.some.injEq] at needs
    subst needs
    have low := (stuck.owners_lead owner).1
    simp [rank] at low
  · rw [sleeps'] at awake
    cases awake
  · simp [program,site,place,PatientPc.site] at ended

theorem Stuck.queues (stuck : Stuck m) (l : LockId n) : (m.kernel.lock l).waitQueue = [] := by
  obtain ⟨valid,_⟩ := Machine.reached_valid (disciplined n) stuck.reached
  by_contra waiting
  obtain ⟨t,queued⟩ := List.exists_mem_of_ne_nil _ waiting
  obtain ⟨u,owner⟩ := Machine.queued_owned valid queued
  simp [stuck.unowned l] at owner

-- No lock keeps anybody.
theorem Stuck.still (stuck : Stuck m) : Still m.state (Machine.asleep m.kernel) := by
  intro t other
  obtain ⟨valid,coupled⟩ := Machine.reached_valid (disciplined n) stuck.reached
  rcases Machine.blocked_place valid coupled (stuck.others t other) with ⟨l,_,u,owner⟩ | sleeps | ended
  · simp [stuck.unowned l] at owner
  · exact Or.inl ⟨sleeps,Program.runs_asleep (disciplined n) (Machine.reached_runs (disciplined n) stuck.reached) t sleeps⟩
  · exact Or.inr ended

-- The manager is about to run its own code.
theorem Stuck.manager (stuck : Stuck m) (left : 0 < m.state.patientsInSystem) :
    m.kernel.inside .hospitalManager = .none ∧ m.kernel.status .hospitalManager = .READY := by
  obtain ⟨valid,coupled⟩ := Machine.reached_valid (disciplined n) stuck.reached
  have placed := coupled.place .hospitalManager
  have entering : ∀ l, (m.kernel.inside .hospitalManager).entering ≠ some l := by
    intro l place
    rcases valid.locks.entered l _ place with queued | ⟨owner,_⟩
    · simp [stuck.queues l] at queued
    · exact stuck.nothing l owner
  have outside : m.kernel.inside .hospitalManager = .none := by
    cases inside : m.kernel.inside .hospitalManager with
    | none => rfl
    | acquire l => exact absurd (by rw [inside]; rfl) (entering l)
    | reacquire c l => exact absurd (by rw [inside]; rfl) (entering l)
    | wait c l =>
      simp only [inside,Machine.Placed,program,site] at placed
      cases pc : m.state.manager <;> simp [pc,ManagerPc.site] at placed
    | broadcast => simp [inside,Machine.Placed] at placed
    | finished =>
      simp only [inside,Machine.Placed] at placed
      have ended : site m.state .hospitalManager = .ended := placed
      rcases ended_finished ended with ⟨_,pc⟩ | ⟨p,same,_⟩
      · have counted := runs_counted (Machine.reached_runs (disciplined n) stuck.reached)
        have zero := counted.leaves (by simp [pc,ManagerPc.leaves])
        omega
      · cases same
  exact ⟨outside,valid.waits.awake _ outside⟩

-- Somebody on break sleeps on a condition that the manager will signal.
theorem Stuck.due (stuck : Stuck m) (staffed : n.Staffed) (left : 0 < m.state.patientsInSystem) :
    ∃ c u, due m.state c ∧ u ∈ (m.kernel.condition c).waitQueue := by
  obtain ⟨valid,coupled⟩ := Machine.reached_valid (disciplined n) stuck.reached
  have path := Machine.reached_runs (disciplined n) stuck.reached
  have counted := (runs_counted path).count
  obtain ⟨p,inSystem⟩ := tally_pos.mp (show 0 < tally fun p => (m.state.patient p).pc.inSystem by omega)
  have here : (m.state.patient p).pc.home ≠ .none := by
    rcases stuck.still.patient p with ⟨_,c,place⟩ | ended
    · intro gone
      cases pc : (m.state.patient p).pc with
      | leave pc' => cases pc' <;> simp [pc,PatientPc.site] at place
      | _ => simp [pc,PatientPc.home] at gone
    · simp [ended,PatientPc.inSystem] at inSystem
  obtain ⟨c,u,isDue,sleeps,place⟩ := still_due staffed path stuck.still here
  exact ⟨c,u,isDue,Machine.asleep_queued valid coupled sleeps place⟩

end

-- A Signal on a break condition that makes a BLOCKED thread READY.
def Summons (before after : Simulation n) : Prop :=
  ∃ c u, (c = .receptionistBreakCv ∨ c = .doorboyBreakCv ∨ c = .cashierBreakCv ∨ c = .pharmacistBreakCv) ∧
    after.history = ⟨.hospitalManager,.signal c (lockOf c),some u,[]⟩ :: before.history ∧
    u ∈ (before.kernel.condition c).waitQueue ∧ before.kernel.status u = .BLOCKED ∧ after.kernel.status u = .READY

-- While the manager has not woken anybody.
structure Calm (c : ConditionId n) (m : Simulation n) : Prop where
  reached : Machine.Reached (program n) m
  alone : Machine.Alone m.kernel .hospitalManager
  left : 0 < m.state.patientsInSystem
  isDue : due m.state c
  waiting : (m.kernel.condition c).waitQueue ≠ []

section
variable {m : Simulation n} {c : ConditionId n}

theorem Calm.going (calm : Calm c m) : m.state.manager.leaves = false := by
  by_contra leaves
  have counted := runs_counted (Machine.reached_runs (disciplined n) calm.reached)
  have zero := counted.leaves (by simpa using leaves)
  have left := calm.left
  omega

theorem manager_stops {s : State n} (ran : hospitalManager s draw at_ = (pc,.stop)) : at_.leaves = true := by
  unfold hospitalManager managerCashierSales managerReception at ran
  repeat' split at ran
  all_goals cases ran
  all_goals rfl

-- One turn of the manager: what its code says, and a Signal that is heard or a kernel that stays calm.
theorem Calm.turn (calm : Calm c m) (ran : hospitalManager m.state draw m.state.manager = (pc,op)) :
    ∃ after, m.step (program n) (.exec .hospitalManager draw) = some after ∧ after.state = {m.state with manager := pc} ∧
      (Summons m after ∨ (Calm c after ∧ op ≠ .signal c (lockOf c))) := by
  obtain ⟨valid,coupled⟩ := Machine.reached_valid (disciplined n) calm.reached
  have ready := valid.waits.awake _ calm.alone.outside
  have executed : (program n).exec .hospitalManager m.state draw = .ok ({m.state with manager := pc},op,[]) := by
    simp only [program,exec,ran]
  have follows := manager_follows ran (by rintro ended; have going := calm.going; simp [ended,ManagerPc.leaves] at going)
  have stepped : m.step (program n) (.exec .hospitalManager draw) =
      some ⟨m.kernel.call .hospitalManager (callOf op),{m.state with manager := pc},
        ⟨.hospitalManager,op,Machine.woken m.kernel op,[]⟩ :: m.history⟩ := by
    simp [Machine.step,executed,Kernel.step,ready,calm.alone.outside]
  refine ⟨_,stepped,rfl,?_⟩
  by_cases heard : ∃ d, op = .signal d (lockOf d) ∧ (m.kernel.condition d).waitQueue ≠ []
  · obtain ⟨d,rfl,waiting⟩ := heard
    left
    obtain ⟨u,rest,queue⟩ := List.exists_cons_of_ne_nil waiting
    have bound : (m.kernel.condition d).waitLock = some (lockOf d) :=
      (Machine.bound_lock valid coupled).resolve_left fun none_ => waiting ((valid.waits.null d).mp none_)
    obtain ⟨status,_,blocked⟩ := Kernel.signal_woken valid queue bound
    have breaks := (manager_signals ran).resolve_left (by simp [conditionOf])
    obtain ⟨d',same,breaks⟩ := breaks
    cases same
    refine ⟨d,u,breaks,?_,by simp [queue],blocked,?_⟩
    · simp [Machine.woken,Condition.signal_wakes queue bound]
    · simp [callOf,Kernel.call,status]
  · right
    have unheard : ∀ d l, op = .signal d l → (m.kernel.condition d).waitQueue = [] := by
      rintro d l rfl
      rcases manager_signals ran with none_ | ⟨d',same,_⟩
      · simp [conditionOf] at none_
      · cases same
        by_contra waiting
        exact heard ⟨d,rfl,waiting⟩
    have waits : ∀ d l, op ≠ .wait d l := by
      rintro d l rfl
      rcases manager_signals ran with none_ | ⟨d',same,_⟩
      · simp [conditionOf] at none_
      · cases same
    have stops : op ≠ .stop := by
      rintro rfl
      have going := calm.going
      simp [manager_stops ran] at going
    obtain ⟨alone,status,condition⟩ := calm.alone.call valid coupled follows waits stops unheard
    refine ⟨⟨calm.reached.step stepped,alone,calm.left,?_,?_⟩,?_⟩
    · have isDue := calm.isDue
      cases c <;> exact isDue
    · rw [condition]
      exact calm.waiting
    · rintro same
      exact calm.waiting (unheard c _ same)

end

-- The most turns that are left of a pass.
def ManagerPc.ahead (n : Counts) : ManagerPc → Nat
  | .finished => 0
  | .pharmacySignalled => 1
  | .pharmacyAcquired => 2
  | .cashierReleased => 3
  | .cashierSignalled => 4
  | .cashierAcquired => 5
  | .doorReleased => 6
  | .doorSignalled => 7
  | .doorAcquired => 8
  | .receptionReleased => 9
  | .receptionSignalled i => 10 + (n.numberOfReceptionists - i)
  | .receptionAcquired => 11 + n.numberOfReceptionists
  | .cashierSalesReleased => 12 + n.numberOfReceptionists
  | .cashierSalesAcquired => 13 + n.numberOfReceptionists
  | .pharmacySalesReleased _ => 14 + n.numberOfReceptionists
  | .pharmacySalesAcquired _ => 15 + n.numberOfReceptionists
  | .countReleased _ _ => 16 + n.numberOfReceptionists
  | .countAcquired _ => 17 + n.numberOfReceptionists
  | .waiting _ remaining => 18 + n.numberOfReceptionists + remaining
  | .randomAcquired => 118 + n.numberOfReceptionists
  | .loop => 119 + n.numberOfReceptionists

-- Where the manager looks after the condition.
def lookedAt : ConditionId n → Nat
  | .doorboyBreakCv => 8
  | .cashierBreakCv => 5
  | _ => 2

theorem receptionistRound_some {lengths : Fin r → Int} (found : receptionistRound lengths i = some j) :
    i ≤ j ∧ j < r := by
  obtain ⟨j',there,rfl⟩ := Option.map_eq_some_iff.mp found
  have passes := List.find?_some there
  simp only [decide_eq_true_eq] at passes
  exact ⟨passes.1,j'.isLt⟩

-- A turn goes on in the pass, or ends it.
theorem manager_ahead {s : State n} (ran : hospitalManager s draw at_ = (pc,op)) (going : at_.leaves = false) :
    pc.ahead n < at_.ahead n ∨ (pc = .loop ∧ at_.ahead n ≤ 2) := by
  have pause : draw.first % 75 < 75 := Nat.mod_lt _ (by omega)
  unfold hospitalManager managerCashierSales managerReception at ran
  repeat' split at ran
  all_goals cases ran
  all_goals simp [ManagerPc.ahead,ManagerPc.leaves] at going ⊢
  all_goals first | omega | (rename_i found; have := receptionistRound_some found; omega)

-- No turn goes past one of the three places.
theorem manager_comes {s : State n} {c : ConditionId n} (ran : hospitalManager s draw at_ = (pc,op))
    (ahead : lookedAt c < at_.ahead n) (going : at_.leaves = false) : lookedAt c ≤ pc.ahead n ∧ pc ≠ .loop := by
  have place : lookedAt c = 8 ∨ lookedAt c = 5 ∨ lookedAt c = 2 := by
    unfold lookedAt
    split <;> simp
  generalize lookedAt c = looked at ahead place ⊢
  unfold hospitalManager managerCashierSales managerReception at ran
  repeat' split at ran
  all_goals cases ran
  all_goals simp [ManagerPc.ahead,ManagerPc.leaves] at ahead going ⊢
  all_goals omega

-- Where it looks it gives the Signal if the test holds.
theorem manager_tests {s : State n} {c : ConditionId n} (ran : hospitalManager s draw at_ = (pc,op))
    (isDue : due s c) (here : at_.ahead n = lookedAt c) : op = .signal c (lockOf c) := by
  cases c with
  | doorboyBreakCv | cashierBreakCv | pharmacistBreakCv =>
    cases at_ <;> simp [ManagerPc.ahead,lookedAt] at here
    all_goals try omega
    simp only [due] at isDue
    rw [hospitalManager,if_pos isDue] at ran
    cases ran
    rfl
  | _ => exact absurd isDue id

-- It does not pass over a condition whose test holds.
theorem manager_looks {s : State n} {c : ConditionId n} (ran : hospitalManager s draw at_ = (pc,op))
    (isDue : due s c) (ahead : lookedAt c ≤ at_.ahead n) (going : at_.leaves = false) :
    op = .signal c (lockOf c) ∨ (lookedAt c ≤ pc.ahead n ∧ pc.ahead n < at_.ahead n ∧ pc ≠ .loop) := by
  rcases Nat.lt_or_eq_of_le ahead with later | here
  · obtain ⟨still,goesOn⟩ := manager_comes ran later going
    exact .inr ⟨still,(manager_ahead ran going).resolve_right fun ended => goesOn ended.1,goesOn⟩
  · exact .inl (manager_tests ran isDue here.symm)

-- The manager's turns from here on, with what it draws in each.
def turns (draws : Nat → Draw) (m : Simulation n) : Nat → Option (Simulation n)
  | 0 => some m
  | k + 1 => do
    let after ← m.step (program n) (.exec .hospitalManager (draws 0))
    turns (fun i => draws (i + 1)) after k

-- Turn k wakes somebody.
def Summoned (draws : Nat → Draw) (m : Simulation n) (k : Nat) : Prop :=
  ∃ before after, turns draws m k = some before ∧ turns draws m (k + 1) = some after ∧ Summons before after

-- After k turns the manager is at the top of its loop.
def AtTop (draws : Nat → Draw) (m : Simulation n) (k : Nat) : Prop :=
  ∃ after, turns draws m k = some after ∧ after.state.manager = .loop

section
variable {m : Simulation n} {c : ConditionId n}

theorem turns_succ (stepped : m.step (program n) (.exec .hospitalManager (draws 0)) = some after) (k : Nat) :
    turns draws m (k + 1) = turns (fun i => draws (i + 1)) after k := by
  simp [turns,stepped]

theorem summoned_succ (stepped : m.step (program n) (.exec .hospitalManager (draws 0)) = some after)
    (summoned : Summoned (fun i => draws (i + 1)) after k) : Summoned draws m (k + 1) := by
  obtain ⟨before,last,one,two,summons⟩ := summoned
  exact ⟨before,last,by rw [turns_succ stepped,one],by rw [turns_succ stepped,two],summons⟩

theorem atTop_succ (stepped : m.step (program n) (.exec .hospitalManager (draws 0)) = some after) (k : Nat) :
    AtTop draws m (k + 1) ↔ AtTop (fun i => draws (i + 1)) after k := by
  simp only [AtTop,turns_succ stepped]

theorem atTop_zero : AtTop draws m 0 ↔ m.state.manager = .loop := by simp [AtTop,turns]

theorem summoned_zero (stepped : m.step (program n) (.exec .hospitalManager (draws 0)) = some after)
    (summons : Summons m after) : Summoned draws m 0 :=
  ⟨m,after,rfl,by rw [turns_succ stepped]; rfl,summons⟩

-- What is still to come in a pass comes before the manager is back at the top.
theorem Calm.pass (calm : Calm c m) (ahead : lookedAt c ≤ m.state.manager.ahead n) (draws : Nat → Draw) :
    ∃ k, Summoned draws m k ∧ ∀ j, 0 < j → j ≤ k → ¬AtTop draws m j := by
  obtain ⟨left,measure⟩ : ∃ left, m.state.manager.ahead n = left := ⟨_,rfl⟩
  induction left using Nat.strongRecOn generalizing m draws with
  | ind left ih =>
    rcases ran : hospitalManager m.state (draws 0) m.state.manager with ⟨pc,op⟩
    obtain ⟨after,stepped,state,summons | ⟨calm',other⟩⟩ := calm.turn ran
    · exact ⟨0,summoned_zero stepped summons,fun j positive low => by omega⟩
    · obtain ⟨later,less,inside⟩ := (manager_looks ran calm.isDue ahead calm.going).resolve_left other
      have place : after.state.manager = pc := by rw [state]
      obtain ⟨k,summoned,away⟩ := ih (pc.ahead n) (by omega) calm' (by rwa [place]) (fun i => draws (i + 1)) (by rw [place])
      refine ⟨k + 1,summoned_succ stepped summoned,?_⟩
      intro j positive low
      obtain ⟨i,rfl⟩ : ∃ i, j = i + 1 := ⟨j - 1,by omega⟩
      rw [atTop_succ stepped]
      by_cases first : i = 0
      · subst first
        rwa [atTop_zero,place]
      · exact away i (by omega) (by omega)

theorem ahead_loop (c : ConditionId n) : lookedAt c ≤ ManagerPc.loop.ahead n := by
  cases c <;> simp only [lookedAt,ManagerPc.ahead] <;> omega

-- Otherwise the manager comes to the top once, and a whole pass follows.
theorem Calm.summoned (calm : Calm c m) (draws : Nat → Draw) :
    ∃ k, Summoned draws m k ∧ ∀ i j, i < j → j ≤ k → AtTop draws m i → ¬AtTop draws m j := by
  obtain ⟨left,measure⟩ : ∃ left, m.state.manager.ahead n = left := ⟨_,rfl⟩
  induction left using Nat.strongRecOn generalizing m draws with
  | ind left ih =>
    by_cases ahead : lookedAt c ≤ m.state.manager.ahead n
    · obtain ⟨k,summoned,away⟩ := calm.pass ahead draws
      exact ⟨k,summoned,fun i j less low _ => away j (by omega) low⟩
    · have start : ¬AtTop draws m 0 := by
        rw [atTop_zero]
        intro top
        rw [top] at ahead
        exact ahead (ahead_loop c)
      rcases ran : hospitalManager m.state (draws 0) m.state.manager with ⟨pc,op⟩
      obtain ⟨after,stepped,state,summons | ⟨calm',_⟩⟩ := calm.turn ran
      · exact ⟨0,summoned_zero stepped summons,fun i j less low => by omega⟩
      · have place : after.state.manager = pc := by rw [state]
        obtain ⟨k,summoned,once⟩ : ∃ k, Summoned (fun i => draws (i + 1)) after k ∧
            ∀ i j, i < j → j ≤ k → AtTop (fun i => draws (i + 1)) after i → ¬AtTop (fun i => draws (i + 1)) after j := by
          rcases manager_ahead ran calm.going with less | ⟨rfl,_⟩
          · exact ih (pc.ahead n) (by omega) calm' _ (by rw [place])
          · obtain ⟨k,summoned,away⟩ := calm'.pass (by rw [place]; exact ahead_loop c) fun i => draws (i + 1)
            exact ⟨k,summoned,fun i j less low _ => away j (by omega) low⟩
        refine ⟨k + 1,summoned_succ stepped summoned,?_⟩
        intro i j less low top
        obtain ⟨j',rfl⟩ : ∃ j', j = j' + 1 := ⟨j - 1,by omega⟩
        cases i with
        | zero => exact absurd top start
        | succ i =>
          rw [atTop_succ stepped] at top ⊢
          exact once i j' (by omega) (by omega) top

end

-- With patients left and all other threads BLOCKED, the manager wakes one of them
-- before it comes to the top of its loop for the second time.
theorem hospital_never_stuck (staffed : n.Staffed) (reached : Machine.Reached (program n) m)
    (left : 0 < m.state.patientsInSystem)
    (nothing : ∀ l, (m.kernel.lock l).ownerThread ≠ some .hospitalManager) :
    (∃ t, t ≠ .hospitalManager ∧ m.kernel.status t ≠ .BLOCKED) ∨
    ∀ draws : Nat → Draw, ∃ k, Summoned draws m k ∧ ∀ i j, i < j → j ≤ k → AtTop draws m i → ¬AtTop draws m j := by
  refine or_iff_not_imp_left.mpr fun blocked draws => ?_
  have stuck : Stuck m := ⟨reached,fun t other => not_not.mp fun ready => blocked ⟨t,other,ready⟩,nothing⟩
  obtain ⟨c,u,isDue,queued⟩ := stuck.due staffed left
  have alone : Machine.Alone m.kernel .hospitalManager :=
    ⟨(stuck.manager left).1,stuck.queues,fun l t owned => by simp [stuck.unowned l] at owned⟩
  exact Calm.summoned ⟨reached,alone,left,isDue,List.ne_nil_of_mem queued⟩ draws

-- The pharmacist and the cashier are on break, and the patient stands in the cashier's line.
def cashierOnBreak : Simulation ⟨1,1,1,1,1,1⟩ :=
  (Machine.initial (program ⟨1,1,1,1,1,1⟩)).prioritised (program ⟨1,1,1,1,1,1⟩) ⟨0,1,1⟩
    (everyone ⟨1,1,1,1,1,1⟩).reverse 120

theorem hospital_never_stuck_cashier_on_break :
    Machine.Reached (program ⟨1,1,1,1,1,1⟩) cashierOnBreak ∧ cashierOnBreak.state.cashiers.line.lineLength = 1 ∧
    (∀ t, t ≠ .hospitalManager → cashierOnBreak.kernel.status t = .BLOCKED) ∧
    ∃ k, Summoned (fun _ => ⟨0,0,0⟩) cashierOnBreak k := by
  have reached : Machine.Reached (program ⟨1,1,1,1,1,1⟩) cashierOnBreak :=
    Machine.prioritised_reached .initial _ _ _
  have ran : cashierOnBreak.state.cashiers.line.lineLength = 1 ∧ cashierOnBreak.state.patientsInSystem = 1 ∧
      cashierOnBreak.state.manager.held (n := ⟨1,1,1,1,1,1⟩) = [] ∧
      ∀ t ∈ everyone ⟨1,1,1,1,1,1⟩, cashierOnBreak.kernel.status t = .BLOCKED := by
    decide +kernel
  obtain ⟨length,left,nothing,everyone_⟩ := ran
  have others : ∀ t, t ≠ .hospitalManager → cashierOnBreak.kernel.status t = .BLOCKED := by
    intro t other
    refine everyone_ t ?_
    cases t <;> simp [everyone] at other ⊢
  have owned : ∀ l, (cashierOnBreak.kernel.lock l).ownerThread ≠ some .hospitalManager := by
    intro l owner
    have holds := (Machine.reached_valid (disciplined _) reached).2.owns l _ owner
    rw [show (program _).held cashierOnBreak.state .hospitalManager = [] from nothing] at holds
    simp at holds
  refine ⟨reached,length,others,?_⟩
  rcases hospital_never_stuck ⟨by decide,by decide,by decide,by decide,by decide⟩ reached (by omega) owned with
    ⟨t,other,ready⟩ | summoned
  · exact absurd (others t other) ready
  · obtain ⟨k,woken,_⟩ := summoned fun _ => ⟨0,0,0⟩
    exact ⟨k,woken⟩

end Nachos.Hospital
