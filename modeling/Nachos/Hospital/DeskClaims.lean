import Nachos.Hospital.Faults
import Nachos.Hospital.Cashiers
import Nachos.Hospital.Pharmacy

-- Patients claim the desks of the cashiers and pharmacists one at a time.
namespace Nachos.Hospital
open Monitor Tally Rendezvous

variable {n : Counts}

-- The desk a patient has claimed and not left yet.
def VisitPc.desk : VisitPc desks → Option (Fin desks)
  | .lineReleased i | .deskAcquired i | .deskSignalled i | .answerWaited i | .leaveSignalled i => some i
  | .start | .lineAcquired | .lineWaited => none

namespace Counter

structure Exclusive (c : Counter n D B X)
    (m : Machine (ThreadId n) (LockId n) (ConditionId n) (State n) (Event n)) : Prop where
  count : (c.books m.state).line.availableCount = tally fun i => (c.books m.state).line.state i = 0
  once : ∀ p q i, (c.visit (m.state.patient p).pc).bind VisitPc.desk = some i →
    (c.visit (m.state.patient q).pc).bind VisitPc.desk = some i → p = q
  -- Patients that were signalled and have not looked at the count again.
  wake : (m.kernel.condition c.lineEmptyCv).waitQueue ≠ [] →
    (c.books m.state).line.availableCount ≤ tally fun p => c.visit (m.state.patient p).pc = some .lineWaited ∧
      .patient p ∉ (m.kernel.condition c.lineEmptyCv).waitQueue
  free : (c.books m.state).line.availableCount ≠ 0 → ∃ i, firstFree (c.books m.state).line.state = some i
  rests : ∀ p i, c.visit (m.state.patient p).pc = some (.deskAcquired i) →
    (m.kernel.lock (c.deskLock i)).ownerThread = some (.patient p) →
    c.pc m.state i = .patientWaited ∧ c.clerk i ∈ (m.kernel.condition (c.deskCv i)).waitQueue

section
variable {c : Counter n D B X}

theorem clientOf_desk (here : Option.bind at_ VisitPc.desk = some (i : Fin D)) (b : Bool) :
    ∃ stage, clientOf at_ b = some (i,stage) := by
  cases at_ with
  | none => simp at here
  | some at_ => cases at_ <;> cases b <;> simp_all [VisitPc.desk,clientOf]

theorem waitingOf_some (at_ : Option (VisitPc D)) (b b' : Bool) :
    waitingOf at_ b = some b' ↔ at_ = some .lineWaited ∧ b = b' := by
  fun_cases waitingOf at_ b <;> simp_all

variable {m : Machine (ThreadId n) (LockId n) (ConditionId n) (State n) (Event n)} {s : State n}
  {asleep : ThreadId n → Bool} {papers : Fin D → List (Paper n.numberOfPatients)}
  {holder : Fin D → Holder (Fin n.numberOfPatients)}

-- A patient waiting in front of the line is asleep exactly as long as it is on the queue.
theorem waits_queued (reached : Machine.Reached (program n) m) (here : c.visit (m.state.patient p).pc = some .lineWaited) :
    Machine.asleep m.kernel (.patient p) = true ↔ .patient p ∈ (m.kernel.condition c.lineEmptyCv).waitQueue := by
  obtain ⟨valid,coupled⟩ := Machine.reached_valid (disciplined n) reached
  refine ⟨fun sleeping => Machine.asleep_queued valid coupled sleeping ?_,Machine.queued_asleep valid⟩
  simp [program,site,c.site_visit here,VisitPc.site]

theorem exclusive (reached : Machine.Reached (program n) m)
    (ledger : c.Ledger m.state (Machine.asleep m.kernel) papers holder) : c.Exclusive m := by
  obtain ⟨valid,coupled⟩ := Machine.reached_valid (disciplined n) reached
  have count : (c.books m.state).line.availableCount = tally fun i => (c.books m.state).line.state i = 0 :=
    ledger.holds.count
  refine ⟨count,?_,?_,?_,?_⟩
  · intro p q i one two
    obtain ⟨first,client⟩ := clientOf_desk one (Machine.asleep m.kernel (.patient p))
    obtain ⟨second,client'⟩ := clientOf_desk two (Machine.asleep m.kernel (.patient q))
    exact (ledger.joint.only client client').1
  · intro queue
    obtain ⟨u,queued⟩ := List.exists_mem_of_ne_nil _ queue
    obtain ⟨p,rfl,here⟩ := c.sleeps_line (s := m.state) (u := u) (by
      obtain ⟨blocked,l,place,_⟩ := valid.waits.queued _ _ queued
      have placed := coupled.place u
      rw [place] at placed
      exact placed.1)
    have bound := ledger.holds.wake ⟨p,(waitingOf_some _ _ _).mpr ⟨here,(waits_queued reached here).mpr queued⟩⟩
    refine le_trans bound ?_
    have same : (tally fun p => (c.view m.state (Machine.asleep m.kernel)).waiting p = some false) =
        tally fun p => c.visit (m.state.patient p).pc = some .lineWaited ∧
          .patient p ∉ (m.kernel.condition c.lineEmptyCv).waitQueue := by
      refine tally_congr fun p => decide_eq_decide.mpr ?_
      refine (waitingOf_some _ _ _).trans (and_congr_right fun here => ?_)
      rw [← waits_queued reached here]
      simp
    rw [same]
  · intro some_
    rw [count] at some_
    by_contra nobody
    refine some_ ?_
    have none_ : firstFree (c.books m.state).line.state = none := by
      cases found : firstFree (c.books m.state).line.state with
      | none => rfl
      | some i => exact absurd ⟨i,found⟩ nobody
    exact_mod_cast tally_eq_zero.mpr fun i => by simpa using firstFree_none none_ i
  · intro p i here own
    have client : (c.view m.state (Machine.asleep m.kernel)).desks.client p = some (i,.entering) := by
      simp [view,here,clientOf]
    have resting := ledger.joint.entering client (fun opened => by
      have active : (program n).Active m.state (c.clerk i) (c.deskLock i) := opened_active opened
      rw [Machine.active_owns valid coupled active] at own
      exact c.clerk_patient i p (Option.some.inj own))
    obtain ⟨place,sleeping⟩ := serverOf_resting resting
    refine ⟨place,Machine.asleep_queued valid coupled sleeping ?_⟩
    simp [program,c.site_clerk,place,ClerkPc.site]

-- A clerk that is called finds what its patient asks with.
theorem asked (ledger : c.Ledger s asleep papers holder) (ready : (program n).Ready s asleep (c.clerk i))
    (place : c.pc s i = .patientWaited) :
    ∃ p old, c.fresh s p = false ∧ (c.books s).tray i = c.posting (s.patient p) old := by
  have called : (c.view s asleep).desks.server i = .called := by simp [view,place,ready.awake,serverOf]
  have held : (program n).held s (c.clerk i) = _ := c.held_clerk s i
  obtain ⟨p,posted⟩ := ledger.joint.posted (Or.inr ⟨called,fun p calling =>
    ready.alone (c.deskLock i) (by simp [held,place,ClerkPc.held]) (.patient p) (c.clerk_patient i p).symm
      (calling_active calling)⟩)
  have desk := ledger.desk i
  rw [posted] at desk
  obtain ⟨old,asked⟩ := desk
  exact ⟨p,old,ledger.joint.turn p i (by simp [posted,Holder.patron]),asked⟩

-- A clerk that takes a payment finds the price its patient had to pay.
theorem owed (ledger : c.Ledger s asleep papers holder) (place : c.pc s i = .paymentAcquired about) :
    ∃ p, c.fresh s p = false ∧ c.collected about ((c.books s).tray i) = c.price s p := by
  obtain ⟨p,held⟩ : ∃ p, holder i = .client p .leaving ∨ holder i = .gone p := by
    simpa [view,place,serverOf,Fits] using ledger.joint.fits i
  have desk := ledger.desk i
  obtain ⟨old,b,y,remembers,answered,paid⟩ : ∃ old b y, remembered (c.pc s i) = some b ∧
      c.answering s (c.posting (s.patient p) old) = some (b,y) ∧ (c.books s).tray i = c.paying y := by
    rcases held with held | held <;> (rw [held] at desk; exact desk)
  refine ⟨p,ledger.joint.turn p i ?_,?_⟩
  · rcases held with held | held <;> simp [held,Holder.patron]
  · rw [place] at remembers
    cases remembers
    rw [paid,(c.fair answered).2.2]

end
end Counter

theorem medicineCosts_nonneg (index : Int) : 0 ≤ (lookup medicineCosts index).getD 0 := by
  cases found : lookup medicineCosts index with
  | none => simp
  | some cost =>
    have present : cost ∈ medicineCosts := by
      simp only [lookup] at found
      split at found
      · exact List.mem_of_getElem? found
      · cases found
    simp only [medicineCosts,List.mem_cons,List.not_mem_nil,or_false] at present
    simp only [Option.getD_some]
    omega

-- None of the assertions at the cashiers and pharmacists fails.
theorem runs_claimed (reached : Machine.Reached (program n) m) (ready : (program n).Ready m.state (Machine.asleep m.kernel) t)
    (fails : Fails m.state t fault) :
    fault ≠ .myCashierIndexUnset ∧ fault ≠ .myPharmacistIndexUnset ∧ fault ≠ .cashierPatientTokenUnset ∧
      fault ≠ .pharmacistPatientTokenUnset ∧ fault ≠ .paymentForMedicineUnset := by
  have path := Machine.reached_runs (disciplined n) reached
  obtain ⟨_,cashiers_⟩ := Cashiers.runs_ledger path
  obtain ⟨_,pharmacy_⟩ := Pharmacy.runs_ledger path
  have served : ∀ p, Clinic.examined (m.state.patient p).pc = true → (m.state.patient p).myPatientToken ≠ -2 :=
    fun p past => Reception.runs_served path (Clinic.examined_home past)
  cases fails with
  | noCashier _ _ some_ nobody =>
    obtain ⟨i,found⟩ := (Counter.exclusive reached cashiers_).free some_
    exact absurd (found.symm.trans nobody) (by simp)
  | noPharmacist _ _ some_ nobody =>
    obtain ⟨i,found⟩ := (Counter.exclusive reached pharmacy_).free some_
    exact absurd (found.symm.trans nobody) (by simp)
  | cashierToken place unset =>
    obtain ⟨p,old,had,asked⟩ := Counter.asked (c := cashiers n) cashiers_ ready place
    exact absurd (asked.symm.trans unset) (served p (Cashiers.fresh_examined had))
  | pharmacistToken place unset =>
    obtain ⟨p,old,had,asked⟩ := Counter.asked (c := pharmacy n) pharmacy_ ready place
    exact absurd ((congrArg PharmacyTray.patientToken asked).symm.trans unset) (served p (Pharmacy.fresh_examined had))
  | payment place unset =>
    obtain ⟨p,had,owed⟩ := Counter.owed (c := pharmacy n) pharmacy_ place
    have price := medicineCosts_nonneg (m.state.patient p).myPatientDiagnosis
    have same : -2 = (lookup medicineCosts (m.state.patient p).myPatientDiagnosis).getD 0 := unset.symm.trans owed
    omega
  | _ => exact ⟨by simp,by simp,by simp,by simp,by simp⟩

-- The desks of both counters are claimed by one patient at a time, and none of
-- the assertions about them fails.
theorem desks_claimed_exclusively (reached : Machine.Reached (program n) m) :
    (cashiers n).Exclusive m ∧ (pharmacy n).Exclusive m ∧
    ∀ t draw fault, Machine.Faults (program n) m t draw fault →
      fault ≠ .myCashierIndexUnset ∧ fault ≠ .myPharmacistIndexUnset ∧ fault ≠ .cashierPatientTokenUnset ∧
        fault ≠ .pharmacistPatientTokenUnset ∧ fault ≠ .paymentForMedicineUnset := by
  have path := Machine.reached_runs (disciplined n) reached
  obtain ⟨_,cashiers_⟩ := Cashiers.runs_ledger path
  obtain ⟨_,pharmacy_⟩ := Pharmacy.runs_ledger path
  refine ⟨Counter.exclusive reached cashiers_,Counter.exclusive reached pharmacy_,?_⟩
  rintro t draw fault ⟨ready,outside,executed⟩
  obtain ⟨valid,coupled⟩ := Machine.reached_valid (disciplined n) reached
  exact runs_claimed reached (Machine.exec_ready valid coupled ready outside) (exec_fails executed)

-- A patient has just got the lock of the cashier's desk.
def deskEntered :=
  (Machine.initial (program ⟨1,1,1,1,0,1⟩)).prioritised (program ⟨1,1,1,1,0,1⟩) ⟨0,1,1⟩
    (everyone ⟨1,1,1,1,0,1⟩) 92

theorem desks_claimed_exclusively_entered :
    (deskEntered.kernel.lock (.cashierLock 0)).ownerThread = some (.patient 0) ∧
    .cashier 0 ∈ (deskEntered.kernel.condition (.cashierCv 0)).waitQueue := by
  have own : (deskEntered.kernel.lock (.cashierLock 0)).ownerThread = some (.patient 0) := by decide +kernel
  have claimed := desks_claimed_exclusively (m := deskEntered) (Machine.prioritised_reached .initial _ _ _)
  exact ⟨own,(claimed.1.rests 0 0 (by decide +kernel) own).2⟩

end Nachos.Hospital
