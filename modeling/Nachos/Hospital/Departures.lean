import Nachos.Library.Tally
import Nachos.Hospital.Stations

-- The count of the patients, and when the manager ends.
namespace Nachos.Hospital
open Monitor Tally

variable {n : Counts}

-- Not past the statement that takes the patient off the count.
def PatientPc.inSystem : PatientPc n → Bool
  | .leave .countReleased | .leave .finished => false
  | _ => true

theorem inSystem_home {pc : PatientPc n} (elsewhere : pc.home ≠ .none) : pc.inSystem = true := by
  cases pc with
  | leave pc => simp [PatientPc.home] at elsewhere
  | _ => rfl

-- A step leaves the number and the patients in the system alone, or takes one off both.
theorem count_step {s : State n} (changes : Changes s draw t s' op events) :
    (s'.patientsInSystem = s.patientsInSystem ∧ ∀ p, (s'.patient p).pc.inSystem = (s.patient p).pc.inSystem) ∨
    ∃ p me, s'.patientsInSystem = s.patientsInSystem - 1 ∧ s'.patient = Function.update s.patient p me ∧
      (s.patient p).pc.inSystem = true ∧ me.pc.inSystem = false := by
  have own : ∀ p me, me.pc.inSystem = (s.patient p).pc.inSystem →
      ∀ q, (Function.update s.patient p me q).pc.inSystem = (s.patient q).pc.inSystem := by
    intro p me same q
    by_cases at_ : q = p
    · subst at_; simpa using same
    · simp [at_]
  cases changes with
  | receptionist | doorboy | doctor | cashier | pharmacist | manager => exact Or.inl ⟨rfl,fun _ => rfl⟩
  | atReception place ran =>
    refine Or.inl ⟨rfl,own _ _ ?_⟩
    rw [place]
    rcases (patientReception_after ran).2 with home | next
    · exact inSystem_home (by simp [home])
    · rw [next]; rfl
  | atDoor place ran =>
    refine Or.inl ⟨rfl,own _ _ ?_⟩
    rw [place]
    exact inSystem_home (by simp [(patientDoor_after ran).2])
  | atExam place ran =>
    refine Or.inl ⟨rfl,own _ _ ?_⟩
    rw [place]
    rcases (patientExam_after ran).2 with home | next
    · exact inSystem_home (by simp [home])
    · rw [next]; rfl
  | atCashier place ran =>
    refine Or.inl ⟨rfl,own _ _ ?_⟩
    rw [place]
    rcases (patientCashier_after ran).2.2 with home | next
    · exact inSystem_home (by simp [home])
    · rw [next]; rfl
  | atPharmacy place ran =>
    refine Or.inl ⟨rfl,own _ _ ?_⟩
    rw [place]
    rcases (patientPharmacy_after ran).2.2 with home | next
    · exact inSystem_home (by simp [home])
    · rw [next]; rfl
  | @leaving p pc count me op events place ran =>
    unfold patientLeave at ran
    split at ran <;> cases ran
    · exact Or.inl ⟨rfl,own _ _ (by simp [place,PatientPc.inSystem])⟩
    · exact Or.inr ⟨p,_,rfl,rfl,by simp [place,PatientPc.inSystem],rfl⟩
    · exact Or.inl ⟨rfl,own _ _ (by simp [place,PatientPc.inSystem])⟩
    · exact Or.inl ⟨rfl,own _ _ (by simp [place,PatientPc.inSystem])⟩

-- The manager has seen that nobody is left.
def ManagerPc.leaves : ManagerPc → Bool
  | .countReleased _ false | .finished => true
  | _ => false

structure Counted (s : State n) : Prop where
  count : s.patientsInSystem = tally fun p => (s.patient p).pc.inSystem
  leaves : s.manager.leaves = true → s.patientsInSystem = 0

theorem manager_leaves {s : State n} (ran : hospitalManager s draw s.manager = (pc,op))
    (before : s.manager.leaves = true → s.patientsInSystem = 0) (leaves : pc.leaves = true) : s.patientsInSystem = 0 := by
  by_contra left
  have going : s.manager.leaves = false := by simpa using mt before left
  generalize s.manager = at_ at *
  unfold hospitalManager managerCashierSales managerReception at ran
  repeat' split at ran
  all_goals cases ran
  all_goals simp [ManagerPc.leaves,left] at leaves going

theorem runs_counted (path : (program n).Runs history asleep s) : Counted s := by
  induction path with
  | initial =>
    refine ⟨?_,?_⟩
    · simp [program,initialized,PatientPc.inSystem,tally]
    · simp [program,initialized,ManagerPc.leaves]
  | @step history asleep s t draw s' op events woken asleep' prior ready executed sleeps ih =>
    have changes := exec_changes executed
    have managers : s'.manager = s.manager ∨ ∃ op, hospitalManager s draw s.manager = (s'.manager,op) := by
      cases changes with
      | manager ran => exact Or.inr ⟨_,ran⟩
      | _ => exact Or.inl rfl
    have leaves : s'.manager.leaves = true → s.patientsInSystem = 0 := by
      rcases managers with same | ⟨op,ran⟩
      · rw [same]; exact ih.leaves
      · exact manager_leaves ran ih.leaves
    rcases count_step changes with ⟨number,same⟩ | ⟨p,me,number,patients,before,after⟩
    · exact ⟨by rw [number,ih.count,tally_congr same],fun gone => number.trans (leaves gone)⟩
    · have lost := tally_loses s.patient (fun patient => patient.pc.inSystem) p me before after
      have count := ih.count
      refine ⟨?_,fun gone => ?_⟩
      · rw [number,patients]
        omega
      · have nobody := leaves gone
        omega

end Nachos.Hospital
