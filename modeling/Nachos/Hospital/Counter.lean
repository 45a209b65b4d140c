import Nachos.Library.Turnstile
import Nachos.Library.Rendezvous
import Nachos.Hospital.Stations

-- A counter: one line in front of several desks. The cashiers and the
-- pharmacists are two of them.
namespace Nachos.Hospital.Counter
open Monitor Tally Rendezvous Turnstile

variable {D N : Nat}

@[ext] structure View (D N : Nat) where
  desks : Desks (Fin D) (Fin N)
  availableCount : Int
  lineLength : Int
  -- Patients in front of the line, and whether they sleep there.
  waiting : Fin N → Option Bool

-- A desk that opens wakes one patient of the line; a patient takes a free desk
-- when it comes, or after it has waited.
inductive Step (v : View D N) : Option (Fin D × Move (Fin N)) → View D N → Prop where
  | idles : Step v none v
  | serves : Rendezvous.Step v.desks d move desks → desks.free = v.desks.free →
      Step v (some (d,move)) {v with desks := desks}
  | breaks : v.desks.server d = .away →
      Step v none {v with desks := {v.desks with free := Function.update v.desks.free d false}}
  | opens : v.desks.server d = .away → v.waiting p = some true →
      Step v (some (d,.opens)) {v with
        desks := {v.desks with
          server := Function.update v.desks.server d .opening
          free := Function.update v.desks.free d true}
        availableCount := v.availableCount + 1
        waiting := Function.update v.waiting p (some false)}
  | opensAlone : v.desks.server d = .away → (∀ p, v.waiting p ≠ some true) →
      Step v (some (d,.opens)) {v with
        desks := {v.desks with
          server := Function.update v.desks.server d .opening
          free := Function.update v.desks.free d true}
        availableCount := v.availableCount + 1}
  | joins : v.waiting p = none → v.availableCount = 0 →
      Step v none {v with lineLength := v.lineLength + 1, waiting := Function.update v.waiting p (some true)}
  | again : v.waiting p = some false → v.availableCount = 0 →
      Step v none {v with waiting := Function.update v.waiting p (some true)}
  | claims : v.waiting p ≠ some true → v.desks.fresh p = true → v.desks.free d = true →
      v.desks.server d ≠ .opening →
      Step v (some (d,.assigned p)) {v with
        desks := {v.desks with
          free := Function.update v.desks.free d false
          client := Function.update v.desks.client p (some (d,.assigned))
          fresh := Function.update v.desks.fresh p false}
        availableCount := v.availableCount - 1
        lineLength := if v.waiting p = none then v.lineLength else v.lineLength - 1
        waiting := Function.update v.waiting p none}

structure Holds (v : View D N) : Prop where
  count : v.availableCount = tally v.desks.free
  length : v.lineLength = tally fun p => v.waiting p ≠ none
  -- Free desks are all spoken for as long as somebody sleeps in front of the line.
  wake : Enough v.availableCount v.waiting

theorem free_moves (v : View D N) (d : Fin D) (b : Bool) :
    (tally (Function.update v.desks.free d b) : Int) =
      tally v.desks.free + (if b then 1 else 0) - (if v.desks.free d then 1 else 0) := by
  have moved : tally (Function.update v.desks.free d b) + (if v.desks.free d then 1 else 0) =
    tally v.desks.free + (if b then 1 else 0) := tally_update v.desks.free id d b
  split at moved <;> split at moved <;> simp_all
  all_goals omega

theorem length_moves (v : View D N) (p : Fin N) (now : Option Bool) :
    (tally fun q => Function.update v.waiting p now q ≠ none : Int) =
      (tally fun q => v.waiting q ≠ none) + (if now ≠ none then 1 else 0) - (if v.waiting p ≠ none then 1 else 0) := by
  have moved := tally_update v.waiting (fun b => b ≠ none) p now
  split at moved <;> split at moved <;> simp_all
  all_goals omega

-- A counter step as a step of the library.
theorem Step.desks {v v' : View D N} (joint : Joint v.desks holder) (step : Step v label v') :
    match label with
    | some (d,move) => Rendezvous.Step v.desks d move v'.desks
    | none => v'.desks = v.desks := by
  cases step with
  | idles => rfl
  | serves step same => exact step
  | @breaks d away =>
    have closed : v.desks.free d = false := by
      have here : holder d = .nobody := by simpa [away,Fits] using joint.fits d
      have := joint.free d
      cases isFree : v.desks.free d <;> simp_all
    have same : Function.update v.desks.free d false = v.desks.free := Function.update_eq_self_iff.mpr closed.symm
    simp only [same]
  | opens away sleeping => exact .opens away
  | opensAlone away nobody => exact .opens away
  | joins new zero => rfl
  | again awake zero => rfl
  | claims awake fresh isFree opening => exact .claims isFree opening fresh

theorem step_joint {v v' : View D N} (joint : Joint v.desks holder) (step : Step v label v') :
    ∃ holder', After label holder holder' ∧ Joint v'.desks holder' ∧
      ∀ p, Settled v'.desks holder' p ↔
        Settled v.desks holder p ∨ ∃ d, label = some (d,.closes) ∧ holder d = .gone p := by
  have desks := step.desks joint
  match label with
  | none => exact ⟨holder,rfl,desks ▸ joint,by simp [show v'.desks = v.desks from desks]⟩
  | some (d,move) =>
    obtain ⟨now,moves,joint'⟩ := Rendezvous.step_joint joint desks
    refine ⟨_,⟨now,moves,rfl⟩,joint',?_⟩
    intro p
    rw [step_settled joint desks moves p]
    simp

theorem Step.fresh {v v' : View D N} (step : Step v label v') (had : v.desks.fresh p = false) :
    v'.desks.fresh p = false := by
  cases step with
  | serves step same => exact step_fresh step had
  | claims =>
    simp only [Function.update_apply]
    split <;> trivial
  | _ => exact had

theorem step_holds {v v' : View D N} (joint : Joint v.desks holder) (holds : Holds v) (step : Step v label v') :
    Holds v' := by
  obtain ⟨count,length,wake⟩ := holds
  have free := free_moves v
  have inLine := length_moves v
  have closed : ∀ d, v.desks.server d = .away → v.desks.free d = false := by
    intro d away
    have here : holder d = .nobody := by simpa [away,Fits] using joint.fits d
    have := joint.free d
    cases isFree : v.desks.free d <;> simp_all
  cases step with
  | idles => exact ⟨count,length,wake⟩
  | serves step same =>
    refine ⟨?_,length,wake⟩
    rw [same]
    exact count
  | @breaks d away => exact ⟨by simp only [free,closed d away,count]; simp,length,wake⟩
  | @opens d p away sleeping =>
    exact ⟨by simp only [free,closed d away,count]; simp,by simp only [inLine,sleeping,length]; simp,
      wake.wakes sleeping⟩
  | @opensAlone d away nobody => exact ⟨by simp only [free,closed d away,count]; simp,length,.unheard nobody⟩
  | @joins p new zero => exact ⟨count,by simp only [inLine,new,length]; simp,by simp only [zero]; exact .zero _⟩
  | @again p woken zero => exact ⟨count,by simp only [inLine,woken,length]; simp,by simp only [zero]; exact .zero _⟩
  | @claims p d notAsleep fresh isFree opening =>
    refine ⟨by simp only [free,isFree,count]; simp,?_,wake.takes notAsleep⟩
    simp only [inLine,length]
    split <;> simp_all

end Nachos.Hospital.Counter
