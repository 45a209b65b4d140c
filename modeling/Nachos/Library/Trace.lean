import Mathlib.Data.List.Basic

-- Logs that are runs of a protocol, newest first.
namespace Protocol

variable {X E : Type} {start : X} {pass pass' : X → E → X → Prop}

inductive Trace (start : X) (pass : X → E → X → Prop) : X → List E → Prop where
  | start : Trace start pass start []
  | step : Trace start pass x log → pass x e y → Trace start pass y (e :: log)

theorem Trace.mono (trace : Trace start pass x log) (weaker : ∀ x e y, pass x e y → pass' x e y) :
    Trace start pass' x log := by
  induction trace with
  | start => exact .start
  | step _ passed ih => exact .step ih (weaker _ _ _ passed)

-- Every entry of a log was a step from what came before it.
theorem Trace.split (trace : Trace start pass y (newer ++ e :: older)) :
    ∃ x z, Trace start pass x older ∧ pass x e z := by
  induction newer generalizing y with
  | nil =>
    cases trace with
    | step before passed => exact ⟨_,_,before,passed⟩
  | cons first rest ih =>
    cases trace with
    | step before passed => exact ih before

end Protocol
