import Mathlib.Data.List.Basic

-- Commands with answers, run one after another, and the abstract machine that explains
-- the answers.
namespace Simulation

variable {S A C R : Type}

-- `none` where one of the commands fails.
def answers (perform : S → C → Option (S × R)) (s : S) : List C → Option (S × List R)
  | [] => some (s,[])
  | command :: commands => do
    let (s,answer) ← perform s command
    let (s,rest) ← answers perform s commands
    some (s,answer :: rest)

-- `spec a command answer b`: the abstract machine may answer so, and goes from a to b.
inductive Explains (spec : A → C → R → A → Prop) : A → List C → List R → A → Prop where
  | nil : Explains spec a [] [] a
  | cons (one : spec a command answer b) (rest : Explains spec b commands found c) :
      Explains spec a (command :: commands) (answer :: found) c

variable {perform : S → C → Option (S × R)} {spec : A → C → R → A → Prop} {related : S → A → Prop} {allowed : C → Prop}
  {s : S} {a : A} {commands : List C}

-- What one command keeps, every sequence keeps.
theorem answers_explained (commands : List C)
    (step : ∀ s a command, related s a → allowed command →
      ∃ t answer b, perform s command = some (t,answer) ∧ spec a command answer b ∧ related t b)
    (begins : related s a) (all : ∀ command ∈ commands, allowed command) :
    ∃ t found b, answers perform s commands = some (t,found) ∧ Explains spec a commands found b ∧ related t b := by
  induction commands generalizing s a with
  | nil => exact ⟨s,[],a,rfl,.nil,begins⟩
  | cons command commands ih =>
    obtain ⟨t,answer,b,ran,one,between⟩ := step s a command begins (all command List.mem_cons_self)
    obtain ⟨u,found,c,went,rest,ends⟩ := ih between fun c member => all c (List.mem_cons_of_mem command member)
    refine ⟨u,answer :: found,c,?_,.cons one rest,ends⟩
    simp only [answers,ran,went,Option.bind_eq_bind,Option.bind_some]

end Simulation
