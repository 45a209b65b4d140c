-- Programs that go from state to state until they give a result.
namespace Loop

variable {S R : Type}

inductive Ends (next : S → S ⊕ R) : S → R → Prop where
  | last {s : S} {r : R} : next s = .inr r → Ends next s r
  | step {s t : S} {r : R} : next s = .inl t → Ends next t r → Ends next s r

variable {next : S → S ⊕ R} {s : S} {r r' : R}

theorem Ends.unique (one : Ends next s r) (two : Ends next s r') : r = r' := by
  induction one with
  | last result =>
    cases two with
    | last result' =>
      rw [result] at result'
      exact Sum.inr.inj result'
    | step goes _ =>
      rw [result] at goes
      cases goes
  | step goes _ ih =>
    cases two with
    | last result' =>
      rw [goes] at result'
      cases result'
    | step goes' rest =>
      rw [goes] at goes'
      cases goes'
      exact ih rest

-- What keeps an invariant while a measure falls ends, and as the last step says.
theorem ends_within (measure : S → Nat) {invariant : S → Prop} {post : R → Prop}
    (each : ∀ s, invariant s → (∃ r, next s = .inr r ∧ post r) ∨
      ∃ t, next s = .inl t ∧ invariant t ∧ measure t < measure s) (holds : invariant s) :
    ∃ r, Ends next s r ∧ post r := by
  induction fuel : measure s using Nat.strongRecOn generalizing s with
  | ind fuel ih =>
    rcases each s holds with ⟨r,result,good⟩ | ⟨t,goes,kept,less⟩
    · exact ⟨r,.last result,good⟩
    · obtain ⟨r,rest,good⟩ := ih (measure t) (fuel ▸ less) kept rfl
      exact ⟨r,.step goes rest,good⟩

end Loop
