import Mathlib.Data.List.Basic

/-!
# What happened in a run

A run is a list of calls, and a state is known after each of its beginnings. A property of a state
and a call happened in a run if it held of some call of the run and of the state that it met.

- `Happened`: the property held somewhere.
- `happened_concat`: one more call.
-/

namespace DocWatch

variable {σ γ : Type} {after : List γ → σ} {P : σ → γ → Prop}

/-- The property held of a call of a run, in the state that the call met. -/
def Happened (after : List γ → σ) (P : σ → γ → Prop) (calls : List γ) : Prop :=
  ∃ pre call post, calls = pre ++ call :: post ∧ P (after pre) call

theorem not_happened_nil : ¬ Happened after P [] := by
  rintro ⟨pre, call, post, hcalls, -⟩
  exact List.append_ne_nil_of_right_ne_nil pre (List.cons_ne_nil call post) hcalls.symm

/-- What happened in a run of one more call happened before it, or at it. -/
theorem happened_concat (calls : List γ) (call : γ) :
    Happened after P (calls ++ [call]) ↔ Happened after P calls ∨ P (after calls) call := by
  constructor
  · rintro ⟨pre, call', post, hcalls, hP⟩
    rcases List.eq_nil_or_concat post with rfl | ⟨post', last, rfl⟩
    · obtain ⟨rfl, hcall⟩ := List.append_inj' hcalls rfl
      rw [List.head_eq_of_cons_eq hcall]
      exact .inr hP
    · rw [List.concat_eq_append, ← List.cons_append, ← List.append_assoc] at hcalls
      obtain ⟨rfl, -⟩ := List.append_inj' hcalls rfl
      exact .inl ⟨pre, call', post', rfl, hP⟩
  · rintro (⟨pre, call', post, rfl, hP⟩ | hP)
    · exact ⟨pre, call', post ++ [call], by rw [List.append_assoc]; rfl, hP⟩
    · exact ⟨calls, call, [], rfl, hP⟩

end DocWatch
