/-!
# Results that are there exactly where they should be

A compiler or a parser has a result exactly on the sources that are valid, and says something about
it. Both are carried along its recursion in one statement.

- `Settles`: the statement.
- `Settles.map`, `Settles.bind`, `Settles.cons`: from the parts to the whole.
-/

namespace DocWatch

variable {ε ε' α β : Type} {r : Except ε α} {valid valid' : Prop} {P : α → Prop} {Q : β → Prop}

/-- The result is there exactly if the source is valid, and then it satisfies `P`. -/
def Settles (r : Except ε α) (valid : Prop) (P : α → Prop) : Prop :=
  match r with
  | .ok a => valid ∧ P a
  | .error _ => ¬ valid

theorem settles_ok (a : α) (h : P a) : Settles (.ok a : Except ε α) True P := ⟨trivial, h⟩

theorem settles_error {e : ε} (h : ¬ valid) : Settles (.error e) valid P := h

namespace Settles

theorem exists_iff (h : Settles r valid P) : (∃ a, r = .ok a) ↔ valid := by
  cases r with
  | error e => exact iff_of_false (fun ⟨_, hr⟩ => nomatch hr) h
  | ok a => exact iff_of_true ⟨a, rfl⟩ h.1

theorem of_ok (h : Settles r valid P) {a : α} (hr : r = .ok a) : P a := by
  subst hr
  exact h.2

theorem congr (h : Settles r valid P) (hvalid : valid ↔ valid') : Settles r valid' P :=
  propext hvalid ▸ h

theorem mono {P' : α → Prop} (h : Settles r valid P) (hP : ∀ a, P a → P' a) :
    Settles r valid P' := by
  cases r with
  | error e => exact h
  | ok a => exact ⟨h.1, hP a h.2⟩

theorem map {f : α → β} (h : Settles r valid P) (hf : ∀ a, P a → Q (f a)) :
    Settles (f <$> r) valid Q := by
  cases r with
  | error e => exact h
  | ok a => exact ⟨h.1, hf a h.2⟩

/-- A result that is there exactly if another one is, with errors of its own. -/
theorem relabel {r' : Except ε' β} {f : α → β} (h : Settles r valid P)
    (hok : ∀ a, r = .ok a → r' = .ok (f a)) (herror : ∀ e, r = .error e → ∃ e', r' = .error e')
    (hf : ∀ a, P a → Q (f a)) : Settles r' valid Q := by
  cases r with
  | error e =>
    obtain ⟨e', rfl⟩ := herror e rfl
    exact h
  | ok a =>
    obtain rfl := hok a rfl
    exact ⟨h.1, hf a h.2⟩

/-- One part after another: both have to be valid. -/
theorem bind {f : α → Except ε β} (h : Settles r valid P)
    (hf : ∀ a, P a → Settles (f a) valid' Q) : Settles (r >>= f) (valid ∧ valid') Q := by
  cases r with
  | error e => exact fun hboth => h hboth.1
  | ok a =>
    have hnext := hf a h.2
    show Settles (f a) (valid ∧ valid') Q
    cases hfa : f a with
    | error e =>
      rw [hfa] at hnext
      exact fun hboth => hnext hboth.2
    | ok b =>
      rw [hfa] at hnext
      exact ⟨⟨h.1, hnext.1⟩, hnext.2⟩

/-- A first part and a list of further ones. -/
theorem cons {rest : Except ε (List α)} {Ps Qs : List α → Prop}
    (h : Settles r valid P) (hrest : Settles rest valid' Ps)
    (hQ : ∀ a as, P a → Ps as → Qs (a :: as)) :
    Settles (do
      let a ← r
      let as ← rest
      return a :: as) (valid ∧ valid') Qs :=
  h.bind fun a ha => hrest.map (fun as has => hQ a as ha has)

end Settles
end DocWatch
