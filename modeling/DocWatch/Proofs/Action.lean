import DocWatch.Action
import Mathlib.Order.Defs.Unbundled

/-!
# Actions, step by step

- `exists_of_bind_ok`: results in a row.
- `Action.perform_bind_ok`, `Action.perform_bind_error`: an action and what comes after it.
- `Action.perform_bind_cases`: what may come of two actions in a row.
- `Action.inTurn`, `Action.inTurn_error_iff`: actions one after another, and where they stop.
- `Action.Within`: an action moves from each state only along a relation. Relations that are
  reflexive and transitive are kept by the composition of actions.
-/

namespace DocWatch

/-- Two results in a row are there only if both are. -/
theorem exists_of_bind_ok {ε α β : Type} {x : Except ε α} {f : α → Except ε β} {b : β}
    (h : (x >>= f) = .ok b) : ∃ a, x = .ok a ∧ f a = .ok b := by
  cases x with
  | error e => cases h
  | ok a => exact ⟨a, rfl, h⟩

/-- What was made of a result was made of one that is there. -/
theorem exists_of_map_ok {ε α β : Type} {r : Except ε α} {f : α → β} {b : β}
    (h : f <$> r = .ok b) : ∃ a, r = .ok a ∧ f a = b := by
  cases r with
  | error e => cases h
  | ok a => exact ⟨a, rfl, Except.ok.inj h⟩

namespace Action

variable {σ α β : Type}

/-! ## Performing -/

@[simp] theorem perform_pure (a : α) (s : σ) : (pure a : Action σ α).perform s = (.ok a, s) := rfl

@[simp] theorem perform_attempt (f : σ → Except Error α × σ) (s : σ) :
    (attempt f).perform s = f s := rfl

@[simp] theorem perform_lift (r : Except Error α) (s : σ) : (lift r).perform s = (r, s) := rfl

@[simp] theorem perform_view (f : σ → α) (s : σ) : (view f).perform s = (.ok (f s), s) := rfl

/-- After an action that answers, the next one is performed. -/
theorem perform_bind_ok {x : Action σ α} {f : α → Action σ β} {s s' : σ} {a : α}
    (h : x.perform s = (.ok a, s')) : (x >>= f).perform s = (f a).perform s' := by
  have hx : x s = (.ok a, s') := h
  show (ExceptT.bind x f) s = _
  simp only [ExceptT.bind, ExceptT.mk, bind, StateT.bind, hx]
  rfl

/-- After an action that fails, nothing is performed. -/
theorem perform_bind_error {x : Action σ α} {f : α → Action σ β} {s s' : σ} {e : Error}
    (h : x.perform s = (.error e, s')) : (x >>= f).perform s = (.error e, s') := by
  have hx : x s = (.error e, s') := h
  show (ExceptT.bind x f) s = _
  simp only [ExceptT.bind, ExceptT.mk, bind, StateT.bind, hx]
  rfl

/-- Two actions in a row fail at the first of them, or come to what the second one comes to. -/
theorem perform_bind_cases (x : Action σ α) (f : α → Action σ β) (s : σ) :
    (∃ e s', x.perform s = (.error e, s') ∧ (x >>= f).perform s = (.error e, s')) ∨
      ∃ a s', x.perform s = (.ok a, s') ∧ (x >>= f).perform s = (f a).perform s' := by
  cases hx : x.perform s with
  | mk r s' =>
    cases r with
    | error e => exact .inl ⟨e, s', rfl, perform_bind_error hx⟩
    | ok a => exact .inr ⟨a, s', rfl, perform_bind_ok hx⟩

/-- Two actions in a row answer only if both do. -/
theorem perform_bind_eq_ok {x : Action σ α} {f : α → Action σ β} {s s' : σ} {b : β}
    (h : (x >>= f).perform s = (.ok b, s')) :
    ∃ a t, x.perform s = (.ok a, t) ∧ (f a).perform t = (.ok b, s') := by
  rcases perform_bind_cases x f s with ⟨e, t, -, hbind⟩ | ⟨a, t, hx, hbind⟩
  · rw [hbind] at h
    cases h
  · exact ⟨a, t, hx, hbind ▸ h⟩

/-- Something that only may fail, and what comes after it. -/
theorem perform_lift_bind_eq_ok {r : Except Error α} {f : α → Action σ β} {s s' : σ} {b : β}
    (h : (lift r >>= f).perform s = (.ok b, s')) :
    ∃ a, r = .ok a ∧ (f a).perform s = (.ok b, s') := by
  obtain ⟨a, t, hlift, hf⟩ := perform_bind_eq_ok h
  rw [perform_lift] at hlift
  obtain ⟨hr, rfl⟩ := Prod.mk.inj hlift
  exact ⟨a, hr, hf⟩

/-- Two actions in a row fail where one of them does. -/
theorem perform_bind_error_iff (x : Action σ α) (f : α → Action σ β) (s s' : σ) (e : Error) :
    (x >>= f).perform s = (.error e, s') ↔
      x.perform s = (.error e, s') ∨
        ∃ a t, x.perform s = (.ok a, t) ∧ (f a).perform t = (.error e, s') := by
  constructor
  · intro h
    rcases perform_bind_cases x f s with ⟨e', t, hx, hbind⟩ | ⟨a, t, hx, hbind⟩
    · obtain ⟨he, rfl⟩ := Prod.mk.inj (hbind.symm.trans h)
      exact .inl (by rw [hx, Except.error.inj he])
    · exact .inr ⟨a, t, hx, hbind.symm.trans h⟩
  · rintro (hx | ⟨a, t, hx, hf⟩)
    · exact perform_bind_error hx
    · rw [perform_bind_ok hx, hf]

/-- Actions that leave a state as it is, in a row. -/
theorem perform_bind_silent {x : Action σ α} {f : α → Action σ β} {s : σ}
    (hx : (x.perform s).2 = s) (hf : ∀ a, ((f a).perform s).2 = s) :
    ((x >>= f).perform s).2 = s := by
  rcases perform_bind_cases x f s with ⟨e, t, he, hbind⟩ | ⟨a, t, ha, hbind⟩
  · rw [hbind]
    rwa [he] at hx
  · rw [ha] at hx
    obtain rfl : t = s := hx
    rw [hbind]
    exact hf a

/-- An answer that is computed after an action fails where the action does. -/
theorem perform_bind_pure_error_iff (x : Action σ α) (g : α → β) (s s' : σ) (e : Error) :
    (x >>= fun a => pure (g a)).perform s = (.error e, s') ↔ x.perform s = (.error e, s') := by
  rw [perform_bind_error_iff]
  refine or_iff_left ?_
  rintro ⟨a, t, -, hpure⟩
  cases hpure

/-- An answer that is computed after an action is there where that of the action is. -/
theorem perform_bind_pure_ok_iff (x : Action σ α) (g : α → β) (s s' : σ) (b : β) :
    (x >>= fun a => pure (g a)).perform s = (.ok b, s') ↔
      ∃ a, x.perform s = (.ok a, s') ∧ g a = b := by
  constructor
  · intro h
    obtain ⟨a, t, hx, hpure⟩ := perform_bind_eq_ok h
    obtain ⟨hb, rfl⟩ := Prod.mk.inj hpure
    exact ⟨a, hx, Except.ok.inj hb⟩
  · rintro ⟨a, hx, rfl⟩
    exact perform_bind_ok hx

/-- What holds of the state after an action, and after all that may come next, holds after both. -/
theorem state_bind {P : σ → Prop} {x : Action σ α} {f : α → Action σ β} {s : σ}
    (hx : P (x.perform s).2)
    (hf : ∀ a t, x.perform s = (.ok a, t) → P ((f a).perform t).2) :
    P ((x >>= f).perform s).2 := by
  rcases perform_bind_cases x f s with ⟨e, t, he, hbind⟩ | ⟨a, t, ha, hbind⟩
  · rw [hbind]
    rwa [he] at hx
  · rw [hbind]
    exact hf a t ha

/-- An answer that is computed after an action does not change the state. -/
theorem perform_bind_pure_snd (x : Action σ α) (g : α → β) (s : σ) :
    ((x >>= fun a => pure (g a)).perform s).2 = (x.perform s).2 :=
  state_bind (P := fun t => t = (x.perform s).2) rfl fun _ _ h => (congrArg Prod.snd h).symm

/-! ## One after another -/

/-- Actions one after another, up to the first that fails. -/
def inTurn : List (Action σ α) → Action σ (List α)
  | [] => pure []
  | x :: rest => do
    let answer ← x
    let answers ← inTurn rest
    return answer :: answers

/-- A first action that answers, and the ones after it. -/
theorem inTurn_cons_ok_iff (x : Action σ α) (xs : List (Action σ α)) (s s' : σ)
    (answers : List α) : (inTurn (x :: xs)).perform s = (.ok answers, s') ↔
      ∃ a t more, x.perform s = (.ok a, t) ∧ (inTurn xs).perform t = (.ok more, s') ∧
        a :: more = answers := by
  constructor
  · intro h
    obtain ⟨a, t, hx, hrest⟩ := perform_bind_eq_ok h
    obtain ⟨more, hmore, hanswers⟩ := (perform_bind_pure_ok_iff _ _ _ _ _).mp hrest
    exact ⟨a, t, more, hx, hmore, hanswers⟩
  · rintro ⟨a, t, more, hx, hmore, hanswers⟩
    rw [inTurn, perform_bind_ok hx]
    exact (perform_bind_pure_ok_iff _ _ _ _ _).mpr ⟨more, hmore, hanswers⟩

theorem inTurn_cons_error_iff (x : Action σ α) (xs : List (Action σ α)) (s s' : σ) (e : Error) :
    (inTurn (x :: xs)).perform s = (.error e, s') ↔
      x.perform s = (.error e, s') ∨
        ∃ a t, x.perform s = (.ok a, t) ∧ (inTurn xs).perform t = (.error e, s') := by
  rw [inTurn, perform_bind_error_iff]
  refine or_congr_right (exists_congr fun a => exists_congr fun t => and_congr_right fun _ => ?_)
  exact perform_bind_pure_error_iff _ _ _ _ _

/-- Actions in turn fail where the actions before one of them answer and that one does not. -/
theorem inTurn_error_iff (xs : List (Action σ α)) (s s' : σ) (e : Error) :
    (inTurn xs).perform s = (.error e, s') ↔
      ∃ k x answers t, xs[k]? = some x ∧ (inTurn (xs.take k)).perform s = (.ok answers, t) ∧
        x.perform t = (.error e, s') := by
  induction xs generalizing s with
  | nil =>
    constructor
    · intro h
      cases h
    · rintro ⟨k, x, answers, t, hk, -⟩
      rw [List.getElem?_nil] at hk
      cases hk
  | cons first rest ih =>
    rw [inTurn_cons_error_iff]
    constructor
    · rintro (hfirst | ⟨a, s₁, hfirst, hrest⟩)
      · exact ⟨0, first, [], s, rfl, rfl, hfirst⟩
      · obtain ⟨k, x, answers, t, hk, hprefix, hfails⟩ := (ih s₁).mp hrest
        refine ⟨k + 1, x, a :: answers, t, hk, ?_, hfails⟩
        exact (inTurn_cons_ok_iff _ _ _ _ _).mpr ⟨a, s₁, answers, hfirst, hprefix, rfl⟩
    · rintro ⟨k, x, answers, t, hk, hprefix, hfails⟩
      cases k with
      | zero =>
        -- the first action fails itself
        obtain rfl := Option.some.inj hk
        obtain rfl : s = t := (Prod.mk.inj hprefix).2
        exact .inl hfails
      | succ k =>
        obtain ⟨a, s₁, more, hfirst, hmore, -⟩ := (inTurn_cons_ok_iff _ _ _ _ _).mp hprefix
        exact .inr ⟨a, s₁, hfirst, (ih s₁).mpr ⟨k, x, more, t, hk, hmore, hfails⟩⟩

/-! ## Moving along a relation -/

/-- Each performance of an action leads to a state that is related to the one that it starts
from. -/
def Within (R : σ → σ → Prop) (x : Action σ α) : Prop := ∀ s, R s (x.perform s).2

variable {R : σ → σ → Prop} [IsPreorder σ R]

theorem within_pure (a : α) : Within R (pure a : Action σ α) := fun s => refl_of R s

theorem within_lift (r : Except Error α) : Within R (lift r : Action σ α) := fun s => refl_of R s

theorem within_view (f : σ → α) : Within R (view f) := fun s => refl_of R s

/-- An action, and what comes after the answers that it may give. -/
theorem Within.bind_answer {x : Action σ α} {f : α → Action σ β} (hx : Within R x)
    (hf : ∀ a, (∃ s s', x.perform s = (.ok a, s')) → Within R (f a)) : Within R (x >>= f) := by
  intro s
  have hs := hx s
  rcases perform_bind_cases x f s with ⟨e, t, he, hbind⟩ | ⟨a, t, ha, hbind⟩
  · rw [hbind]
    rwa [he] at hs
  · rw [hbind]
    rw [ha] at hs
    exact trans_of R hs (hf a ⟨s, t, ha⟩ t)

theorem Within.bind {x : Action σ α} {f : α → Action σ β} (hx : Within R x)
    (hf : ∀ a, Within R (f a)) : Within R (x >>= f) :=
  hx.bind_answer fun a _ => hf a

/-- Something that only may fail, and what comes after it. -/
theorem within_lift_bind {r : Except Error α} {f : α → Action σ β}
    (hf : ∀ a, r = .ok a → Within R (f a)) : Within R (lift r >>= f) :=
  (within_lift r).bind_answer fun a ⟨_, _, h⟩ => hf a (Prod.mk.inj h).1

end Action
end DocWatch
