import Mathlib.Data.List.Forall2

/-!
Checks that are made one after another: what it takes for all of them to pass, and which one decides
if they do not.
-/
namespace EntityScripts

theorem bind_eq_ok_iff {ε α β : Type} {x : Except ε α} {f : α → Except ε β} {b : β} :
    x >>= f = .ok b ↔ ∃ a, x = .ok a ∧ f a = .ok b := by
  cases x <;> simp [bind, Except.bind]

theorem ok_bind {ε α β : Type} (a : α) (f : α → Except ε β) : Except.ok a >>= f = f a := rfl

theorem bind_eq_error_iff {ε α β : Type} {x : Except ε α} {f : α → Except ε β} {err : ε} :
    x >>= f = .error err ↔ x = .error err ∨ ∃ a, x = .ok a ∧ f a = .error err := by
  cases x <;> simp [bind, Except.bind]

theorem map_eq_ok_iff {ε α β : Type} {x : Except ε α} {f : α → β} {b : β} :
    f <$> x = .ok b ↔ ∃ a, x = .ok a ∧ f a = b := by
  cases x <;> simp [Functor.map, Except.map]

theorem map_eq_error_iff {ε α β : Type} {x : Except ε α} {f : α → β} {err : ε} :
    f <$> x = .error err ↔ x = .error err := by
  cases x <;> simp [Functor.map, Except.map]

theorem mapError_eq_ok_iff {ε ε' α : Type} {x : Except ε α} {f : ε → ε'} {a : α} :
    x.mapError f = .ok a ↔ x = .ok a := by
  cases x <;> simp [Except.mapError]

theorem mapError_eq_error_iff {ε ε' α : Type} {x : Except ε α} {f : ε → ε'} {err : ε'} :
    x.mapError f = .error err ↔ ∃ e, x = .error e ∧ f e = err := by
  cases x <;> simp [Except.mapError]

/-- Conditions for either outcome are exact if one of them is met. -/
theorem outcome_iff {ε α : Type} {x : Except ε α} {Passes : α → Prop} {Fails : ε → Prop}
    (hpasses : ∀ a, Passes a → x = .ok a) (hfails : ∀ err, Fails err → x = .error err)
    (h : (∃ a, Passes a) ∨ ∃ err, Fails err) :
    (∀ a, x = .ok a ↔ Passes a) ∧ ∀ err, x = .error err ↔ Fails err := by
  cases h with
  | inl h =>
    obtain ⟨a, ha⟩ := h
    have hx := hpasses a ha
    refine ⟨fun b => ⟨fun hb => ?_, hpasses b⟩, fun err => ⟨fun herr => ?_, hfails err⟩⟩
    · cases hx.symm.trans hb
      exact ha
    · cases hx.symm.trans herr
  | inr h =>
    obtain ⟨err, herr⟩ := h
    have hx := hfails err herr
    refine ⟨fun a => ⟨fun ha => ?_, hpasses a⟩, fun err' => ⟨fun herr' => ?_, hfails err'⟩⟩
    · cases hx.symm.trans ha
    · cases hx.symm.trans herr'
      exact herr

theorem exists_of_forall₂ {α β : Type} {R : α → β → Prop} {xs : List α} {ys : List β}
    (h : List.Forall₂ R xs ys) {y : β} (hy : y ∈ ys) : ∃ x ∈ xs, R x y := by
  induction h with
  | nil => cases hy
  | cons hxy _ ih =>
    cases List.mem_cons.1 hy with
    | inl he =>
      subst he
      exact ⟨_, List.mem_cons_self, hxy⟩
    | inr hrest =>
      obtain ⟨x, hx, hr⟩ := ih hrest
      exact ⟨x, List.mem_cons_of_mem _ hx, hr⟩

theorem exists_mem_zip_of_forall₂ {α β : Type} {R : α → β → Prop} {xs : List α} {ys : List β}
    (h : List.Forall₂ R xs ys) {x : α} (hx : x ∈ xs) : ∃ y, (x, y) ∈ xs.zip ys ∧ R x y := by
  induction h with
  | nil => cases hx
  | @cons x' y xs ys hxy _ ih =>
    cases List.mem_cons.1 hx with
    | inl he =>
      subst he
      exact ⟨y, List.mem_cons_self, hxy⟩
    | inr hrest =>
      obtain ⟨y, hy, hr⟩ := ih hrest
      exact ⟨y, List.mem_cons_of_mem _ hy, hr⟩

/-- The first element with an error as its outcome, and this error. -/
def FirstError {α β ε : Type} (run : α → Except ε β) (xs : List α) (x : α) (err : ε) : Prop :=
  ∃ before after, xs = before ++ x :: after ∧ run x = .error err ∧ ∀ b ∈ before, ∃ a, run b = .ok a

section
variable {α β γ ε : Type} {run : α → Except ε β} {x y : α} {xs ys : List α} {err : ε}

theorem not_firstError_nil : ¬FirstError run [] x err := by
  intro ⟨before, after, h, _⟩
  cases before <;> cases h

theorem firstError_cons_of_error {err' : ε} (h : run y = .error err') :
    FirstError run (y :: ys) x err ↔ y = x ∧ err' = err := by
  constructor
  · intro ⟨before, after, hsplit, hx, hbefore⟩
    cases before with
    | nil =>
      cases hsplit
      exact ⟨rfl, Except.error.inj (h.symm.trans hx)⟩
    | cons b before =>
      cases hsplit
      obtain ⟨a, ha⟩ := hbefore y (by simp)
      rw [h] at ha
      cases ha
  · intro ⟨hyx, herr⟩
    subst hyx herr
    exact ⟨[], ys, rfl, h, by simp⟩

theorem firstError_cons_of_ok {a : β} (h : run y = .ok a) :
    FirstError run (y :: ys) x err ↔ FirstError run ys x err := by
  constructor
  · intro ⟨before, after, hsplit, hx, hbefore⟩
    cases before with
    | nil =>
      cases hsplit
      rw [h] at hx
      cases hx
    | cons b before =>
      cases hsplit
      exact ⟨before, after, rfl, hx, (List.forall_mem_cons.1 hbefore).2⟩
  · intro ⟨before, after, hsplit, hx, hbefore⟩
    exact ⟨y :: before, after, by rw [hsplit, List.cons_append], hx,
      List.forall_mem_cons.2 ⟨⟨a, h⟩, hbefore⟩⟩

theorem firstError_append_of_ok (h : ∀ b ∈ xs, ∃ a, run b = .ok a) :
    FirstError run (xs ++ ys) x err ↔ FirstError run ys x err := by
  induction xs with
  | nil => rfl
  | cons y xs ih =>
    obtain ⟨⟨a, ha⟩, hxs⟩ := List.forall_mem_cons.1 h
    rw [List.cons_append, firstError_cons_of_ok ha, ih hxs]

theorem firstError_append_of_error {z : α} {err' : ε} (h : FirstError run xs z err') :
    FirstError run (xs ++ ys) x err ↔ FirstError run xs x err := by
  obtain ⟨before, after, rfl, hz, hbefore⟩ := h
  rw [List.append_assoc, List.cons_append, firstError_append_of_ok hbefore,
    firstError_append_of_ok hbefore, firstError_cons_of_error hz, firstError_cons_of_error hz]

theorem firstError_map {f : γ → α} {cs : List γ} :
    FirstError run (cs.map f) x err ↔ ∃ c, FirstError (fun c => run (f c)) cs c err ∧ f c = x := by
  constructor
  · intro ⟨before, after, hsplit, hx, hbefore⟩
    obtain ⟨cs₁, rest, rfl, rfl, hrest⟩ := List.map_eq_append_iff.1 hsplit
    obtain ⟨c, cs₂, rfl, rfl, _⟩ := List.map_eq_cons_iff.1 hrest
    exact ⟨c, ⟨cs₁, cs₂, rfl, hx, fun b hb => hbefore (f b) (List.mem_map_of_mem hb)⟩, rfl⟩
  · intro ⟨c, ⟨before, after, hsplit, hx, hbefore⟩, hc⟩
    subst hsplit hc
    exact ⟨before.map f, after.map f, by simp, hx, List.forall_mem_map.2 hbefore⟩

theorem forall_ok_or_firstError (run : α → Except ε β) (xs : List α) :
    (∀ b ∈ xs, ∃ a, run b = .ok a) ∨ ∃ x err, FirstError run xs x err := by
  induction xs with
  | nil => simp
  | cons y xs ih =>
    cases hy : run y with
    | error err => exact .inr ⟨y, err, (firstError_cons_of_error hy).2 ⟨rfl, rfl⟩⟩
    | ok a =>
      simp only [firstError_cons_of_ok hy, List.forall_mem_cons, hy]
      simpa using ih

end

end EntityScripts
