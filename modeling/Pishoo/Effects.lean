import Mathlib.Order.Defs.Unbundled

namespace Pishoo.Effects

variable {σ ε α β : Type}

/-- A program that keeps what it has done to the state when it fails. -/
abbrev Effect (σ ε α : Type) := ExceptT ε (StateM σ) α

namespace Effect

def outcome (m : Effect σ ε α) (s : σ) : Except ε α × σ := m s

def read (f : σ → Except ε α) : Effect σ ε α := fun s => (f s, s)

def write (f : σ → Except ε σ) : Effect σ ε Unit := fun s =>
  match f s with
  | .ok s' => (.ok (), s')
  | .error e => (.error e, s)

def throwIf (c : Prop) [Decidable c] (e : ε) : Effect σ ε Unit := if c then throw e else pure ()

theorem outcome_bind (m : Effect σ ε α) (f : α → Effect σ ε β) (s : σ) :
    (m >>= f).outcome s = match m.outcome s with
      | (.ok a, s') => (f a).outcome s'
      | (.error e, s') => (.error e, s') := by
  simp only [outcome]
  change (ExceptT.bindCont f (m s).1 (m s).2) = _
  obtain ⟨result, s'⟩ := m s
  cases result <;> rfl

@[simp] theorem outcome_pure (a : α) (s : σ) : (pure a : Effect σ ε α).outcome s = (.ok a, s) := rfl

@[simp] theorem outcome_throw (e : ε) (s : σ) :
    (throw e : Effect σ ε α).outcome s = (.error e, s) := rfl

@[simp] theorem outcome_read (f : σ → Except ε α) (s : σ) : (read f).outcome s = (f s, s) := rfl

theorem outcome_write (f : σ → Except ε σ) (s : σ) : (write f).outcome s = match f s with
    | .ok s' => (.ok (), s')
    | .error e => (.error e, s) := rfl

theorem outcome_bind_ok {m : Effect σ ε α} {f : α → Effect σ ε β} {s s' : σ} {b : β} :
    (m >>= f).outcome s = (.ok b, s') ↔
      ∃ a s₁, m.outcome s = (.ok a, s₁) ∧ (f a).outcome s₁ = (.ok b, s') := by
  rw [outcome_bind]
  rcases m.outcome s with ⟨_ | a, s₁⟩
  · simp
  · constructor
    · intro h
      exact ⟨a, s₁, rfl, h⟩
    · rintro ⟨a', s₁', heq, h⟩
      cases heq
      exact h

theorem outcome_write_ok {f : σ → Except ε σ} {s s' : σ} {u : Unit} :
    (write f).outcome s = (.ok u, s') ↔ f s = .ok s' := by
  rw [outcome_write]
  cases f s <;> simp

theorem outcome_throwIf_ok {c : Prop} [Decidable c] {e : ε} {s s' : σ} {u : Unit} :
    (throwIf c e : Effect σ ε Unit).outcome s = (.ok u, s') ↔ ¬ c ∧ s' = s := by
  unfold throwIf
  split
  · simp_all
  · simp_all [eq_comm]

theorem read_bind_ok {f : σ → Except ε α} {g : α → Effect σ ε β} {s s' : σ} {b : β} :
    (read f >>= g).outcome s = (.ok b, s') ↔ ∃ a, f s = .ok a ∧ (g a).outcome s = (.ok b, s') := by
  rw [outcome_bind, outcome_read]
  cases f s <;> simp

theorem throwIf_bind_ok {c : Prop} [Decidable c] {e : ε} {g : Unit → Effect σ ε β} {s s' : σ}
    {b : β} : (throwIf c e >>= g).outcome s = (.ok b, s') ↔
      ¬ c ∧ (g ()).outcome s = (.ok b, s') := by
  rw [outcome_bind, throwIf]
  by_cases hc : c <;> simp [hc]

/-- A program leaves a state as it is if its parts do. -/
theorem still_bind {m : Effect σ ε α} {f : α → Effect σ ε β} {s : σ} (h : (m.outcome s).2 = s)
    (hf : ∀ a, ((f a).outcome s).2 = s) : ((m >>= f).outcome s).2 = s := by
  rw [outcome_bind]
  rcases hm : m.outcome s with ⟨_ | a, s'⟩
  · rwa [hm] at h
  · rw [hm] at h
    obtain rfl : s' = s := h
    exact hf a

theorem still_throwIf (c : Prop) [Decidable c] (e : ε) (s : σ) :
    ((throwIf c e : Effect σ ε Unit).outcome s).2 = s := by
  unfold throwIf
  split <;> rfl

end Effect

open Effect

/-- A program keeps a relation when it relates each state to the state that is left, however the
program ends. -/
def Keeps (R : σ → σ → Prop) (m : Effect σ ε α) : Prop := ∀ s, R s (m.outcome s).2

section

variable {R : σ → σ → Prop} {m : Effect σ ε α}

theorem keeps_write {f : σ → Except ε σ} [Std.Refl R] (h : ∀ s s', f s = .ok s' → R s s') :
    Keeps R (write f) := by
  intro s
  rw [outcome_write]
  cases hf : f s with
  | ok s' => exact h s s' hf
  | error e => exact Std.Refl.refl s

theorem Keeps.bind [IsTrans σ R] {f : α → Effect σ ε β} (h : Keeps R m) (hf : ∀ a, Keeps R (f a)) :
    Keeps R (m >>= f) := by
  intro s
  have hfirst := h s
  rw [outcome_bind]
  revert hfirst
  rcases m.outcome s with ⟨_ | a, s'⟩ <;> intro hfirst
  · exact hfirst
  · exact IsTrans.trans _ _ _ hfirst (hf a s')

variable [Std.Refl R]

/-- What follows a reading only has to keep the relation for what can be read. -/
theorem keeps_read_bind {f : σ → Except ε α} {g : α → Effect σ ε β}
    (h : ∀ s a, f s = .ok a → Keeps R (g a)) : Keeps R (read f >>= g) := by
  intro s
  rw [outcome_bind, outcome_read]
  cases hf : f s with
  | ok a => exact h s a hf s
  | error e => exact Std.Refl.refl s

theorem keeps_read (f : σ → Except ε α) : Keeps R (read f) := fun s => Std.Refl.refl s

theorem keeps_pure (a : α) : Keeps R (pure a : Effect σ ε α) := fun s => Std.Refl.refl s

theorem keeps_throw (e : ε) : Keeps R (throw e : Effect σ ε α) := fun s => Std.Refl.refl s

theorem Keeps.forM [IsTrans σ R] {l : List β} {f : β → Effect σ ε PUnit}
    (h : ∀ b ∈ l, Keeps R (f b)) : Keeps R (l.forM f) := by
  induction l with
  | nil => exact keeps_pure _
  | cons b l ih =>
      apply Keeps.bind (h b List.mem_cons_self)
      intro _
      exact ih fun b hb => h b (List.mem_cons_of_mem _ hb)

theorem keeps_throwIf (c : Prop) [Decidable c] (e : ε) : Keeps R (throwIf c e : Effect σ ε Unit) := by
  unfold throwIf
  split
  · exact keeps_throw e
  · exact keeps_pure ()

end

end Pishoo.Effects
