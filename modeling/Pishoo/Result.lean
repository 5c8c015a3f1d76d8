import Mathlib.Logic.Basic

namespace Pishoo.Result

variable {ε α β : Type}

theorem bind_eq_ok {x : Except ε α} {f : α → Except ε β} {b : β} :
    (x >>= f) = .ok b ↔ ∃ a, x = .ok a ∧ f a = .ok b := by
  cases x with
  | error e => simp [Bind.bind, Except.bind]
  | ok a => simp [Bind.bind, Except.bind]

theorem bind_eq_error {x : Except ε α} {f : α → Except ε β} {e : ε} :
    (x >>= f) = .error e ↔ x = .error e ∨ ∃ a, x = .ok a ∧ f a = .error e := by
  cases x with
  | error e => simp [Bind.bind, Except.bind]
  | ok a => simp [Bind.bind, Except.bind]

@[simp] theorem ok_bind (a : α) (f : α → Except ε β) : (Except.ok a >>= f) = f a := rfl

/-- `if c { return Err(e) }`. -/
def failIf (c : Prop) [Decidable c] (e : ε) : Except ε Unit := if c then .error e else .ok ()

def doIf (c : Prop) [Decidable c] (x : Except ε Unit) : Except ε Unit := if c then x else .ok ()

@[simp] theorem failIf_eq_ok {c : Prop} [Decidable c] {e : ε} {u : Unit} :
    failIf c e = .ok u ↔ ¬c := by
  unfold failIf
  split <;> simp_all

@[simp] theorem doIf_eq_ok {c : Prop} [Decidable c] {x : Except ε Unit} {u : Unit} :
    doIf c x = .ok u ↔ (c → x = .ok ()) := by
  unfold doIf
  split <;> simp_all

theorem foldlM_invariant {f : β → α → Except ε β} {P : β → Prop} {l : List α} {b c : β}
    (h : l.foldlM f b = .ok c) (hb : P b)
    (hf : ∀ a ∈ l, ∀ b c, P b → f b a = .ok c → P c) : P c := by
  induction l generalizing b with
  | nil =>
      cases h
      exact hb
  | cons a l ih =>
      rw [List.foldlM_cons] at h
      obtain ⟨d, hd, h⟩ := bind_eq_ok.mp h
      exact ih h (hf a List.mem_cons_self b d hb hd) fun x hx => hf x (List.mem_cons_of_mem _ hx)

theorem exists_of_mem_mapM {f : α → Except ε β} {l : List α} {l' : List β}
    (h : l.mapM f = .ok l') {b : β} (hb : b ∈ l') : ∃ a ∈ l, f a = .ok b := by
  induction l generalizing l' with
  | nil =>
      cases h
      cases hb
  | cons a l ih =>
      rw [List.mapM_cons] at h
      obtain ⟨b', hb', h⟩ := bind_eq_ok.mp h
      obtain ⟨rest, hrest, h⟩ := bind_eq_ok.mp h
      cases h
      obtain rfl | hb := List.mem_cons.mp hb
      · exact ⟨a, List.mem_cons_self, hb'⟩
      · obtain ⟨x, hx, hfx⟩ := ih hrest hb
        exact ⟨x, List.mem_cons_of_mem _ hx, hfx⟩

theorem exists_of_mapM {f : α → Except ε β} {l : List α} {l' : List β}
    (h : l.mapM f = .ok l') {a : α} (ha : a ∈ l) : ∃ b, f a = .ok b ∧ b ∈ l' := by
  induction l generalizing l' with
  | nil => cases ha
  | cons x l ih =>
      rw [List.mapM_cons] at h
      obtain ⟨b, hb, h⟩ := bind_eq_ok.mp h
      obtain ⟨rest, hrest, h⟩ := bind_eq_ok.mp h
      cases h
      obtain rfl | ha := List.mem_cons.mp ha
      · exact ⟨b, hb, List.mem_cons_self⟩
      · obtain ⟨b', hb', hmem⟩ := ih hrest ha
        exact ⟨b', hb', List.mem_cons_of_mem _ hmem⟩

theorem mapM_eq_ok {f : α → Except ε β} {g : α → β} {l : List α} (h : ∀ a ∈ l, f a = .ok (g a)) :
    l.mapM f = .ok (l.map g) := by
  induction l with
  | nil => rfl
  | cons a l ih =>
      rw [List.mapM_cons, h a List.mem_cons_self, ok_bind,
        ih fun b hb => h b (List.mem_cons_of_mem _ hb), ok_bind]
      rfl

/-- Each element of a loop that succeeds has been taken by some step. -/
theorem exists_of_mem_foldlM {f : β → α → Except ε β} {l : List α} {b c : β}
    (h : l.foldlM f b = .ok c) {a : α} (ha : a ∈ l) : ∃ b' c', f b' a = .ok c' := by
  induction l generalizing b with
  | nil => cases ha
  | cons x l ih =>
      rw [List.foldlM_cons] at h
      obtain ⟨d, hd, h⟩ := bind_eq_ok.mp h
      obtain rfl | ha := List.mem_cons.mp ha
      · exact ⟨b, d, hd⟩
      · exact ih h ha

theorem foldlM_flatMap {γ : Type} (g : γ → List α) (f : β → α → Except ε β) (l : List γ) (b : β) :
    (l.flatMap g).foldlM f b = l.foldlM (fun b c => (g c).foldlM f b) b := by
  induction l generalizing b with
  | nil => rfl
  | cons c l ih =>
      rw [List.flatMap_cons, List.foldlM_append, List.foldlM_cons]
      congr 1
      funext b
      exact ih b

@[simp] theorem mapError_eq_ok {ε' : Type} {x : Except ε α} {f : ε → ε'} {a : α} :
    x.mapError f = .ok a ↔ x = .ok a := by
  cases x with
  | error e => exact ⟨nofun, nofun⟩
  | ok b =>
    constructor
    · rintro ⟨⟩
      rfl
    · rintro ⟨⟩
      rfl

end Pishoo.Result
