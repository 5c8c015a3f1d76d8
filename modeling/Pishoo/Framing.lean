import Mathlib.Data.List.Basic

namespace Pishoo.Framing

variable {α β γ δ : Type}

/-- What is encoded of a value shows where it ends, and tells the key of the value. -/
def Splits (domain : α → Prop) (enc : α → List β) (key : α → γ) : Prop :=
  ∀ a b, domain a → domain b → ∀ x y, enc a ++ x = enc b ++ y → key a = key b ∧ x = y

variable {domain : α → Prop} {enc enc' : α → List β} {key : α → γ} {key' : α → δ}

theorem Splits.fixed {width : Nat} (hwidth : ∀ a, (enc a).length = width)
    (hkey : ∀ a b, domain a → domain b → enc a = enc b → key a = key b) :
    Splits domain enc key := by
  intro a b ha hb x y h
  obtain ⟨henc, hrest⟩ := List.append_inj h (by rw [hwidth, hwidth])
  exact ⟨hkey a b ha hb henc, hrest⟩

theorem Splits.append (h : Splits domain enc key) (h' : Splits domain enc' key') :
    Splits domain (fun a => enc a ++ enc' a) fun a => (key a, key' a) := by
  intro a b ha hb x y heq
  rw [List.append_assoc, List.append_assoc] at heq
  obtain ⟨hkey, hrest⟩ := h a b ha hb _ _ heq
  obtain ⟨hkey', hrest'⟩ := h' a b ha hb _ _ hrest
  exact ⟨Prod.ext hkey hkey', hrest'⟩

/-- A text after its length. -/
theorem Splits.prefixed {body : α → List β} (h : Splits domain enc fun a => (body a).length) :
    Splits domain (fun a => enc a ++ body a) body := by
  intro a b ha hb x y heq
  rw [List.append_assoc, List.append_assoc] at heq
  obtain ⟨hlength, hrest⟩ := h a b ha hb _ _ heq
  exact List.append_inj hrest hlength

theorem Splits.rekey (h : Splits domain enc key)
    (hkey : ∀ a b, domain a → domain b → key a = key b → key' a = key' b) :
    Splits domain enc key' := by
  intro a b ha hb x y heq
  obtain ⟨hab, hrest⟩ := h a b ha hb x y heq
  exact ⟨hkey a b ha hb hab, hrest⟩

/-- A concatenation can be parsed in one way only. -/
theorem Splits.flatMap (h : Splits domain enc key) (hne : ∀ a, domain a → enc a ≠ [])
    {as bs : List α} (has : ∀ a ∈ as, domain a) (hbs : ∀ b ∈ bs, domain b)
    (heq : as.flatMap enc = bs.flatMap enc) : as.map key = bs.map key := by
  induction as generalizing bs with
  | nil =>
      cases bs with
      | nil => rfl
      | cons b bs =>
          rw [List.flatMap_nil, List.flatMap_cons] at heq
          exact absurd (List.append_eq_nil_iff.mp heq.symm).1 (hne b (hbs b List.mem_cons_self))
  | cons a as ih =>
      have ha := has a List.mem_cons_self
      cases bs with
      | nil =>
          rw [List.flatMap_nil, List.flatMap_cons] at heq
          exact absurd (List.append_eq_nil_iff.mp heq).1 (hne a ha)
      | cons b bs =>
          rw [List.flatMap_cons, List.flatMap_cons] at heq
          obtain ⟨hkey, hrest⟩ := h a b ha (hbs b List.mem_cons_self) _ _ heq
          rw [List.map_cons, List.map_cons, hkey, ih (fun c hc => has c (List.mem_cons_of_mem _ hc))
            (fun c hc => hbs c (List.mem_cons_of_mem _ hc)) hrest]

end Pishoo.Framing
