import Mathlib.Data.List.Basic
import Mathlib.Data.List.Induction

namespace Pishoo.Machine

variable {σ ε : Type}

/-- `Trace step guard s es t`: the events `es` lead from `s` to `t`, and each of them met
the guard in the state in which it was taken. -/
inductive Trace (step : σ → ε → Option σ) (guard : σ → ε → Prop) (s : σ) : List ε → σ → Prop
  | nil : Trace step guard s [] s
  | snoc {es t e u} : Trace step guard s es t → guard t e → step t e = some u →
      Trace step guard s (es ++ [e]) u

def Free : σ → ε → Prop := fun _ _ => True

instance (s : σ) (e : ε) : Decidable (Free s e) := .isTrue trivial

def run (step : σ → ε → Option σ) (guard : σ → ε → Prop) [∀ s e, Decidable (guard s e)] :
    σ → List ε → Option σ
  | s, [] => some s
  | s, e :: es => if guard s e then (step s e).bind (fun t => run step guard t es) else none

section

variable {step : σ → ε → Option σ} {guard : σ → ε → Prop} {s t : σ} {es : List ε}

theorem Trace.mono {guard' : σ → ε → Prop} (h : Trace step guard s es t)
    (hg : ∀ t e, guard t e → guard' t e) : Trace step guard' s es t := by
  induction h with
  | nil => exact .nil
  | snoc _ hgt hs ih => exact .snoc ih (hg _ _ hgt) hs

theorem Trace.cons {e : ε} {u : σ} (hg : guard s e) (hs : step s e = some u)
    (h : Trace step guard u es t) : Trace step guard s (e :: es) t := by
  induction h with
  | nil => exact .snoc .nil hg hs
  | snoc _ hgt hst ih => exact .snoc ih hgt hst

theorem trace_of_run [∀ s e, Decidable (guard s e)] (h : run step guard s es = some t) :
    Trace step guard s es t := by
  induction es generalizing s with
  | nil => cases h; exact .nil
  | cons e es ih =>
      simp only [run] at h
      split at h
      · obtain ⟨u, hu, ht⟩ := Option.bind_eq_some_iff.mp h
        exact Trace.cons ‹_› hu (ih ht)
      · cases h

theorem Trace.append {u : σ} {fs : List ε} (h : Trace step guard s es t)
    (h' : Trace step guard t fs u) : Trace step guard s (es ++ fs) u := by
  induction h' with
  | nil => simpa using h
  | snoc _ hg hs ih =>
      rw [← List.append_assoc]
      exact .snoc ih hg hs

/-- A property of the history and the state that holds at the start and is kept by every
guarded step holds at the end of every guarded trace. -/
theorem Trace.history {I : List ε → σ → Prop} (h : Trace step guard s es t) (h0 : I [] s)
    (hstep : ∀ es t e u, I es t → guard t e → step t e = some u → I (es ++ [e]) u) : I es t := by
  induction h with
  | nil => exact h0
  | snoc _ hg hs ih => exact hstep _ _ _ _ ih hg hs

/-- Some event of a run from `s` has been taken in a state in which `P` holds of both. -/
def Happens (step : σ → ε → Option σ) (guard P : σ → ε → Prop) (s : σ) (es : List ε) : Prop :=
  ∃ before e after t, es = before ++ e :: after ∧ Trace step guard s before t ∧ P t e

theorem Happens.snoc {P : σ → ε → Prop} (h : Happens step guard P s es) (e : ε) :
    Happens step guard P s (es ++ [e]) := by
  obtain ⟨before, e', after, t, rfl, htrace, hp⟩ := h
  exact ⟨before, e', after ++ [e], t, by simp, htrace, hp⟩

theorem Trace.happens {P : σ → ε → Prop} {e : ε} (h : Trace step guard s es t) (hp : P t e) :
    Happens step guard P s (es ++ [e]) :=
  ⟨es, e, [], t, rfl, h, hp⟩

theorem Trace.invariant {I : σ → Prop} (h : Trace step guard s es t) (h0 : I s)
    (hstep : ∀ t e u, I t → guard t e → step t e = some u → I u) : I t :=
  h.history (I := fun _ => I) h0 (fun _ => hstep)

theorem Trace.snoc_inv {e : ε} {u : σ} (h : Trace step guard s (es ++ [e]) u) :
    ∃ t, Trace step guard s es t ∧ guard t e ∧ step t e = some u := by
  generalize hl : es ++ [e] = l at h
  cases h with
  | nil => simp at hl
  | snoc h hg hs =>
      obtain ⟨rfl, he⟩ := List.append_inj' hl rfl
      cases he
      exact ⟨_, h, hg, hs⟩

theorem Trace.append_inv {u : σ} {fs : List ε} (h : Trace step guard s (es ++ fs) u) :
    ∃ t, Trace step guard s es t ∧ Trace step guard t fs u := by
  induction fs using List.reverseRecOn generalizing u with
  | nil => exact ⟨u, by simpa using h, .nil⟩
  | append_singleton fs e ih =>
      rw [← List.append_assoc] at h
      obtain ⟨v, hv, hg, hs⟩ := h.snoc_inv
      obtain ⟨t, ht, htv⟩ := ih hv
      exact ⟨t, ht, .snoc htv hg hs⟩

theorem Trace.unique {t' : σ} (h : Trace step guard s es t) (h' : Trace step guard s es t') :
    t = t' := by
  induction h generalizing t' with
  | nil =>
      generalize hl : ([] : List ε) = l at h'
      cases h' with
      | nil => rfl
      | snoc => simp at hl
  | snoc _ _ hs ih =>
      obtain ⟨v, hv, -, hs'⟩ := h'.snoc_inv
      rw [ih hv] at hs
      exact Option.some.inj (hs.symm.trans hs')

/-- A run in which `P` has never held of a step is a run guarded against it. -/
theorem Trace.guarded {P : σ → ε → Prop} (h : Trace step guard s es t)
    (hn : ¬Happens step guard P s es) : Trace step (fun t e => ¬P t e) s es t := by
  induction h with
  | nil => exact .nil
  | snoc h _ hs ih =>
      exact .snoc (ih fun hp => hn (hp.snoc _)) (fun hp => hn (h.happens hp)) hs

theorem Trace.not_happens {P : σ → ε → Prop} (h : Trace step (fun t e => ¬P t e) s es t) :
    ¬Happens step Free P s es := by
  rintro ⟨before, e, after, u, rfl, hu, hp⟩
  rw [← List.singleton_append, ← List.append_assoc] at h
  obtain ⟨v, hv, -⟩ := h.append_inv
  obtain ⟨u', hu', hg, -⟩ := hv.snoc_inv
  rw [hu.unique (hu'.mono fun _ _ _ => trivial)] at hp
  exact hg hp

end

end Pishoo.Machine
