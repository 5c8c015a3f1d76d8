import Mathlib.Algebra.GroupWithZero.Nat
import Mathlib.Algebra.Order.BigOperators.Group.List
import Mathlib.Logic.Relation
import Pishoo.Effects

namespace Pishoo.Worklist

open Effects Effect Relation

variable {σ ε α : Type}

/-- What a visit finds is visited later, the last first. -/
def drain (visit : α → Effect σ ε (List α)) : Nat → List α → Effect σ ε Unit
  | 0, _ => pure ()
  | _ + 1, [] => pure ()
  | fuel + 1, a :: pending => do
      let found ← visit a
      drain visit fuel (found.reverse ++ pending)

/-- Visits of the items with a property find `children`, which have it too and weigh less. -/
structure Shrinks (visit : α → Effect σ ε (List α)) (children : α → List α) (weight : α → Nat)
    (P : α → Prop) : Prop where
  found : ∀ a s found s', P a → (visit a).outcome s = (.ok found, s') → found = children a
  closed : ∀ a, P a → ∀ b ∈ children a, P b
  lighter : ∀ a, P a → ((children a).map weight).sum < weight a

section

variable {visit : α → Effect σ ε (List α)} {children : α → List α} {weight : α → Nat}
  {P : α → Prop} {R : σ → σ → Prop} {pending : List α} {fuel : Nat} {s s' : σ} {u : Unit}

theorem drain_keeps [Std.Refl R] [IsTrans σ R] (hvisit : ∀ a, P a → Keeps R (visit a))
    (h : Shrinks visit children weight P) (hpending : ∀ a ∈ pending, P a) :
    Keeps R (drain visit fuel pending) := by
  induction fuel generalizing pending with
  | zero => exact keeps_pure ()
  | succ fuel ih =>
      cases pending with
      | nil => exact keeps_pure ()
      | cons a pending =>
          have ha := hpending a List.mem_cons_self
          intro s
          have hfirst := hvisit a ha s
          rw [drain, outcome_bind]
          rcases hout : (visit a).outcome s with ⟨e | found, s'⟩
          · rwa [hout] at hfirst
          · rw [hout] at hfirst
            refine IsTrans.trans _ _ _ hfirst (ih ?_ s')
            intro b hb
            rcases List.mem_append.mp hb with hb | hb
            · rw [h.found a s found s' ha hout] at hb
              exact h.closed a ha b (List.mem_reverse.mp hb)
            · exact hpending b (List.mem_cons_of_mem _ hb)

theorem pending_lighter (h : Shrinks visit children weight P) {a : α} (ha : P a)
    (hfuel : ((a :: pending).map weight).sum < fuel + 1) :
    (((children a).reverse ++ pending).map weight).sum < fuel := by
  have hlighter := h.lighter a ha
  rw [List.map_cons, List.sum_cons] at hfuel
  rw [List.map_append, List.sum_append, List.map_reverse, List.sum_reverse]
  omega

theorem drain_ends (h : Shrinks visit children weight P)
    (hvisit : ∀ a, P a → ∀ s, ∃ s', (visit a).outcome s = (.ok (children a), s'))
    (hpending : ∀ a ∈ pending, P a) (s : σ) :
    ∃ s', (drain visit fuel pending).outcome s = (.ok (), s') := by
  induction fuel generalizing pending s with
  | zero => exact ⟨s, rfl⟩
  | succ fuel ih =>
      cases pending with
      | nil => exact ⟨s, rfl⟩
      | cons a pending =>
          have ha := hpending a List.mem_cons_self
          obtain ⟨middle, hout⟩ := hvisit a ha s
          rw [drain, outcome_bind, hout]
          apply ih
          intro b hb
          rcases List.mem_append.mp hb with hb | hb
          · exact h.closed a ha b (List.mem_reverse.mp hb)
          · exact hpending b (List.mem_cons_of_mem _ hb)

/-- With enough fuel, a run that ends well has visited all that the pending items lead to. -/
theorem drain_visits [Std.Refl R] [IsTrans σ R] (h : Shrinks visit children weight P)
    (hR : ∀ a s found s', P a → (visit a).outcome s = (.ok found, s') → R s s')
    (hpending : ∀ a ∈ pending, P a) (hfuel : (pending.map weight).sum < fuel)
    (hrun : (drain visit fuel pending).outcome s = (.ok u, s')) :
    R s s' ∧ ∀ a ∈ pending, ∀ b, ReflTransGen (fun a b => b ∈ children a) a b →
      ∃ before after, R s before ∧ (visit b).outcome before = (.ok (children b), after) ∧
        R after s' := by
  induction fuel generalizing pending s with
  | zero => omega
  | succ fuel ih =>
      cases pending with
      | nil =>
          cases hrun
          refine ⟨Std.Refl.refl _, ?_⟩
          intro a ha
          cases ha
      | cons a pending =>
          have ha := hpending a List.mem_cons_self
          obtain ⟨found, middle, hvisit, hrest⟩ := outcome_bind_ok.mp hrun
          obtain rfl := h.found a s found middle ha hvisit
          have hnext : ∀ b ∈ (children a).reverse ++ pending, P b := by
            intro b hb
            rcases List.mem_append.mp hb with hb | hb
            · exact h.closed a ha b (List.mem_reverse.mp hb)
            · exact hpending b (List.mem_cons_of_mem _ hb)
          have hfirst := hR a s _ middle ha hvisit
          obtain ⟨hlast, hvisited⟩ := ih hnext (pending_lighter h ha hfuel) hrest
          refine ⟨IsTrans.trans _ _ _ hfirst hlast, ?_⟩
          have hlater {c b : α} (hc : c ∈ (children a).reverse ++ pending)
              (hreach : ReflTransGen (fun a b => b ∈ children a) c b) :
              ∃ before after, R s before ∧ (visit b).outcome before = (.ok (children b), after) ∧
                R after s' := by
            obtain ⟨before, after, hbefore, hout, hafter⟩ := hvisited c hc b hreach
            exact ⟨before, after, IsTrans.trans _ _ _ hfirst hbefore, hout, hafter⟩
          intro c hc b hreach
          rcases List.mem_cons.mp hc with rfl | hc
          · rcases hreach.cases_head with rfl | ⟨d, hd, hreach⟩
            · exact ⟨s, middle, Std.Refl.refl s, hvisit, hlast⟩
            · exact hlater (List.mem_append_left _ (List.mem_reverse.mpr hd)) hreach
          · exact hlater (List.mem_append_right _ hc) hreach

end

end Pishoo.Worklist
