import Mathlib.Logic.Basic

namespace Pishoo

/-- A file that is being replaced: the live one, its backup and the candidate that replaces it. -/
structure Swap (γ : Type) where
  live : Option γ
  backup : Option γ
  candidate : Option γ

namespace Swap

variable {γ : Type} {old new : Bool} {goal : Option γ} {s : Swap γ}

/-- There is something to undo in a replacement of an `old` file by a `new` one. -/
def acts (old new : Bool) (s : Swap γ) : Bool :=
  s.backup.isSome || (!old && new && !s.candidate.isSome)

/-- What is live after the replacement has been undone. -/
def restored (old new : Bool) (s : Swap γ) : Option γ :=
  if s.acts old new then s.backup else s.live

def moveOut (s : Swap γ) : Swap γ := ⟨none, s.live, s.candidate⟩

def moveIn (s : Swap γ) : Swap γ := ⟨s.candidate, s.backup, none⟩

def moveBack (s : Swap γ) : Swap γ := ⟨s.backup, none, s.candidate⟩

def discard (rest : Option γ) (s : Swap γ) : Swap γ := { s with live := rest }

/-- Undoing the replacement brings back `goal`. -/
structure Restores (old new : Bool) (goal : Option γ) (s : Swap γ) : Prop where
  backup : s.backup.isSome = true → old = true
  restored : s.restored old new = goal

theorem acts_of_backup (hb : s.backup.isSome = true) : s.acts old new = true := by
  simp [acts, hb]

theorem restores_of_live (hb : s.backup = none) (hlive : s.live = goal)
    (h : s.acts old new = true → goal = none) : Restores old new goal s := by
  refine ⟨fun hs => by simp [hb] at hs, ?_⟩
  unfold restored
  split
  · rw [hb, h ‹_›]
  · exact hlive

theorem restores_of_old (hb : s.backup = none) (hlive : s.live = goal) (hold : old = goal.isSome) :
    Restores old new goal s := by
  refine restores_of_live hb hlive fun hacts => ?_
  subst hold
  cases goal with
  | none => rfl
  | some g => simp [acts, hb] at hacts

theorem restores_moveOut (hlive : s.live = goal) (hold : old = goal.isSome) :
    Restores old new goal s.moveOut := by
  subst hold
  cases hg : goal with
  | none => exact restores_of_old (hlive.trans hg) rfl rfl
  | some g =>
      refine ⟨fun _ => rfl, ?_⟩
      have hacts : s.moveOut.acts (some g).isSome new = true :=
        acts_of_backup (by simp [moveOut, hlive, hg])
      rw [restored, if_pos hacts]
      exact hlive.trans hg

theorem moveOut_of_none (hlive : s.live = none) (hb : s.backup = none) : s.moveOut = s := by
  cases s
  simp_all [moveOut]

theorem moveIn_of_none (hlive : s.live = none) (hc : s.candidate = none) : s.moveIn = s := by
  cases s
  simp_all [moveIn]

theorem restores_moveIn (hold : old = goal.isSome) (hnew : new = true) (hb : s.backup = goal) :
    Restores old new goal s.moveIn := by
  subst hold hnew
  have hacts : s.moveIn.acts goal.isSome true = true := by
    cases goal <;> simp [acts, moveIn, hb]
  refine ⟨fun h => by simpa [moveIn, hb] using h, ?_⟩
  rw [restored, if_pos hacts]
  exact hb

/-- A replacement that went all the way can be undone. -/
theorem restores_replaced (hlive : s.live = goal) (hold : old = goal.isSome)
    (hnew : new = s.candidate.isSome) : Restores old new goal s.moveOut.moveIn := by
  cases hc : s.candidate with
  | some c =>
      refine restores_moveIn hold (by rw [hnew, hc]; rfl) ?_
      exact hlive
  | none =>
      subst hold hnew
      cases hg : goal with
      | none =>
          refine restores_of_live ?_ hc fun _ => rfl
          exact hlive.trans hg
      | some g =>
          refine ⟨fun _ => rfl, ?_⟩
          have hacts : s.moveOut.moveIn.acts (some g).isSome s.candidate.isSome = true :=
            acts_of_backup (by simp [moveOut, moveIn, hlive, hg])
          rw [restored, if_pos hacts]
          exact hlive.trans hg

theorem Restores.discard (h : Restores old new goal s) (hacts : s.acts old new = true)
    (rest : Option γ) : Restores old new goal (s.discard rest) := by
  have hacts' : (s.discard rest).acts old new = true := hacts
  refine ⟨h.backup, ?_⟩
  rw [Swap.restored, if_pos hacts']
  have := h.restored
  rwa [Swap.restored, if_pos hacts] at this

theorem Restores.backup_eq (h : Restores old new goal s) (hacts : s.acts old new = true) :
    s.backup = goal := by
  have := h.restored
  rwa [Swap.restored, if_pos hacts] at this

theorem Restores.live_eq (h : Restores old new goal s) (hacts : s.acts old new = false) :
    s.live = goal := by
  have := h.restored
  rwa [Swap.restored, if_neg (by simp [hacts])] at this

theorem Restores.moveBack (h : Restores old new goal s) (hb : s.backup.isSome = true) :
    Restores old new goal s.moveBack ∧ s.moveBack.live = goal ∧
      s.moveBack.acts old new = false := by
  have hgoal : s.backup = goal := h.backup_eq (by simp [acts, hb])
  have hacts : s.moveBack.acts old new = false := by simp [acts, Swap.moveBack, h.backup hb]
  refine ⟨restores_of_live rfl hgoal fun ha => ?_, hgoal, hacts⟩
  rw [hacts] at ha
  cases ha

end Swap

end Pishoo
