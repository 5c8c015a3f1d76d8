import Mathlib.Data.List.Pairwise
import Pishoo.PackageFiles

namespace Pishoo

open Result

namespace PackageFiles

open World Prog

variable {γ : Type}

/-- Two targets have neither the file nor the staging directories in common. -/
def Separate (t t' : Target) : Prop :=
  t.slot ≠ t'.slot ∧ ¬(t.directory = t'.directory ∧ t.kind = t'.kind)

theorem Separate.symm {t t' : Target} (h : Separate t t') : Separate t' t :=
  ⟨h.1.symm, fun ⟨hd, hk⟩ => h.2 ⟨hd.symm, hk.symm⟩⟩

instance : Std.Symm Separate := ⟨fun _ _ h => h.symm⟩

/-- `w'` differs from `w` only in the files of the target, which `f` describes. -/
structure Moved (n : String) (t : Target) (f : Swap γ → Swap γ) (w w' : World γ) : Prop where
  db : w'.db = w.db
  roots : w'.roots = w.roots
  sandbox : w'.sandbox = w.sandbox
  stages : ∀ m, m ≠ n → w'.stages m = w.stages m
  marker : ∀ m, w'.marker m = w.marker m
  members : ∀ m d, (w'.member m d).isSome = (w.member m d).isSome
  runtime : ∀ slot, slot ≠ t.slot → w'.runtime slot = w.runtime slot
  pieces : ∀ m d kind, ¬(m = n ∧ d = t.directory ∧ kind = t.kind) →
    w'.backup m d kind = w.backup m d kind ∧ w'.candidate m d kind = w.candidate m d kind
  swap : w'.swap n t = f (w.swap n t)

section

variable {n : String} {t t' : Target} {w w' : World γ} {f : Swap γ → Swap γ}

theorem Moved.other (h : Moved n t f w w') (hs : Separate t t') : w'.swap n t' = w.swap n t' := by
  have hpiece : ¬(n = n ∧ t'.directory = t.directory ∧ t'.kind = t.kind) := fun hk =>
    hs.2 ⟨hk.2.1.symm, hk.2.2.symm⟩
  rw [World.swap, World.swap, h.runtime _ hs.1.symm, (h.pieces _ _ _ hpiece).1,
    (h.pieces _ _ _ hpiece).2]

theorem moved_setRuntime (rest : Option γ) :
    Moved n t (Swap.discard rest) w (w.setRuntime t.slot rest) := by
  refine ⟨rfl, rfl, rfl, fun _ _ => rfl, fun _ => rfl, fun _ _ => rfl, fun slot hs => ?_,
    fun _ _ _ _ => ⟨rfl, rfl⟩, ?_⟩
  · rw [runtime_setRuntime, if_neg hs]
  · simp [World.swap, Swap.discard, runtime_setRuntime]

theorem moved_updateMember {g : Member γ → Member γ} {c : Option γ}
    (hg : ∀ m kind, kind ≠ t.kind → (g m).old kind = m.old kind ∧ (g m).new kind = m.new kind)
    (hswap : ((w.updateMember n t.directory g).setRuntime t.slot c).swap n t = f (w.swap n t)) :
    Moved n t f w ((w.updateMember n t.directory g).setRuntime t.slot c) := by
  refine ⟨rfl, rfl, rfl, fun m hm => ?_, fun m => ?_, fun m d => ?_, fun slot hs => ?_,
    fun m d kind hne => ?_, hswap⟩
  · exact (stages_updateStage m).trans (if_neg hm)
  · rw [marker_setRuntime, marker_updateMember]
  · rw [member_setRuntime, member_isSome_updateMember]
  · rw [runtime_setRuntime, if_neg hs, runtime_updateMember]
  · rw [backup_setRuntime, candidate_setRuntime, backup_updateMember, candidate_updateMember]
    by_cases hmd : m = n ∧ d = t.directory
    · obtain ⟨rfl, rfl⟩ := hmd
      have hkind : kind ≠ t.kind := fun hk => hne ⟨rfl, rfl, hk⟩
      rw [if_pos ⟨rfl, rfl⟩, if_pos ⟨rfl, rfl⟩, backup, candidate]
      cases w.member m t.directory with
      | none => exact ⟨rfl, rfl⟩
      | some x => exact hg x kind hkind
    · rw [if_neg hmd, if_neg hmd]
      exact ⟨rfl, rfl⟩

theorem swap_of_member {m : Member γ} (hm : w.member n t.directory = some m) :
    w.swap n t = ⟨w.runtime t.slot, m.old t.kind, m.new t.kind⟩ := by
  simp [World.swap, backup, candidate, hm]

theorem swap_updateMember {g : Member γ → Member γ} {c : Option γ} {m : Member γ}
    (hm : w.member n t.directory = some m) :
    ((w.updateMember n t.directory g).setRuntime t.slot c).swap n t =
      ⟨c, (g m).old t.kind, (g m).new t.kind⟩ := by
  have hm' : ((w.updateMember n t.directory g).setRuntime t.slot c).member n t.directory =
      some (g m) := by
    rw [member_setRuntime, member_updateMember, if_pos ⟨rfl, rfl⟩, hm, Option.map_some]
  rw [swap_of_member hm', runtime_setRuntime, if_pos rfl]

theorem moved_refl : Moved n t (Swap.discard (w.runtime t.slot)) w w := by
  refine ⟨rfl, rfl, rfl, fun _ _ => rfl, fun _ => rfl, fun _ _ => rfl, fun _ _ => rfl,
    fun _ _ _ _ => ⟨rfl, rfl⟩, rfl⟩

end

section

variable {n : String} {t : Target} {P Q R : World γ → Prop}

theorem triple_change {act : World γ → Except Failure (World γ)} (hcut : ∀ w, P w → R w)
    (hok : ∀ w w', P w → act w = .ok w' → Q w') :
    Triple P (change act) (fun _ => Q) (fun _ => R) R :=
  Triple.step (fun w hw _ => ⟨hcut w hw, hcut w hw⟩) hok fun w _ hw _ => hcut w hw

theorem triple_sync (hcut : ∀ w, P w → R w) : Triple P sync (fun _ => P) (fun _ => R) R := by
  refine Triple.step (fun w hw _ => ⟨hcut w hw, hcut w hw⟩) ?_ fun w _ hw _ => hcut w hw
  intro w w' hw h
  cases h
  exact hw

theorem renameOut_triple (hcut : ∀ w, P w → R w)
    (hok : ∀ w w', P w → Moved n t Swap.moveOut w w' → Q w') :
    Triple P (renameOut n t) (fun _ => Q) (fun _ => R) R := by
  refine triple_change hcut fun w w' hw h => hok w w' hw ?_
  split at h
  · rename_i c m hc hm
    cases h
    refine moved_updateMember (fun x kind hk => ⟨Function.update_of_ne hk _ _, rfl⟩) ?_
    rw [swap_updateMember hm, swap_of_member hm]
    simp only [Swap.moveOut, Function.update_self, hc]
  · cases h

theorem renameIn_triple (hcut : ∀ w, P w → R w)
    (hok : ∀ w w', P w → Moved n t Swap.moveIn w w' → Q w') :
    Triple P (renameIn n t) (fun _ => Q) (fun _ => R) R := by
  refine triple_change hcut fun w w' hw h => hok w w' hw ?_
  split at h
  · rename_i c hc
    cases h
    obtain ⟨m, hm, hnew⟩ := Option.bind_eq_some_iff.mp hc
    refine moved_updateMember (fun x kind hk => ⟨rfl, Function.update_of_ne hk _ _⟩) ?_
    rw [swap_updateMember hm, swap_of_member hm]
    simp only [Swap.moveIn, Function.update_self, hnew]
  · cases h

theorem renameBack_triple (hcut : ∀ w, P w → R w)
    (hok : ∀ w w', P w → Moved n t Swap.moveBack w w' → Q w') :
    Triple P (renameBack n t) (fun _ => Q) (fun _ => R) R := by
  refine triple_change hcut fun w w' hw h => hok w w' hw ?_
  split at h
  · rename_i c hc
    cases h
    obtain ⟨m, hm, hold⟩ := Option.bind_eq_some_iff.mp hc
    refine moved_updateMember (fun x kind hk => ⟨Function.update_of_ne hk _ _, rfl⟩) ?_
    rw [swap_updateMember hm, swap_of_member hm]
    simp only [Swap.moveBack, Function.update_self, hold]
  · cases h

theorem removeTarget_triple (hcut : ∀ w w' rest, P w → Moved n t (Swap.discard rest) w w' → R w')
    (hok : ∀ w w', P w → Moved n t (Swap.discard none) w w' → Q w') :
    Triple P (removeTarget t) (fun _ => Q) (fun _ => R) R := by
  refine Triple.step (fun w hw l => ?_) (fun w w' hw h => ?_) fun w e _ h => by cases h
  · have hsame : R w := hcut w w _ hw moved_refl
    have hleft (c : Option γ) : R (w.setRuntime t.slot c) := hcut w _ _ hw (moved_setRuntime c)
    cases t.kind with
    | lib => exact ⟨hsame, hsame⟩
    | app => exact ⟨hleft _, hleft _⟩
  · cases h
    exact hok w _ hw (moved_setRuntime none)

/-- `w'` differs from `w` only in the journal of the stage. -/
structure Marked (n : String) (marker : Option Marker) (w w' : World γ) : Prop where
  db : w'.db = w.db
  roots : w'.roots = w.roots
  sandbox : w'.sandbox = w.sandbox
  runtime : w'.runtime = w.runtime
  stages : ∀ m, m ≠ n → w'.stages m = w.stages m
  marker : w'.marker n = marker
  member : ∀ m d, w'.member m d = w.member m d

theorem Marked.swap {marker : Option Marker} {w w' : World γ} (h : Marked n marker w w') (m : String)
    (t : Target) : w'.swap m t = w.swap m t := by
  simp only [World.swap, backup, candidate, h.runtime, h.member]

theorem marked_setMarker {marker : Option Marker} {w : World γ} (h : (w.stages n).isSome = true) :
    Marked n marker w (setMarker n marker w) := by
  obtain ⟨s, hs⟩ := Option.isSome_iff_exists.mp h
  refine ⟨rfl, rfl, rfl, rfl, fun m hm => ?_, ?_, fun m d => ?_⟩
  · exact (stages_updateStage m).trans (if_neg hm)
  · rw [World.marker, setMarker, stages_updateStage, if_pos rfl, hs]
    rfl
  · rw [World.member, World.member, setMarker, stages_updateStage]
    split
    · rename_i hm
      subst hm
      rw [hs]
      rfl
    · rfl

theorem createMarker_triple (hcut : ∀ w, P w → R w)
    (hok : ∀ w w', P w → Marked n (some .torn) w w' → Q w') :
    Triple P (createMarker n) (fun _ => Q) (fun _ => R) R := by
  refine triple_change hcut fun w w' hw h => hok w w' hw ?_
  split at h
  · rename_i hs _
    cases h
    exact marked_setMarker (by simp [hs])
  · cases h
  · cases h

theorem stages_of_marker {marker : Marker} {w : World γ} (h : w.marker n = some marker) :
    (w.stages n).isSome = true := by
  obtain ⟨s, hs, -⟩ := Option.bind_eq_some_iff.mp h
  rw [hs]
  rfl

theorem writeMarker_triple {packages : List JournalEntry} (hcut : ∀ w, P w → R w)
    (htorn : ∀ w, P w → w.marker n = some .torn)
    (hok : ∀ w w', P w → Marked n (some (.complete packages)) w w' → Q w') :
    Triple P (writeMarker n packages) (fun _ => Q) (fun _ => R) R := by
  refine triple_change hcut fun w w' hw h => hok w w' hw ?_
  cases h
  exact marked_setMarker (stages_of_marker (htorn w hw))

theorem unlinkMarker_triple (hcut : ∀ w, P w → R w)
    (hok : ∀ w w', P w → Marked n none w w' → Q w') :
    Triple P (unlinkMarker n) (fun _ => Q) (fun _ => R) R := by
  refine triple_change hcut fun w w' hw h => hok w w' hw ?_
  split at h
  · rename_i marker hm
    cases h
    exact marked_setMarker (stages_of_marker hm)
  · cases h

/-- A removal of the stage has at most taken things away from it. -/
structure Reduced (n : String) (w w' : World γ) : Prop where
  db : w'.db = w.db
  roots : w'.roots = w.roots
  sandbox : w'.sandbox = w.sandbox
  runtime : w'.runtime = w.runtime
  stages : ∀ m, m ≠ n → w'.stages m = w.stages m
  marker : w'.marker n = none ∨ w'.marker n = w.marker n
  backup : ∀ d kind, w.backup n d kind = none → w'.backup n d kind = none

theorem reduced_none {w : World γ} :
    Reduced n w { w with stages := Function.update w.stages n none } := by
  refine ⟨rfl, rfl, rfl, rfl, fun m hm => Function.update_of_ne hm _ _, .inl ?_, fun d kind _ => ?_⟩
  · simp [World.marker]
  · simp [World.backup, World.member]

theorem reduced_leave {w : World γ} (l : Leftover γ) :
    Reduced n w (w.updateStage n (Stage.leave l)) := by
  have hstage : (w.updateStage n (Stage.leave l)).stages n = (w.stages n).map (Stage.leave l) :=
    (stages_updateStage n).trans (if_pos rfl)
  refine ⟨rfl, rfl, rfl, rfl, fun m hm => (stages_updateStage m).trans (if_neg hm), ?_,
    fun d kind hnone => ?_⟩
  · rw [World.marker, World.marker, hstage]
    cases w.stages n with
    | none => exact .inl rfl
    | some s =>
        cases hk : l.keepMarker with
        | true => exact .inr (by simp [Stage.leave, hk])
        | false => exact .inl (by simp [Stage.leave, hk])
  · rw [World.backup, World.member] at hnone ⊢
    rw [hstage]
    cases hs : w.stages n with
    | none => rfl
    | some s =>
        cases hm : s.members d with
        | none => simp [Stage.leave, hm]
        | some m =>
            have hold : m.old kind = none := by simpa [hs, hm] using hnone
            by_cases hd : d = ""
            · subst hd
              simp [Stage.leave, hm, Member.leave, hold]
            · cases hl : l.members d <;> simp [Stage.leave, hm, hd, hl, Member.leave, hold]

theorem removeStage_triple (hcut : ∀ w w', P w → Reduced n w w' → R w')
    (hok : ∀ w w', P w → Reduced n w w' → w'.stages n = none → Q w') :
    Triple P (removeStage n) (fun _ => Q) (fun _ => R) R := by
  refine Triple.step (fun w hw l => ?_) (fun w w' hw h => ?_) fun w e _ h => by cases h
  · exact ⟨hcut w _ hw (reduced_leave l), hcut w _ hw (reduced_leave l)⟩
  · cases h
    exact hok w _ hw reduced_none (Function.update_self _ _ _)

end

end PackageFiles

end Pishoo
