import Pishoo.Acceptance
import Pishoo.InstallationOutcome

namespace Pishoo.FailureAtomicity

open Result World Prog PackageFiles Registry Registration Installation

variable {γ : Type}

/-- Rows, runtime files and maps are as before, except that a legacy path may have been moved out of
`/std/`. -/
structure Kept (w₀ w : World γ) : Prop where
  packages : w.db.registry.packages = w₀.db.registry.packages
  dependencies : w.db.registry.dependencies = w₀.db.registry.dependencies
  capabilities : w.db.registry.capabilities = w₀.db.registry.capabilities
  operations : w.db.registry.operations = w₀.db.registry.operations ∨
    w.db.registry.operations =
      Rows.updateWhere (misplaced w₀.db.registry) replaced w₀.db.registry.operations
  runtime : w.runtime = w₀.runtime
  sandbox : w.sandbox = w₀.sandbox

section

variable {inst : Installer γ} {w₀ w₁ w : World γ} {n : String} {call : Call} {f : Failure}

theorem Opened.kept (h : Opened w₀ w) : Kept w₀ w := by
  have htables := migrateRegistration_tables h.registry
  refine ⟨?_, ?_, ?_, .inr ?_, h.runtime, h.sandbox⟩
  all_goals rw [htables]

theorem Kept.congr (h : Kept w₀ w₁) (hdb : w.db = w₁.db) (hruntime : w.runtime = w₁.runtime)
    (hsandbox : w.sandbox = w₁.sandbox) : Kept w₀ w := by
  refine ⟨?_, ?_, ?_, ?_, hruntime.trans h.runtime, hsandbox.trans h.sandbox⟩
  · rw [hdb]
    exact h.packages
  · rw [hdb]
    exact h.dependencies
  · rw [hdb]
    exact h.capabilities
  · rw [hdb]
    exact h.operations

theorem Before.kept (h : Before w₀ n w) : Kept w₀ w := by
  cases h with
  | unopened h => exact h ▸ ⟨rfl, rfl, rfl, .inl rfl, rfl, rfl⟩
  | opened h => exact Opened.kept h
  | staging w₁ ho _ h => exact (Opened.kept ho).congr h.db h.runtime h.sandbox

theorem Plan.kept {entries : List (Id × String)} {tx : Database}
    (h : Plan inst w₀ n call w entries tx) : Kept w₀ w := by
  obtain ⟨w₁, ho, hfree, hquiet⟩ := h.opened
  exact Before.kept (.staging w₁ ho hfree hquiet)

theorem Old.kept {packages : List JournalEntry} (hk : Kept w₀ w₁) (h : Old w₁ n packages w) :
    Kept w₀ w := by
  cases h with
  | untouched h => exact hk.congr h.db h.runtime h.frame.sandbox
  | switching h hruntime => exact hk.congr h.db hruntime h.frame.sandbox

theorem Failing.kept (h : Failing inst w₀ n call f w) (hrolled : f.rolledBack = true) :
    Kept w₀ w := by
  obtain hbefore | ⟨ws, entries, tx, hplan, hfailed⟩ := h
  · exact Before.kept hbefore
  · cases hfailed with
    | old h => exact Old.kept (Plan.kept hplan) h
    | rollback _ hf =>
        rw [hrolled] at hf
        cases hf

theorem perform_failing {fs gs : List (Fault (Leftover γ))}
    (h : perform inst n call fs w₀ = (.err f, w, gs)) : Failing inst w₀ n call f w := by
  cases call with
  | install items now => exact installPackages_triple.error rfl h
  | remove id => exact removePackage_triple.error rfl h

end

/-- A call that fails leaves everything as it was, unless its own rollback has failed. -/
theorem failure_atomic {inst : Installer γ} {w₀ w : World γ} {n : String} {call : Call}
    {f : Failure} {fs gs : List (Fault (Leftover γ))}
    (h : perform inst n call fs w₀ = (.err f, w, gs)) (hrolled : f.rolledBack = true) :
    Kept w₀ w :=
  Failing.kept (perform_failing h) hrolled

/-- A library of an earlier version with an operation below `/std/`. -/
def legacyRegistry : Registry where
  packages := [Registry.fresh (sampleRelease "base" "1.0.0" []).row 100]
  dependencies := []
  capabilities := [⟨"base", "read", "Read"⟩]
  operations := [⟨"base", "read", "GET", "/std/items"⟩]
  valid := by decide

def legacyWorld : World String := { emptyWorld with db := ⟨legacyRegistry, fun _ => none⟩ }

/-- The batch is refused after the registry has been migrated. -/
def refusedRun : Exit Failure Unit × World String × List (Fault (Leftover String)) :=
  perform sampleInstaller ".pishoo-1"
    (.install [{ sampleItem "base" "1.0.1" [] with id := ⟨none, "base"⟩ }] fun _ => 100) [] legacyWorld

def frontend : Release := { sampleRelease "page" "1.0.0" [] with hasLib := false, hasApp := true }

/-- The commit fails, and so does the removal of the new frontend. -/
def stuckRun : Exit Failure Unit × World String × List (Fault (Leftover String)) :=
  perform sampleInstaller ".pishoo-1"
    (.install [{ sampleItem "page" "1.0.0" [] with evidence := .ok frontend }] fun _ => 100)
    (List.replicate 29 .proceed ++ [.fail ⟨none, true, fun _ => none⟩, .proceed, .proceed,
      .fail ⟨some "1.0.0", true, fun _ => none⟩]) emptyWorld

theorem refusedRun_fails :
    refusedRun.1 = .err (.of (.packagePolicy "signing_identity_mismatch" 403)) := by
  decide +kernel

theorem failure_atomic_refused : Kept legacyWorld refusedRun.2.1 :=
  failure_atomic (Prod.ext refusedRun_fails (Prod.ext rfl rfl) : refusedRun = (_, _, _)) rfl

/-- A failed call keeps the migration of the registry. If its rollback cannot remove a new frontend,
that one stays, although there is no rename to fail. -/
theorem failure_not_atomic :
    (refusedRun.1 = .err (.of (.packagePolicy "signing_identity_mismatch" 403)) ∧
      refusedRun.2.1.db.registry.operations ≠ legacyWorld.db.registry.operations) ∧
    (stuckRun.1 = .err { inputOutput with rolledBack := false } ∧
      emptyWorld.runtime ⟨.app, "page"⟩ = none ∧
      stuckRun.2.1.runtime ⟨.app, "page"⟩ = some "1.0.0") := by
  refine ⟨⟨refusedRun_fails, ?_⟩, ?_, rfl, ?_⟩
  all_goals decide +kernel

end Pishoo.FailureAtomicity
