import Mathlib.Data.List.Sort
import Pishoo.Checked

namespace Pishoo.Tiling

open Result Checked

variable {ε α : Type}

/-- Where a record starts and where the next one may start. -/
structure Span where
  start : Nat
  stop : Nat
  deriving DecidableEq

def before (a b : Span) : Prop := a.start ≤ b.start

instance : DecidableRel before := fun a b => Nat.decLe a.start b.start

/-- The spans in the order of their starts, with one more. -/
def insertSpan (span : Span) (spans : List Span) : List Span := spans.orderedInsert before span

def startsAt (spans : List Span) (start : Nat) : Bool := spans.any (·.start == start)

/-- Walks along spans that follow each other without a gap, and says where they end. -/
def tile (gap : ε) (cursor : Nat) : List Span → Attempt ε Nat
  | [] => .ok cursor
  | span :: spans => do
      failIf (span.start ≠ cursor) (Stop.rejected gap)
      tile gap span.stop spans

theorem insertSpan_perm (span : Span) (spans : List Span) : (insertSpan span spans).Perm (span :: spans) :=
  List.perm_orderedInsert before span spans

theorem tile_safe {gap : ε} {cursor : Nat} {spans : List Span} : Safe (tile gap cursor spans) := by
  induction spans generalizing cursor with
  | nil => exact Safe.ok
  | cons span spans ih => exact Safe.bind Safe.failIf fun _ _ => ih

/-- The parts of spans that have been walked along make up everything in between. -/
theorem tile_spec {gap : ε} {cursor stop : Nat} {spans : List Span} {l : List α}
    (h : tile gap cursor spans = .ok stop) (hspans : ∀ span ∈ spans, span.start ≤ span.stop) :
    cursor ≤ stop ∧ spans.flatMap (fun span => part l span.start span.stop) = part l cursor stop := by
  induction spans generalizing cursor with
  | nil =>
      cases h
      simp [part]
  | cons span spans ih =>
      obtain ⟨_, hstart, htile⟩ := bind_eq_ok.mp h
      obtain rfl : span.start = cursor := by simpa using hstart
      have hspan := hspans span List.mem_cons_self
      obtain ⟨hle, hparts⟩ := ih htile fun s hs => hspans s (List.mem_cons_of_mem _ hs)
      refine ⟨hspan.trans hle, ?_⟩
      rw [List.flatMap_cons, hparts, part_append hspan hle]

end Pishoo.Tiling
