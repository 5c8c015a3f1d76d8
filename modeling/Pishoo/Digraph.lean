import Mathlib.Data.Set.Finite.Basic
import Mathlib.Order.WellFounded
import Mathlib.Order.RelClasses
import Mathlib.Data.List.Perm.Subperm
import Mathlib.Logic.Relation

namespace Pishoo.Digraph

open Relation

variable {α : Type}

def Acyclic (r : α → α → Prop) : Prop := ∀ a, ¬TransGen r a a

section

variable {r r' : α → α → Prop} {a b : α}

theorem Acyclic.mono (h : Acyclic r) (hr : ∀ x y, r' x y → r x y) : Acyclic r' :=
  fun x hx => h x (TransGen.mono hr x x hx)

theorem acyclic_of_rank (rank : α → Nat) (h : ∀ a b, r a b → rank b < rank a) : Acyclic r := by
  have hlt {a b : α} (hab : TransGen r a b) : rank b < rank a := by
    induction hab with
    | single hab => exact h _ _ hab
    | tail _ hbc ih => exact (h _ _ hbc).trans ih
  exact fun a ha => lt_irrefl _ (hlt ha)

/-- The relation with one more edge from `a` to `b`. -/
def Insert (r : α → α → Prop) (a b x y : α) : Prop := r x y ∨ x = a ∧ y = b

theorem transGen_insert {x y : α} (h : TransGen (Insert r a b) x y) :
    TransGen r x y ∨ ReflTransGen r x a ∧ ReflTransGen r b y := by
  induction h with
  | single hxy =>
      obtain hr | ⟨rfl, rfl⟩ := hxy
      · exact .inl (.single hr)
      · exact .inr ⟨.refl, .refl⟩
  | tail _ hyz ih =>
      obtain hr | ⟨rfl, rfl⟩ := hyz
      · obtain hxy | ⟨hxa, hby⟩ := ih
        · exact .inl (hxy.tail hr)
        · exact .inr ⟨hxa, hby.tail hr⟩
      · obtain hxy | ⟨hxa, -⟩ := ih
        · exact .inr ⟨hxy.to_reflTransGen, .refl⟩
        · exact .inr ⟨hxa, .refl⟩

/-- An edge may be added exactly if it does not close a path back to its source. -/
theorem acyclic_insert_iff (h : Acyclic r) : Acyclic (Insert r a b) ↔ ¬ReflTransGen r b a := by
  constructor
  · intro hacyclic hba
    have hab : TransGen (Insert r a b) a b := .single (.inr ⟨rfl, rfl⟩)
    have hba' : ReflTransGen (Insert r a b) b a := ReflTransGen.mono (fun _ _ => .inl) b a hba
    exact hacyclic a (hab.trans_left hba')
  · intro hba x hx
    obtain hxx | ⟨hxa, hbx⟩ := transGen_insert hx
    · exact h x hxx
    · exact hba (hbx.trans hxa)

/-- A nonempty finite part of an acyclic graph has a vertex without successors in it. -/
theorem exists_sink (h : Acyclic r) {l : List α} (hl : l ≠ []) : ∃ m ∈ l, ∀ b ∈ l, ¬r m b := by
  let below : {x // x ∈ l} → {x // x ∈ l} → Prop := fun x y => TransGen r y.1 x.1
  have htrans : IsTrans {x // x ∈ l} below := ⟨fun _ _ _ hxy hyz => hyz.trans hxy⟩
  have hirrefl : Std.Irrefl below := ⟨fun x => h x.1⟩
  have hfinite : Finite {x // x ∈ l} := Set.Finite.to_subtype (List.finite_toSet l)
  have hwf : WellFounded below := Finite.wellFounded_of_trans_of_irrefl below
  obtain ⟨x, hx⟩ := List.exists_mem_of_ne_nil l hl
  obtain ⟨m, -, hm⟩ := hwf.has_min Set.univ ⟨⟨x, hx⟩, trivial⟩
  exact ⟨m.1, m.2, fun b hb hr => hm ⟨b, hb⟩ trivial (.single hr)⟩

end

section

variable [DecidableEq α] {edges : List (α × α)} {target : α}

def Edge (edges : List (α × α)) (a b : α) : Prop := (a, b) ∈ edges

def successors (edges : List (α × α)) (a : α) : List α :=
  (edges.filter (fun e => e.1 == a)).map Prod.snd

theorem mem_successors {a b : α} : b ∈ successors edges a ↔ Edge edges a b := by
  simp [successors, Edge]

def unexplored (edges : List (α × α)) (seen : List α) : Nat :=
  edges.countP (fun e => !seen.contains e.1)

theorem unexplored_cons {seen : List α} {a : α} (ha : a ∉ seen) :
    unexplored edges (a :: seen) + (successors edges a).length = unexplored edges seen := by
  induction edges with
  | nil => rfl
  | cons e edges ih =>
      simp only [unexplored, successors, List.countP_cons, List.filter_cons] at ih ⊢
      by_cases he : e.1 = a
      · simp [he, ha] at ih ⊢
        omega
      · simp [he] at ih ⊢
        omega

/-- Depth-first search with an explicit stack, whose top is the head of the list. -/
def search (edges : List (α × α)) (target : α) : List α → List α → Bool
  | [], _ => false
  | a :: pending, seen =>
      if a = target then true
      else if a ∈ seen then search edges target pending seen
      else search edges target ((successors edges a).reverse ++ pending) (a :: seen)
termination_by pending seen => unexplored edges seen + pending.length
decreasing_by
  · simp
  · rename_i ha
    simp only [List.length_append, List.length_reverse, List.length_cons]
    have h : unexplored edges (a :: seen) + (successors edges a).length = unexplored edges seen :=
      unexplored_cons ha
    omega

theorem search_reaches {pending seen : List α} (h : search edges target pending seen = true) :
    ∃ a ∈ pending, ReflTransGen (Edge edges) a target := by
  fun_induction search edges target pending seen with
  | case1 => cases h
  | case2 => exact ⟨target, List.mem_cons_self, .refl⟩
  | case3 a pending seen _ _ ih =>
      obtain ⟨x, hx, hr⟩ := ih h
      exact ⟨x, List.mem_cons_of_mem _ hx, hr⟩
  | case4 a pending seen _ _ ih =>
      obtain ⟨x, hx, hr⟩ := ih h
      obtain hx | hx := List.mem_append.mp hx
      · exact ⟨a, List.mem_cons_self, .head (mem_successors.mp (List.mem_reverse.mp hx)) hr⟩
      · exact ⟨x, List.mem_cons_of_mem _ hx, hr⟩

/-- A failed search has explored a set that is closed under the edges and misses the target. -/
theorem search_closed {pending seen : List α} (h : search edges target pending seen = false)
    (hseen : ∀ a ∈ seen, a ≠ target ∧ ∀ b, Edge edges a b → b ∈ seen ∨ b ∈ pending) :
    ∃ s : Set α, (∀ a ∈ seen, a ∈ s) ∧ (∀ a ∈ pending, a ∈ s) ∧ target ∉ s ∧
      ∀ a ∈ s, ∀ b, Edge edges a b → b ∈ s := by
  fun_induction search edges target pending seen with
  | case1 seen =>
      refine ⟨{a | a ∈ seen}, fun _ ha => ha, by simp, fun ht => (hseen target ht).1 rfl, ?_⟩
      intro a ha b hb
      exact ((hseen a ha).2 b hb).resolve_right (by simp)
  | case2 => cases h
  | case3 a pending seen hne hin ih =>
      have hrest : ∀ x ∈ seen, x ≠ target ∧ ∀ y, Edge edges x y → y ∈ seen ∨ y ∈ pending := by
        intro x hx
        refine ⟨(hseen x hx).1, fun y hy => ?_⟩
        obtain h | h := (hseen x hx).2 y hy
        · exact .inl h
        · obtain rfl | h := List.mem_cons.mp h
          · exact .inl hin
          · exact .inr h
      obtain ⟨s, hs, hp, ht, hclosed⟩ := ih h hrest
      refine ⟨s, hs, fun x hx => ?_, ht, hclosed⟩
      obtain rfl | hx := List.mem_cons.mp hx
      · exact hs x hin
      · exact hp x hx
  | case4 a pending seen hne hout ih =>
      have hrest : ∀ x ∈ a :: seen, x ≠ target ∧ ∀ y, Edge edges x y →
          y ∈ a :: seen ∨ y ∈ (successors edges a).reverse ++ pending := by
        intro x hx
        obtain rfl | hx := List.mem_cons.mp hx
        · refine ⟨hne, fun y hy => .inr (List.mem_append_left _ ?_)⟩
          exact List.mem_reverse.mpr (mem_successors.mpr hy)
        · refine ⟨(hseen x hx).1, fun y hy => ?_⟩
          obtain h | h := (hseen x hx).2 y hy
          · exact .inl (List.mem_cons_of_mem _ h)
          · obtain rfl | h := List.mem_cons.mp h
            · exact .inl List.mem_cons_self
            · exact .inr (List.mem_append_right _ h)
      obtain ⟨s, hs, hp, ht, hclosed⟩ := ih h hrest
      refine ⟨s, fun x hx => hs x (List.mem_cons_of_mem _ hx), fun x hx => ?_, ht, hclosed⟩
      obtain rfl | hx := List.mem_cons.mp hx
      · exact hs x List.mem_cons_self
      · exact hp x (List.mem_append_right _ hx)

theorem search_iff {a : α} :
    search edges target [a] [] = true ↔ ReflTransGen (Edge edges) a target := by
  constructor
  · intro h
    obtain ⟨x, hx, hr⟩ := search_reaches h
    rwa [List.mem_singleton.mp hx] at hr
  · intro hr
    by_contra h
    obtain ⟨s, -, hp, ht, hclosed⟩ := search_closed (by simpa using h) (by simp)
    have hreach {x : α} (hx : ReflTransGen (Edge edges) a x) : x ∈ s := by
      induction hx with
      | refl => exact hp a (by simp)
      | tail _ hbc ih => exact hclosed _ ih _ hbc
    exact ht (hreach hr)

end

end Pishoo.Digraph
