import Mathlib.Algebra.GroupWithZero.Nat
import Mathlib.Data.List.Basic
import Pishoo.Result

namespace Pishoo.Checked

open Result

/-- Why a computation on bounded numbers and slices has not returned a value. -/
inductive Stop (ε : Type)
  | rejected (error : ε)
  | panicked
  deriving DecidableEq

abbrev Attempt (ε α : Type) : Type := Except (Stop ε) α

variable {ε α β σ : Type}

/-- One more than the largest number of a machine word. -/
def word : Nat := 2 ^ 64

def reject (error : ε) : Attempt ε α := .error (.rejected error)

def orReject (x : Option α) (error : ε) : Attempt ε α :=
  match x with
  | some a => .ok a
  | none => reject error

def ofExcept (x : Except ε α) : Attempt ε α := x.mapError .rejected

def checkedAdd (a b : Nat) : Option Nat := if a + b < word then some (a + b) else none

def add (a b : Nat) : Attempt ε Nat :=
  match checkedAdd a b with
  | some c => .ok c
  | none => .error .panicked

def sub (a b : Nat) : Attempt ε Nat := if b ≤ a then .ok (a - b) else .error .panicked

/-- The elements between two positions. -/
def part (l : List α) (start stop : Nat) : List α := (l.drop start).take (stop - start)

/-- `get` of a range. -/
def get (l : List α) (start stop : Nat) : Option (List α) :=
  if start ≤ stop ∧ stop ≤ l.length then some (part l start stop) else none

/-- The index of a range. -/
def index (l : List α) (start stop : Nat) : Attempt ε (List α) :=
  match get l start stop with
  | some part => .ok part
  | none => .error .panicked

def Safe (x : Attempt ε α) : Prop := x ≠ .error .panicked

theorem Safe.ok {a : α} : Safe (.ok a : Attempt ε α) := nofun

theorem Safe.reject {error : ε} : Safe (reject error : Attempt ε α) := by
  rintro ⟨⟩

theorem Safe.bind {x : Attempt ε α} {f : α → Attempt ε β} (hx : Safe x)
    (hf : ∀ a, x = .ok a → Safe (f a)) : Safe (x >>= f) := by
  intro h
  obtain h | ⟨a, ha, h⟩ := bind_eq_error.mp h
  · exact hx h
  · exact hf a ha h

theorem Safe.failIf {c : Prop} [Decidable c] {error : ε} : Safe (failIf c (Stop.rejected error)) := by
  unfold Result.failIf
  split
  · exact Safe.reject
  · exact Safe.ok

theorem Safe.orReject {x : Option α} {error : ε} : Safe (orReject x error) := by
  cases x
  · exact Safe.reject
  · exact Safe.ok

theorem Safe.ofExcept {x : Except ε α} : Safe (ofExcept x) := by
  cases x <;> rintro ⟨⟩

theorem checkedAdd_eq_some {a b c : Nat} : checkedAdd a b = some c ↔ a + b < word ∧ c = a + b := by
  unfold checkedAdd
  split
  · rename_i h
    simp [h, eq_comm]
  · rename_i h
    simp [h]

theorem add_eq_ok {a b c : Nat} (h : (add a b : Attempt ε Nat) = .ok c) : c = a + b := by
  unfold add at h
  split at h
  · rename_i hadd
    cases h
    exact (checkedAdd_eq_some.mp hadd).2
  · cases h

theorem Safe.add {a b : Nat} (h : a + b < word) : Safe (add a b : Attempt ε Nat) := by
  rw [Checked.add, checkedAdd_eq_some.mpr ⟨h, rfl⟩]
  exact Safe.ok

theorem Safe.sub {a b : Nat} (h : b ≤ a) : Safe (sub a b : Attempt ε Nat) := by
  rw [Checked.sub, if_pos h]
  exact Safe.ok

theorem sub_eq_ok {a b c : Nat} (h : (sub a b : Attempt ε Nat) = .ok c) : b ≤ a ∧ c = a - b := by
  unfold sub at h
  split at h
  · cases h
    exact ⟨‹_›, rfl⟩
  · cases h

theorem get_eq_some {l part' : List α} {start stop : Nat} :
    get l start stop = some part' ↔ (start ≤ stop ∧ stop ≤ l.length) ∧ part' = part l start stop := by
  unfold get
  split
  · rename_i h
    simp [h, eq_comm]
  · rename_i h
    simp [h]

theorem length_part {l : List α} {start stop : Nat} (hstop : stop ≤ l.length) :
    (part l start stop).length = stop - start := by
  rw [part, List.length_take, List.length_drop]
  omega

theorem index_eq_ok {l part' : List α} {start stop : Nat}
    (h : (index l start stop : Attempt ε (List α)) = .ok part') : part' = part l start stop := by
  unfold index at h
  split at h
  · rename_i hget
    cases h
    exact (get_eq_some.mp hget).2
  · cases h

theorem Safe.index {l : List α} {start stop : Nat} (hstart : start ≤ stop) (hstop : stop ≤ l.length) :
    Safe (index l start stop : Attempt ε (List α)) := by
  rw [Checked.index, get_eq_some.mpr ⟨⟨hstart, hstop⟩, rfl⟩]
  exact Safe.ok

theorem part_append {l : List α} {start middle stop : Nat} (hstart : start ≤ middle)
    (hstop : middle ≤ stop) : part l start middle ++ part l middle stop = part l start stop := by
  obtain ⟨m, rfl⟩ := Nat.exists_eq_add_of_le hstart
  obtain ⟨k, rfl⟩ := Nat.exists_eq_add_of_le hstop
  have hk : start + m + k - (start + m) = k := by omega
  have hmk : start + m + k - start = m + k := by omega
  rw [part, part, part, hk, hmk, Nat.add_sub_cancel_left, ← List.drop_drop, ← List.take_add]

theorem part_part {l : List α} {start stop first last : Nat} (h : start + last ≤ stop) :
    part (part l start stop) first last = part l (start + first) (start + last) := by
  simp only [part, List.drop_take, List.take_take, List.drop_drop]
  congr 1
  omega

/-- A loop panics in no state that its invariant allows. -/
theorem Safe.foldlM {f : σ → α → Attempt ε σ} {P : σ → Prop} {l : List α} {s : σ} (hs : P s)
    (hsafe : ∀ a ∈ l, ∀ s, P s → Safe (f s a))
    (hstep : ∀ a ∈ l, ∀ s s', P s → f s a = .ok s' → P s') : Safe (l.foldlM f s) := by
  induction l generalizing s with
  | nil => exact Safe.ok
  | cons a l ih =>
      rw [List.foldlM_cons]
      refine Safe.bind (hsafe a List.mem_cons_self s hs) fun s' h => ?_
      exact ih (hstep a List.mem_cons_self s s' hs h)
        (fun b hb => hsafe b (List.mem_cons_of_mem _ hb))
        fun b hb => hstep b (List.mem_cons_of_mem _ hb)

end Pishoo.Checked
