import Mathlib.Data.List.Nodup
import Mathlib.Data.List.Pairwise

namespace Pishoo.Rows

variable {α κ : Type} [DecidableEq κ] {key : α → κ} {rows : List α}

/-- The row of a table with a primary key. -/
def select (key : α → κ) (rows : List α) (k : κ) : Option α := rows.find? (fun r => key r == k)

def updateWhere (p : α → Bool) (f : α → α) (rows : List α) : List α :=
  rows.map (fun r => if p r then f r else r)

def deleteWhere (p : α → Bool) (rows : List α) : List α := rows.filter (fun r => !p r)

theorem key_of_select {k : κ} {r : α} (h : select key rows k = some r) : key r = k := by
  simpa using List.find?_some h

theorem mem_of_select {k : κ} {r : α} (h : select key rows k = some r) : r ∈ rows :=
  List.mem_of_find?_eq_some h

theorem select_eq_none {k : κ} : select key rows k = none ↔ ∀ r ∈ rows, key r ≠ k := by
  simp [select]

theorem select_eq_some (hn : (rows.map key).Nodup) {k : κ} {r : α} :
    select key rows k = some r ↔ r ∈ rows ∧ key r = k := by
  constructor
  · exact fun h => ⟨mem_of_select h, key_of_select h⟩
  · rintro ⟨hr, rfl⟩
    cases hs : select key rows (key r) with
    | none => exact absurd rfl (select_eq_none.mp hs r hr)
    | some q => rw [List.inj_on_of_nodup_map hn (mem_of_select hs) hr (key_of_select hs)]

theorem select_of_mem (hn : (rows.map key).Nodup) {r : α} (hr : r ∈ rows) :
    select key rows (key r) = some r :=
  (select_eq_some hn).mpr ⟨hr, rfl⟩

omit [DecidableEq κ] in
theorem map_key_updateWhere (p : α → Bool) {f : α → α} (hf : ∀ r, key (f r) = key r) :
    (updateWhere p f rows).map key = rows.map key := by
  rw [updateWhere, List.map_map]
  apply List.map_congr_left
  intro r _
  by_cases hp : p r = true <;> simp [hp, hf]

omit [DecidableEq κ] in
theorem mem_updateWhere {p : α → Bool} {f : α → α} {r : α} :
    r ∈ updateWhere p f rows ↔ ∃ q ∈ rows, (if p q then f q else q) = r := by
  simp [updateWhere]

theorem select_updateWhere (p : α → Bool) (f : α → α) (hf : ∀ r, key (f r) = key r) (k : κ) :
    select key (updateWhere p f rows) k =
      (select key rows k).map (fun r => if p r then f r else r) := by
  have hkey (r : α) : key (if p r then f r else r) = key r := by
    by_cases hp : p r = true <;> simp [hp, hf]
  simp [select, updateWhere, List.find?_map, Function.comp_def, hkey]

omit [DecidableEq κ] in
theorem map_key_deleteWhere_sublist (p : α → Bool) :
    ((deleteWhere p rows).map key).Sublist (rows.map key) :=
  List.filter_sublist.map key

theorem select_deleteWhere_key (k k' : κ) :
    select key (deleteWhere (fun r => key r == k) rows) k' =
      if k' = k then none else select key rows k' := by
  induction rows with
  | nil => simp [select, deleteWhere]
  | cons r rows ih =>
      simp only [select, deleteWhere] at ih ⊢
      by_cases hk : key r = k
      · rw [List.filter_cons_of_neg (by simp [hk]), ih]
        by_cases hkk : k' = k
        · simp [hkk]
        · have hr : (key r == k') = false := by simpa [hk] using fun h => hkk h.symm
          simp [hkk, hr]
      · rw [List.filter_cons_of_pos (by simp [hk])]
        by_cases hr : key r = k'
        · have hkk : k' ≠ k := fun h => hk (hr.trans h)
          simp [hr, hkk]
        · simp [hr, ih]

theorem select_append (rows' : List α) (k : κ) :
    select key (rows ++ rows') k = (select key rows k).or (select key rows' k) := by
  simp [select, List.find?_append]

end Pishoo.Rows
