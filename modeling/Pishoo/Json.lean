import Mathlib.Algebra.Ring.Int.Defs
import Mathlib.Data.List.Basic

namespace Pishoo

/-- A `serde_json::Value`. A number that is no `i64` is kept as its literal. -/
inductive Json
  | null
  | bool (b : Bool)
  | int (n : Int)
  | number (literal : String)
  | str (s : String)
  | arr (items : List Json)
  | obj (fields : List (String × Json))
  deriving Inhabited

namespace Json

mutual

def same : Json → Json → Bool
  | .null, .null => true
  | .bool b, .bool b' => b == b'
  | .int n, .int n' => n == n'
  | .number l, .number l' => l == l'
  | .str s, .str s' => s == s'
  | .arr items, .arr items' => sameItems items items'
  | .obj fields, .obj fields' => sameFields fields fields'
  | _, _ => false

def sameItems : List Json → List Json → Bool
  | [], [] => true
  | v :: items, v' :: items' => same v v' && sameItems items items'
  | _, _ => false

def sameFields : List (String × Json) → List (String × Json) → Bool
  | [], [] => true
  | (key, v) :: fields, (key', v') :: fields' => key == key' && same v v' && sameFields fields fields'
  | _, _ => false

end

mutual

theorem same_iff : ∀ v v' : Json, same v v' = true ↔ v = v'
  | .null, v' => by cases v' <;> simp [same]
  | .bool b, v' => by cases v' <;> simp [same]
  | .int n, v' => by cases v' <;> simp [same]
  | .number l, v' => by cases v' <;> simp [same]
  | .str s, v' => by cases v' <;> simp [same]
  | .arr items, v' => by
      cases v' with
      | arr items' => simpa [same] using sameItems_iff items items'
      | _ => simp [same]
  | .obj fields, v' => by
      cases v' with
      | obj fields' => simpa [same] using sameFields_iff fields fields'
      | _ => simp [same]

theorem sameItems_iff : ∀ items items' : List Json, sameItems items items' = true ↔ items = items'
  | [], items' => by cases items' <;> simp [sameItems]
  | v :: items, items' => by
      cases items' with
      | nil => simp [sameItems]
      | cons v' items' => simp [sameItems, same_iff v v', sameItems_iff items items']

theorem sameFields_iff : ∀ fields fields' : List (String × Json),
    sameFields fields fields' = true ↔ fields = fields'
  | [], fields' => by cases fields' <;> simp [sameFields]
  | (key, v) :: fields, fields' => by
      cases fields' with
      | nil => simp [sameFields]
      | cons f fields' =>
          obtain ⟨key', v'⟩ := f
          simp [sameFields, same_iff v v', sameFields_iff fields fields', and_assoc]

end

instance : DecidableEq Json := fun v v' => decidable_of_iff _ (same_iff v v')

/-- `Value::get` with a key. -/
def find (v : Json) (key : String) : Option Json :=
  match v with
  | .obj fields => fields.lookup key
  | _ => none

def get (v : Json) (key : String) : Json :=
  match v with
  | .obj fields => (fields.lookup key).getD .null
  | _ => .null

def set (v : Json) (key : String) (x : Json) : Json :=
  match v with
  | .obj fields => .obj ((key, x) :: fields.filter (fun f => f.1 != key))
  | .null => .obj [(key, x)]
  | v => v

def asStr : Json → Option String
  | .str s => some s
  | _ => none

def asI64 : Json → Option Int
  | .int n => if -2 ^ 63 ≤ n ∧ n < 2 ^ 63 then some n else none
  | _ => none

def asArray : Json → Option (List Json)
  | .arr items => some items
  | _ => none

def asObject : Json → Option (List (String × Json))
  | .obj fields => some fields
  | _ => none

def isNull : Json → Bool
  | .null => true
  | _ => false

def isTrue : Json → Bool
  | .bool true => true
  | _ => false

theorem get_set_self (fields : List (String × Json)) (key : String) (x : Json) :
    ((Json.obj fields).set key x).get key = x := by
  simp [get, set]

theorem lookup_filter_ne (fields : List (String × Json)) {key other : String} (h : other ≠ key) :
    (fields.filter (fun f => f.1 != key)).lookup other = fields.lookup other := by
  induction fields with
  | nil => rfl
  | cons f fields ih =>
      obtain ⟨k, v⟩ := f
      by_cases hk : k = key
      · subst hk
        simpa [List.lookup_cons, beq_false_of_ne h] using ih
      · by_cases ho : other = k
        · subst ho; simp [hk]
        · simp [List.lookup_cons, hk, beq_false_of_ne ho, ih]

theorem get_set_ne (fields : List (String × Json)) {key other : String} (x : Json)
    (h : other ≠ key) : ((Json.obj fields).set key x).get other = (Json.obj fields).get other := by
  simp [get, set, List.lookup_cons, beq_false_of_ne h, lookup_filter_ne fields h]

mutual

/-- No object of the value has a key twice. -/
def keyed : Json → Bool
  | .arr items => keyedItems items
  | .obj fields => decide (fields.map Prod.fst).Nodup && keyedFields fields
  | _ => true

def keyedItems : List Json → Bool
  | [] => true
  | v :: items => keyed v && keyedItems items

def keyedFields : List (String × Json) → Bool
  | [] => true
  | (_, v) :: fields => keyed v && keyedFields fields

end

theorem keyed_of_mem {fields : List (String × Json)} (h : keyedFields fields = true) {key : String}
    {w : Json} (hw : (key, w) ∈ fields) : w.keyed = true := by
  induction fields with
  | nil => cases hw
  | cons f fields ih =>
      obtain ⟨key', v⟩ := f
      rw [keyedFields, Bool.and_eq_true] at h
      obtain heq | hw := List.mem_cons.mp hw
      · cases heq
        exact h.1
      · exact ih h.2 hw

theorem keyed_find {v w : Json} {key : String} (h : v.keyed = true) (hfind : v.find key = some w) :
    w.keyed = true := by
  cases v with
  | obj fields =>
      rw [keyed, Bool.and_eq_true] at h
      obtain ⟨before, after, rfl, -⟩ := List.lookup_eq_some_iff.mp hfind
      exact keyed_of_mem h.2 (List.mem_append_right _ List.mem_cons_self)
  | _ => cases hfind

theorem nodup_of_keyed {fields : List (String × Json)} (h : (Json.obj fields).keyed = true) :
    (fields.map Prod.fst).Nodup := by
  rw [keyed, Bool.and_eq_true, decide_eq_true_eq] at h
  exact h.1

theorem lookup_of_mem {κ α : Type} [BEq κ] [LawfulBEq κ] {fields : List (κ × α)} {key : κ} {x : α}
    (h : (fields.map Prod.fst).Nodup) (hx : (key, x) ∈ fields) : fields.lookup key = some x := by
  induction fields with
  | nil => cases hx
  | cons f fields ih =>
      obtain ⟨key', y⟩ := f
      rw [List.map_cons, List.nodup_cons] at h
      rw [List.lookup_cons]
      obtain heq | hx := List.mem_cons.mp hx
      · cases heq
        rw [beq_self_eq_true]
      · have hne : key ≠ key' := fun heq => h.1 (List.mem_map.mpr ⟨_, hx, heq⟩)
        rw [beq_false_of_ne hne]
        exact ih h.2 hx

theorem find_of_get {v : Json} {key : String} {w : Json} (h : v.get key = w) (hw : w ≠ .null) :
    v.find key = some w := by
  cases v with
  | obj fields =>
      cases hlookup : fields.lookup key with
      | none => simp [get, hlookup, hw.symm] at h
      | some x => simpa [get, find, hlookup] using h
  | _ => exact absurd h.symm hw

theorem keyed_get {v : Json} {key : String} {fields : List (String × Json)} (h : v.keyed = true)
    (hget : v.get key = .obj fields) : (Json.obj fields).keyed = true :=
  keyed_find h (find_of_get hget (by simp))

end Json

end Pishoo
