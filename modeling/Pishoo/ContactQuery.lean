import Mathlib.Algebra.GroupWithZero.Nat
import Mathlib.Data.List.DropRight
import Pishoo.Outbound
import Pishoo.PathText
import Pishoo.Publication

namespace Pishoo.ContactQuery

open Outbound PathText Publication Result

def trim (text : Text) : Text := (text.dropWhile whitespace).rdropWhile whitespace

def ends (tail text : Text) : Bool := starts tail.reverse text.reverse

/-- `trim_end_matches` with a text, at most `n` times. -/
def trimEnd (tail : Text) : Nat → Text → Text
  | 0, text => text
  | n + 1, text => match strip tail.reverse text.reverse with
    | some rest => trimEnd tail n rest.reverse
    | none => text

def label (part : Text) : Bool :=
  !part.isEmpty && decide (part.length ≤ 63) && part.head? != some '-' && part.getLast? != some '-' &&
    part.all fun c => c.isLower || c.isDigit || c == '-'

def expanded (raw : Text) : Text :=
  if ends ['~'] raw then
    ((raw.rdropWhile (· == '~')).rdropWhile (· == '.')) ++ chars ".dhttp.net"
  else if ends (chars ".dhttp.net") raw then raw
  else raw ++ chars ".dhttp.net"

def name (raw : String) : Except Failure String := do
  let expanded := expanded ((trim (chars raw)).map Char.toLower)
  failIf (253 < (expanded.map Char.utf8Size).sum ∨
      (trimEnd (chars ".dhttp.net") expanded.length expanded).isEmpty = true ∨
      (expanded.splitOn '.').all label = false)
    (fail 400 "invalid identity name")
  .ok (String.ofList expanded)

/-- The pairs of a query, as `form_urlencoded::parse` gives them. -/
abbrev Query := List (String × String)

def parameter (query : Query) (key : String) : Except Failure (Option String) :=
  match query.filter (fun pair => pair.1 == key) with
  | [] => .ok none
  | [pair] => .ok (some pair.2)
  | _ => .error (fail 400 "duplicate parameter")

def digits (text : Text) : Option Int :=
  if text.isEmpty || !text.all Char.isDigit then none
  else some ((Nat.ofDigitChars 10 text 0 : Nat) : Int)

/-- `str::parse::<i64>`. -/
def parseI64 (text : Text) : Option Int :=
  let value := match text with
    | '-' :: rest => (digits rest).map fun n => -n
    | '+' :: rest => digits rest
    | text => digits text
  value.filter fun n => decide (-2 ^ 63 ≤ n ∧ n < 2 ^ 63)

def integer (query : Query) (key : String) (default : Int) : Except Failure Int := do
  match ← parameter query key with
  | none => .ok default
  | some text => match parseI64 (chars text) with
    | some n => .ok n
    | none => .error (fail 400 "invalid number")

def page (query : Query) : Except Failure (Int × Int) := do
  let p ← integer query "page" 1
  let size ← integer query "page_size" 20
  failIf (p < 1 ∨ ¬(1 ≤ size ∧ size ≤ 100)) (fail 400 "invalid pagination")
  .ok (p, size)

theorem parseI64_repr {n : Nat} (h : n < 2 ^ 63) : parseI64 (chars n.repr) = some (n : Int) := by
  have hdigit (c : Char) (hc : c ∈ Nat.toDigits 10 n) : c.isDigit = true :=
    Nat.isDigit_of_mem_toDigits (by decide) (by decide) hc
  have hchars : chars n.repr = Nat.toDigits 10 n := Nat.toList_repr
  have hdigits : digits (chars n.repr) = some (n : Int) := by
    rw [hchars, digits, List.all_eq_true.mpr hdigit, List.isEmpty_eq_false_iff.mpr Nat.toDigits_ne_nil,
      Nat.ofDigitChars_ten_toDigits]
    rfl
  have hplain : parseI64 (chars n.repr) =
      (digits (chars n.repr)).filter fun n => decide (-2 ^ 63 ≤ n ∧ n < 2 ^ 63) := by
    unfold parseI64
    split
    · rename_i rest hsign
      have hc := hdigit '-' (hchars ▸ hsign ▸ List.mem_cons_self)
      cases hc
    · rename_i rest hsign
      have hc := hdigit '+' (hchars ▸ hsign ▸ List.mem_cons_self)
      cases hc
    · rfl
  rw [hplain, hdigits, Option.filter_some, if_pos]
  rw [decide_eq_true_eq]
  omega

theorem mem_intercalate {α : Type} {x c : α} {parts : List (List α)} (h : c ∈ [x].intercalate parts) :
    c = x ∨ ∃ part ∈ parts, c ∈ part := by
  induction parts with
  | nil => simp at h
  | cons part parts ih =>
      cases parts with
      | nil => exact .inr ⟨part, List.mem_cons_self, by simpa using h⟩
      | cons next parts =>
          rw [List.intercalate_cons_cons, List.mem_append, List.mem_append, List.mem_singleton] at h
          obtain (h | h) | h := h
          · exact .inr ⟨part, List.mem_cons_self, h⟩
          · exact .inl h
          · obtain h | ⟨other, hother, h⟩ := ih h
            · exact .inl h
            · exact .inr ⟨other, List.mem_cons_of_mem _ hother, h⟩

/-- The characters of a name are those of its labels, and dots. -/
theorem nameChar {text : Text} (h : (text.splitOn '.').all label = true) {c : Char} (hc : c ∈ text) :
    c.isLower = true ∨ c.isDigit = true ∨ c = '-' ∨ c = '.' := by
  have hsplit : c ∈ ['.'].intercalate (text.splitOn '.') := by rwa [List.intercalate_splitOn]
  obtain rfl | ⟨part, hpart, hc⟩ := mem_intercalate hsplit
  · exact .inr (.inr (.inr rfl))
  · have hlabel := List.all_eq_true.mp h part hpart
    simp only [label, Bool.and_eq_true] at hlabel
    have hall := List.all_eq_true.mp hlabel.2 c hc
    simp only [Bool.or_eq_true, beq_iff_eq] at hall
    obtain (h | h) | h := hall
    · exact .inl h
    · exact .inr (.inl h)
    · exact .inr (.inr (.inl h))

theorem nameChar_code {c : Char} (h : c.isLower = true ∨ c.isDigit = true ∨ c = '-' ∨ c = '.') :
    97 ≤ c.toNat ∧ c.toNat ≤ 122 ∨ 48 ≤ c.toNat ∧ c.toNat ≤ 57 ∨ c.toNat = 45 ∨ c.toNat = 46 := by
  obtain h | h | rfl | rfl := h
  · change (decide (c.val ≥ 'a'.val) && decide (c.val ≤ 'z'.val)) = true at h
    simp only [ge_iff_le, UInt32.le_iff_toNat_le, Bool.and_eq_true, decide_eq_true_eq] at h
    exact .inl h
  · simp only [Char.isDigit, UInt32.le_iff_toNat_le, Bool.and_eq_true, decide_eq_true_eq] at h
    exact .inr (.inl h)
  · exact .inr (.inr (.inl rfl))
  · exact .inr (.inr (.inr rfl))

theorem whitespace_nameChar {c : Char} (h : c.isLower = true ∨ c.isDigit = true ∨ c = '-' ∨ c = '.') :
    whitespace c = false := by
  have hcode := nameChar_code h
  simp only [whitespace, Bool.or_eq_false_iff, decide_eq_false_iff_not, beq_eq_false_iff_ne]
  omega

theorem toLower_nameChar {c : Char} (h : c.isLower = true ∨ c.isDigit = true ∨ c = '-' ∨ c = '.') :
    c.toLower = c := by
  have hcode := nameChar_code h
  have hnot : ¬(c.val ≥ 'A'.val ∧ c.val ≤ 'Z'.val) := by
    rintro ⟨hlow, hhigh⟩
    have hlow : 65 ≤ c.toNat := UInt32.le_iff_toNat_le.mp hlow
    have hhigh : c.toNat ≤ 90 := UInt32.le_iff_toNat_le.mp hhigh
    omega
  exact dif_neg hnot

theorem trim_of_plain {text : Text} (h : ∀ c ∈ text, whitespace c = false) : trim text = text := by
  have hdrop : text.dropWhile whitespace = text := by
    cases text with
    | nil => rfl
    | cons c text => rw [List.dropWhile_cons, h c List.mem_cons_self, if_neg Bool.false_ne_true]
  rw [trim, hdrop, List.rdropWhile_eq_self_iff]
  intro hne
  rw [h _ (List.getLast_mem hne)]
  exact Bool.false_ne_true

theorem expanded_ends (raw : Text) : ∃ rest, expanded raw = rest ++ chars ".dhttp.net" := by
  unfold expanded
  split
  · exact ⟨_, rfl⟩
  · split
    · rename_i hends
      obtain ⟨rest, hrest⟩ := Option.isSome_iff_exists.mp hends
      refine ⟨rest.reverse, ?_⟩
      rw [← List.reverse_reverse raw, strip_eq_some.mp hrest, List.reverse_append, List.reverse_reverse]
    · exact ⟨_, rfl⟩

theorem expanded_of_ends (rest : Text) :
    expanded (rest ++ chars ".dhttp.net") = rest ++ chars ".dhttp.net" := by
  have hends : ends (chars ".dhttp.net") (rest ++ chars ".dhttp.net") = true := by
    simp [ends, starts]
  have hplain : ends ['~'] (rest ++ chars ".dhttp.net") = false := by
    rw [ends, List.reverse_append]
    rfl
  rw [expanded, hplain, hends]
  rfl

/-- A name that has been read is read as it is. -/
theorem name_idem {raw target : String} (h : name raw = .ok target) : name target = .ok target := by
  obtain ⟨_, hpass, h⟩ := bind_eq_ok.mp h
  cases h
  obtain ⟨rest, hrest⟩ := expanded_ends ((trim (chars raw)).map Char.toLower)
  generalize expanded ((trim (chars raw)).map Char.toLower) = text at hpass hrest ⊢
  have hlabels : (text.splitOn '.').all label = true := by
    by_contra hbad
    exact failIf_eq_ok.mp hpass (.inr (.inr (Bool.eq_false_of_not_eq_true hbad)))
  have htrim : trim text = text := trim_of_plain fun c hc => whitespace_nameChar (nameChar hlabels hc)
  have hlower : text.map Char.toLower = text :=
    (List.map_congr_left fun c hc => toLower_nameChar (nameChar hlabels hc)).trans (List.map_id _)
  have hexpanded : expanded text = text := by rw [hrest, expanded_of_ends]
  have hchars : chars (String.ofList text) = text := String.toList_ofList
  rw [name, hchars, htrim, hlower, hexpanded, hpass]
  rfl

end Pishoo.ContactQuery
