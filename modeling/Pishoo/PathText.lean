import Mathlib.Data.List.DropRight
import Mathlib.Data.List.Basic

namespace Pishoo.PathText

abbrev Text := List Char

def chars (s : String) : Text := s.toList

/-- `strip_prefix`. -/
def strip (start text : Text) : Option Text := text.dropPrefix? start

def starts (start text : Text) : Bool := (strip start text).isSome

/-- The part before the first slash, or everything. -/
def segment (text : Text) : Text := text.takeWhile (· != '/')

/-- What comes after the segment, with its slash. -/
def afterSegment (text : Text) : Text := text.dropWhile (· != '/')

/-- `trim_start_matches('/')`. -/
def trimStart (text : Text) : Text := text.dropWhile (· == '/')

/-- `char::is_control`. -/
def control (c : Char) : Bool := decide (c.toNat < 0x20 ∨ 0x7F ≤ c.toNat ∧ c.toNat < 0xA0)

/-- `mount` itself, or a path below it. -/
def Below (mount text : Text) : Prop := text = mount ∨ ∃ rest, text = mount ++ '/' :: rest

/-- `routes::reserved`. -/
def reserved (text : Text) : Bool := text == chars "/std" || starts (chars "/std/") text

def below (mount text : Text) : Bool :=
  text == mount || (strip mount text).any fun rest => rest.head? == some '/'

variable {start text rest name mount : Text}

theorem strip_eq_some : strip start text = some rest ↔ text = start ++ rest := by
  rw [strip, List.dropPrefix?_eq_some_iff]
  constructor
  · rintro ⟨start', rfl, hstart⟩
    rw [eq_of_beq hstart]
  · rintro rfl
    exact ⟨start, rfl, beq_self_eq_true start⟩

@[simp] theorem strip_append : strip start (start ++ rest) = some rest :=
  strip_eq_some.mpr rfl

theorem strip_eq_none : strip start text = none ↔ ∀ rest, text ≠ start ++ rest := by
  rw [Option.eq_none_iff_forall_not_mem]
  simp only [Option.mem_def, strip_eq_some]

theorem segment_append_after (text : Text) : segment text ++ afterSegment text = text :=
  List.takeWhile_append_dropWhile

theorem strip_segment (text : Text) : strip (segment text) text = some (afterSegment text) :=
  strip_eq_some.mpr (segment_append_after text).symm

theorem slash_not_mem_segment (text : Text) : '/' ∉ segment text := fun h => by
  simpa using List.mem_takeWhile_imp h

theorem afterSegment_cases (text : Text) :
    afterSegment text = [] ∨ ∃ rest, afterSegment text = '/' :: rest := by
  cases h : afterSegment text with
  | nil => exact .inl rfl
  | cons c rest =>
      have hc := List.head?_dropWhile_not (· != '/') text
      rw [show text.dropWhile (· != '/') = c :: rest from h] at hc
      obtain rfl : c = '/' := by simpa using hc
      exact .inr ⟨rest, rfl⟩

theorem below_segment (text : Text) : Below (segment text) text := by
  obtain h | ⟨rest, h⟩ := afterSegment_cases text
  · exact .inl (by simpa [h] using (segment_append_after text).symm)
  · exact .inr ⟨rest, by rw [← h, segment_append_after]⟩

theorem segment_eq (hname : '/' ∉ name) (h : Below name text) : segment text = name := by
  have hall : ∀ c ∈ name, (c != '/') = true := fun c hc => by
    simpa using fun he : c = '/' => hname (he ▸ hc)
  obtain rfl | ⟨rest, rfl⟩ := h
  · exact List.takeWhile_eq_self_iff.mpr hall
  · rw [segment, List.takeWhile_append_of_pos hall]
    simp

theorem segment_eq_iff (hname : '/' ∉ name) : segment text = name ↔ Below name text :=
  ⟨fun h => h ▸ below_segment text, segment_eq hname⟩

theorem afterSegment_append (hname : '/' ∉ name) (h : Below name (name ++ rest)) :
    afterSegment (name ++ rest) = rest := by
  have hsegment := segment_append_after (name ++ rest)
  rw [segment_eq hname h] at hsegment
  exact List.append_cancel_left hsegment

theorem below_iff : below mount text = true ↔ Below mount text := by
  simp only [below, Bool.or_eq_true, beq_iff_eq, Option.any_eq_true, strip_eq_some,
    List.head?_eq_some_iff]
  constructor
  · rintro (h | ⟨_, h, rest, rfl⟩)
    · exact .inl h
    · exact .inr ⟨rest, h⟩
  · rintro (h | ⟨rest, h⟩)
    · exact .inl h
    · exact .inr ⟨_, h, rest, rfl⟩

theorem below_cons {c : Char} : Below (c :: mount) (c :: text) ↔ Below mount text := by
  simp [Below]

end Pishoo.PathText
