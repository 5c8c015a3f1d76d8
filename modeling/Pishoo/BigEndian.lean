import Mathlib.Data.Nat.Digits.Lemmas

namespace Pishoo.BigEndian

/-- The order of two byte strings, which compares the first bytes that differ. -/
def less : List UInt8 → List UInt8 → Bool
  | _, [] => false
  | [], _ :: _ => true
  | a :: as, b :: bs => decide (a.toNat < b.toNat) || (a == b && less as bs)

/-- The number that the bytes stand for. -/
def value : List UInt8 → Nat
  | [] => 0
  | b :: bs => b.toNat * 256 ^ bs.length + value bs

/-- The bytes of a number without leading zeros; zero has one byte. -/
def bytes (n : Nat) : List UInt8 :=
  if n = 0 then [0] else (Nat.digits 256 n).reverse.map UInt8.ofNat

/-- The bytes after their number. -/
def prefixed (n : Nat) : List UInt8 := UInt8.ofNat (bytes n).length :: bytes n

theorem value_lt (bs : List UInt8) : value bs < 256 ^ bs.length := by
  induction bs with
  | nil => simp [value]
  | cons b bs ih =>
      have hb := b.toNat_lt
      rw [value, List.length_cons, pow_succ]
      nlinarith

theorem less_iff {as bs : List UInt8} (h : as.length = bs.length) :
    less as bs = true ↔ value as < value bs := by
  induction as generalizing bs with
  | nil =>
      cases bs with
      | nil => simp [less, value]
      | cons b bs => cases h
  | cons a as ih =>
      cases bs with
      | nil => cases h
      | cons b bs =>
          have hlen : as.length = bs.length := Nat.succ_inj.mp h
          have ha := value_lt as
          have hb := value_lt bs
          rw [hlen] at ha
          simp only [less, value, hlen, Bool.or_eq_true, Bool.and_eq_true, decide_eq_true_eq,
            beq_iff_eq, ih hlen, ← UInt8.toNat_inj]
          generalize 256 ^ bs.length = k at ha hb
          constructor
          · rintro (hlt | ⟨heq, hlt⟩)
            · nlinarith
            · rw [heq]
              omega
          · intro hlt
            rcases Nat.lt_trichotomy a.toNat b.toNat with hab | hab | hab
            · exact .inl hab
            · rw [hab] at hlt
              exact .inr ⟨hab, by omega⟩
            · exfalso
              nlinarith

theorem value_append (bs : List UInt8) (b : UInt8) : value (bs ++ [b]) = 256 * value bs + b.toNat := by
  induction bs with
  | nil => simp [value]
  | cons c bs ih =>
      rw [List.cons_append, value, ih, value, List.length_append, List.length_singleton, pow_succ]
      ring

theorem value_digits {l : List Nat} (h : ∀ d ∈ l, d < 256) :
    value (l.reverse.map UInt8.ofNat) = Nat.ofDigits 256 l := by
  induction l with
  | nil => rfl
  | cons d l ih =>
      rw [List.forall_mem_cons] at h
      have hd : (UInt8.ofNat d).toNat = d := by
        rw [UInt8.toNat_ofNat']
        omega
      rw [List.reverse_cons, List.map_append, List.map_singleton, value_append, ih h.2, hd,
        Nat.ofDigits_cons, add_comm]

theorem value_bytes (n : Nat) : value (bytes n) = n := by
  unfold bytes
  split
  · rename_i h
    rw [h]
    rfl
  · rw [value_digits fun d hd => Nat.digits_lt_base (by omega) hd, Nat.ofDigits_digits]

theorem lt_of_length {n : Nat} : n < 256 ^ (bytes n).length := by
  have h := value_lt (bytes n)
  rwa [value_bytes] at h

theorem pow_le_of_length {n k : Nat} (h : (bytes n).length = k + 2) : 256 ^ (k + 1) ≤ n := by
  have hn : n ≠ 0 := by
    rintro rfl
    cases h
  rw [bytes, if_neg hn, List.length_map, List.length_reverse] at h
  have hle := Nat.base_pow_length_digits_le 256 n (by omega) hn
  rw [h, pow_succ] at hle
  omega

theorem length_pos (n : Nat) : 0 < (bytes n).length := by
  unfold bytes
  split
  · simp
  · rename_i h
    rw [List.length_map, List.length_reverse, List.length_pos_iff]
    exact Nat.digits_ne_nil_iff_ne_zero.mpr h

theorem lt_of_shorter {n m : Nat} (h : (bytes n).length < (bytes m).length) : n < m := by
  obtain ⟨k, hk⟩ : ∃ k, (bytes m).length = k + 2 :=
    ⟨(bytes m).length - 2, by have := length_pos n; omega⟩
  have hle : (bytes n).length ≤ k + 1 := by omega
  calc n < 256 ^ (bytes n).length := lt_of_length
    _ ≤ 256 ^ (k + 1) := Nat.pow_le_pow_right (by omega) hle
    _ ≤ m := pow_le_of_length hk

/-- With the length first, comparing bytes is comparing numbers. -/
theorem less_prefixed_iff {n m : Nat} (hn : (bytes n).length < 256) (hm : (bytes m).length < 256) :
    less (prefixed n) (prefixed m) = true ↔ n < m := by
  have hlen {k : Nat} (hk : k < 256) : (UInt8.ofNat k).toNat = k := by
    rw [UInt8.toNat_ofNat']
    omega
  simp only [prefixed, less, Bool.or_eq_true, Bool.and_eq_true, decide_eq_true_eq, beq_iff_eq,
    ← UInt8.toNat_inj, hlen hn, hlen hm]
  rcases Nat.lt_trichotomy (bytes n).length (bytes m).length with h | h | h
  · exact iff_of_true (.inl h) (lt_of_shorter h)
  · rw [less_iff h, value_bytes, value_bytes]
    omega
  · have hmn := lt_of_shorter h
    omega

theorem less_iff_lex (as bs : List UInt8) : less as bs = true ↔ as < bs := by
  induction as generalizing bs with
  | nil => cases bs <;> simp [less]
  | cons a as ih =>
      cases bs with
      | nil => simp [less]
      | cons b bs =>
          rw [List.cons_lt_cons_iff, ← ih bs, UInt8.lt_iff_toNat_lt]
          simp only [less, Bool.or_eq_true, Bool.and_eq_true, decide_eq_true_eq, beq_iff_eq]

/-- The numbers up to a length are those below a power. -/
theorem length_le_iff {n k : Nat} : (bytes n).length ≤ k + 1 ↔ n < 256 ^ (k + 1) := by
  constructor
  · intro h
    exact lt_of_length.trans_le (Nat.pow_le_pow_right (by omega) h)
  · intro h
    by_contra hlong
    obtain ⟨j, hj⟩ : ∃ j, (bytes n).length = j + 2 := ⟨(bytes n).length - 2, by omega⟩
    have hle : 256 ^ (k + 1) ≤ 256 ^ (j + 1) := Nat.pow_le_pow_right (by omega) (by omega)
    exact absurd h (Nat.not_lt.mpr (hle.trans (pow_le_of_length hj)))

theorem prefixed_le_iff {n m : Nat} (hn : (bytes n).length < 256) (hm : (bytes m).length < 256) :
    prefixed n ≤ prefixed m ↔ n ≤ m := by
  rw [← List.not_lt, ← less_iff_lex, less_prefixed_iff hm hn, Nat.not_lt]

theorem prefixed_inj {n m : Nat} : prefixed n = prefixed m ↔ n = m := by
  constructor
  · intro h
    have hbytes : bytes n = bytes m := (List.cons.inj h).2
    rw [← value_bytes n, hbytes, value_bytes]
  · exact congrArg prefixed

end Pishoo.BigEndian
