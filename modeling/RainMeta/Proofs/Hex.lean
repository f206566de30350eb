import Mathlib.Data.List.Basic
import RainMeta.Hex

/-!
# Digits and the bytes they spell

A byte has one spelling in small digits, `RainMeta.Hex.encode`, and others that differ from it only
by the case of letters. So digits spell bytes exactly if they are the encoding of these once their
letters are small, and this is what `RainMeta.Hex.decode` accepts behind an optional mark
(`RainMeta.Hex.decode_eq_ok_iff`). Put with the marks that there are, the texts that are decoded to
given bytes are known one by one (`RainMeta.Hex.Spells`, `RainMeta.Hex.decode_eq_ok_iff_spells`).
They hold nothing but digits and the letter of the mark, so there is no blank and no line end in
them (`RainMeta.Hex.Spells.isDigitOrMark`).
-/

namespace RainMeta

/-! ### Digits -/

namespace CodePoint

/-- The digits are of three sorts, and each sort has its values. -/
theorem hexValue_cases {c : CodePoint} (h : c.isHexDigit = true) :
    (48 ≤ c.val ∧ c.val ≤ 57 ∧ c.hexValue = c.val - 48) ∨
      (97 ≤ c.val ∧ c.val ≤ 102 ∧ c.hexValue = c.val - 87) ∨
      (65 ≤ c.val ∧ c.val ≤ 70 ∧ c.hexValue = c.val - 55) := by
  simp only [isHexDigit, isIn, Bool.or_eq_true, Bool.and_eq_true, decide_eq_true_eq,
    Char.reduceToNat] at h
  simp only [hexValue, isIn, Bool.and_eq_true, decide_eq_true_eq, Char.reduceToNat]
  rcases h with (h | h) | h
  · exact .inl ⟨h.1, h.2, if_pos h⟩
  · exact .inr (.inl ⟨h.1, h.2, by rw [if_neg (by omega), if_pos h]⟩)
  · exact .inr (.inr ⟨h.1, h.2, by rw [if_neg (by omega), if_neg (by omega), if_pos h]⟩)

theorem hexValue_lt {c : CodePoint} (h : c.isHexDigit = true) : c.hexValue < 16 := by
  rcases hexValue_cases h with h | h | h <;> omega

/-- The case of a letter does not matter to whether it is a digit. -/
@[simp]
theorem isHexDigit_toLower (c : CodePoint) : c.toLower.isHexDigit = c.isHexDigit := by
  rw [toLower]
  split
  next h =>
    simp only [isIn, Bool.and_eq_true, decide_eq_true_eq] at h
    have hA : 65 ≤ c.val := h.1
    have hZ : c.val ≤ 90 := h.2
    have hval : (ofNat (c.val + 32)).val = c.val + 32 := val_ofNat (by omega)
    rw [Bool.eq_iff_iff]
    simp only [isHexDigit, isIn, hval, Bool.or_eq_true, Bool.and_eq_true, decide_eq_true_eq,
      Char.reduceToNat]
    omega
  next => rfl

end CodePoint

namespace Hex

open CodePoint

theorem digit_facts : ∀ n ∈ List.range 16,
    (digit n).isHexDigit = true ∧ (digit n).hexValue = n := by
  decide

theorem isHexDigit_digit {n : Nat} (h : n < 16) : (digit n).isHexDigit = true :=
  (digit_facts n (List.mem_range.mpr h)).1

theorem hexValue_digit {n : Nat} (h : n < 16) : (digit n).hexValue = n :=
  (digit_facts n (List.mem_range.mpr h)).2

/-- **A digit written as its value** is that digit with a small letter. -/
theorem digit_hexValue {c : CodePoint} (h : c.isHexDigit = true) :
    digit c.hexValue = c.toLower := by
  have hcapital : c.isIn 'A' 'Z' = true ↔ 65 ≤ c.val ∧ c.val ≤ 90 := by
    simp only [isIn, Bool.and_eq_true, decide_eq_true_eq, Char.reduceToNat]
  rw [toLower, digit]
  rcases hexValue_cases h with ⟨hlo, hhi, hvalue⟩ | ⟨hlo, hhi, hvalue⟩ | ⟨hlo, hhi, hvalue⟩
  · rw [if_pos (by omega), if_neg (mt hcapital.mp (by omega)), hvalue,
      Nat.add_sub_cancel' hlo, ofNat_val]
  · rw [if_neg (by omega), if_neg (mt hcapital.mp (by omega)), hvalue,
      Nat.add_sub_cancel' (by omega), ofNat_val]
  · rw [if_neg (by omega), if_pos (hcapital.mpr (by omega)), hvalue,
      show 87 + (c.val - 55) = c.val + 32 by omega]

/-! ### Pairs of digits -/

@[simp]
theorem length_digitsOf (b : UInt8) : (digitsOf b).length = 2 := rfl

theorem digitsOf_injective {b b' : UInt8} (h : digitsOf b = digitsOf b') : b = b' := by
  have hb := b.toNat_lt
  have hb' := b'.toNat_lt
  simp only [digitsOf, List.cons.injEq, and_true] at h
  have hhigh := congrArg hexValue h.1
  have hlow := congrArg hexValue h.2
  rw [hexValue_digit (by omega), hexValue_digit (by omega)] at hhigh hlow
  exact UInt8.toNat_inj.mp (by omega)

theorem isHexDigit_of_mem_digitsOf {b : UInt8} {c : CodePoint} (h : c ∈ digitsOf b) :
    c.isHexDigit = true := by
  have hb := b.toNat_lt
  rcases List.mem_cons.mp h with rfl | h
  · exact isHexDigit_digit (by omega)
  · rw [List.mem_singleton.mp h]
    exact isHexDigit_digit (by omega)

theorem encode_false (b : Bytes) : encode b false = b.flatMap digitsOf := rfl

theorem encode_false_cons (x : UInt8) (b : Bytes) :
    encode (x :: b) false = digitsOf x ++ encode b false := by
  rw [encode_false, encode_false, List.flatMap_cons]

theorem length_encode_false (b : Bytes) : (encode b false).length = 2 * b.length := by
  induction b with
  | nil => rfl
  | cons x b ih =>
    rw [encode_false_cons, List.length_append, ih, length_digitsOf, List.length_cons]
    omega

theorem isHexDigit_of_mem_encode {b : Bytes} {c : CodePoint} (h : c ∈ encode b false) :
    c.isHexDigit = true := by
  rw [encode_false, List.mem_flatMap] at h
  obtain ⟨x, -, hx⟩ := h
  exact isHexDigit_of_mem_digitsOf hx

/-- **Different bytes have different digits.** -/
theorem encode_injective {b b' : Bytes} (h : encode b false = encode b' false) : b = b' := by
  induction b generalizing b' with
  | nil =>
    have hlength := congrArg List.length h
    rw [length_encode_false, length_encode_false, List.length_nil] at hlength
    exact (List.length_eq_zero_iff.mp (by omega)).symm
  | cons x b ih =>
    cases b' with
    | nil => simp [encode_false, digitsOf] at h
    | cons y b' =>
      rw [encode_false_cons, encode_false_cons] at h
      obtain ⟨hxy, hrest⟩ := List.append_inj h rfl
      rw [digitsOf_injective hxy, ih hrest]

/-- **Pairs of digits, read and written again**, are the digits with small letters. -/
theorem toLower_eq_encode_ofPairs {t : Text} (heven : t.length % 2 = 0)
    (hdigits : ∀ c ∈ t, c.isHexDigit = true) (out : Bytes) :
    ∃ b, ofPairs out t = out.reverse ++ b ∧ t.toLower = encode b false := by
  induction out, t using ofPairs.induct with
  | case1 out c d rest ih =>
    rw [List.forall_mem_cons, List.forall_mem_cons] at hdigits
    obtain ⟨hc, hd, hrest⟩ := hdigits
    rw [List.length_cons, List.length_cons] at heven
    obtain ⟨b, hpairs, hlower⟩ := ih (by omega) hrest
    refine ⟨(c.hexValue * 16 + d.hexValue).toUInt8 :: b, ?_, ?_⟩
    · rw [ofPairs, hpairs, List.reverse_cons, List.append_assoc, List.singleton_append]
    have hc16 := hexValue_lt hc
    have hd16 := hexValue_lt hd
    have hbyte : (c.hexValue * 16 + d.hexValue).toUInt8.toNat = c.hexValue * 16 + d.hexValue :=
      (UInt8.toNat_ofNat' (n := _)).trans (Nat.mod_eq_of_lt (by omega))
    have hhigh : (c.hexValue * 16 + d.hexValue) / 16 = c.hexValue := by omega
    have hlow : (c.hexValue * 16 + d.hexValue) % 16 = d.hexValue := by omega
    rw [encode_false_cons, ← hlower, digitsOf, hbyte, hhigh, hlow, digit_hexValue hc,
      digit_hexValue hd]
    rfl
  | case2 out t hshort =>
    match t, hshort, heven with
    | [], _, _ => exact ⟨[], by simp [ofPairs], rfl⟩
    | [c], _, heven => simp at heven
    | c :: d :: rest, hshort, _ => exact absurd rfl (hshort c d rest)

/-! ### What is decoded -/

theorem isHexDigit_of_toLower {digits : Text} {b : Bytes} (h : digits.toLower = encode b false) :
    ∀ c ∈ digits, c.isHexDigit = true := by
  intro c hc
  have hmem : c.toLower ∈ digits.toLower := List.mem_map_of_mem hc
  rw [h] at hmem
  rw [← isHexDigit_toLower]
  exact isHexDigit_of_mem_encode hmem

/-- **A text is decoded to bytes** exactly if its digits are those of the bytes, in any case. -/
theorem decode_eq_ok_iff {t : Text} {b : Bytes} :
    decode t = .ok b ↔ (body t).toLower = encode b false := by
  have hfind : (body t).find? (fun c => !c.isHexDigit) = none ↔
      ∀ c ∈ body t, c.isHexDigit = true := by simp
  constructor
  · intro h
    unfold decode at h
    dsimp only at h
    split at h
    case isTrue => cases h
    case isFalse heven =>
    split at h
    case h_1 => cases h
    case h_2 hnone =>
    obtain ⟨b', hpairs, hlower⟩ := toLower_eq_encode_ofPairs (by omega) (hfind.mp hnone) []
    rw [hpairs] at h
    cases h
    exact hlower
  · intro h
    have hdigits := isHexDigit_of_toLower h
    have hlength : (body t).length = 2 * b.length := by
      rw [← length_encode_false, ← h, Text.toLower, List.length_map]
    obtain ⟨b', hpairs, hlower⟩ := toLower_eq_encode_ofPairs (by omega) hdigits []
    obtain rfl : b' = b := encode_injective (hlower.symm.trans h)
    simp only [decode, hfind.mpr hdigits, hpairs]
    rw [if_neg (by omega)]
    rfl

/-! ### Marks -/

/-- **What may stand in front of digits**: nothing, or a zero and the letter x in either case. -/
def IsMark (mark : Text) : Prop :=
  mark = [] ∨ mark = "0x" ∨ mark = "0X"

/-- **A text spells bytes** if it has their digits, in any case, behind a mark. -/
def Spells (h : Text) (b : Bytes) : Prop :=
  ∃ mark digits, IsMark mark ∧ h = mark ++ digits ∧ digits.toLower = encode b false

/-- A text is its mark and its body. -/
theorem exists_mark (t : Text) : ∃ mark, IsMark mark ∧ t = mark ++ body t := by
  unfold body
  split
  case h_2 => exact ⟨[], .inl rfl, rfl⟩
  next c d rest =>
  split
  case isFalse => exact ⟨[], .inl rfl, rfl⟩
  next hmark =>
  simp only [Bool.and_eq_true, Bool.or_eq_true, decide_eq_true_eq] at hmark
  obtain ⟨hc, hd | hd⟩ := hmark
  · obtain rfl : c = .ofChar '0' := by cases c; cases hc; rfl
    obtain rfl : d = .ofChar 'x' := by cases d; cases hd; rfl
    exact ⟨"0x", .inr (.inl rfl), rfl⟩
  · obtain rfl : c = .ofChar '0' := by cases c; cases hc; rfl
    obtain rfl : d = .ofChar 'X' := by cases d; cases hd; rfl
    exact ⟨"0X", .inr (.inr rfl), rfl⟩

/-- Digits have no mark of their own, as the letter of a mark is none. -/
theorem body_of_isHexDigit {t : Text} (h : ∀ c ∈ t, c.isHexDigit = true) : body t = t := by
  unfold body
  split
  case h_2 => rfl
  next c d rest =>
  rw [if_neg]
  simp only [Bool.and_eq_true, Bool.or_eq_true, decide_eq_true_eq]
  rintro ⟨-, hd⟩
  have hdigit := hexValue_cases (h d (by simp))
  omega

theorem body_append {mark digits : Text} (hmark : IsMark mark)
    (h : ∀ c ∈ digits, c.isHexDigit = true) : body (mark ++ digits) = digits := by
  rcases hmark with rfl | rfl | rfl
  · exact body_of_isHexDigit h
  · rfl
  · rfl

/-- **What is decoded is what is spelled.** -/
theorem decode_eq_ok_iff_spells {t : Text} {b : Bytes} : decode t = .ok b ↔ Spells t b := by
  rw [decode_eq_ok_iff]
  constructor
  · intro h
    obtain ⟨mark, hmark, ht⟩ := exists_mark t
    exact ⟨mark, body t, hmark, ht, h⟩
  · rintro ⟨mark, digits, hmark, rfl, h⟩
    rw [body_append hmark (isHexDigit_of_toLower h)]
    exact h

/-- **A spelling holds nothing but digits and the letter of a mark.** -/
theorem Spells.isDigitOrMark {h : Text} {b : Bytes} (hh : Spells h b) {c : CodePoint}
    (hc : c ∈ h) : c.isHexDigit = true ∨ c.val = 120 ∨ c.val = 88 := by
  obtain ⟨mark, digits, hmark, rfl, hdigits⟩ := hh
  rcases List.mem_append.mp hc with hc | hc
  · have hzero : ∀ c ∈ mark, c.isHexDigit = true ∨ c.val = 120 ∨ c.val = 88 := by
      rcases hmark with rfl | rfl | rfl <;> decide
    exact hzero c hc
  · exact .inl (isHexDigit_of_toLower hdigits c hc)

end Hex

end RainMeta
