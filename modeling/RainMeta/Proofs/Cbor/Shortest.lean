import Mathlib.Tactic.Ring
import Mathlib.Tactic.SplitIfs
import RainMeta.Proofs.Cbor.RoundTrip

/-!
# Shortest heads

A head says the same number in up to five forms, and the reader of CBOR takes them all. A
canonical document uses the shortest one. Here the forms are described by what a reader makes of
them, without the writer: `RainMeta.Cbor.HeadForm` is a head for a number, whatever its width,
and `RainMeta.Cbor.ShortestHead` one that no other form for the number undercuts.

There is exactly one such head for every number of 64 bits, and it is the one that the writer
chooses (`RainMeta.Cbor.shortestHead_iff`). For that, digits have to be determined by the number
that they spell (`RainMeta.Cbor.bigEndian_ofBigEndian`): the width of the shortest form is then
all that is left open, and the bounds at which the writer changes the width are the ones at which
the narrower form runs out of numbers.
-/

namespace RainMeta

namespace Cbor

/-! ### Digits -/

theorem foldl_eq_ofBigEndian (b : Bytes) (acc : Nat) :
    b.foldl (fun n byte => n * 256 + byte.toNat) acc = acc * 256 ^ b.length + ofBigEndian b := by
  induction b generalizing acc with
  | nil => simp [ofBigEndian]
  | cons byte b ih =>
    rw [ofBigEndian, List.foldl_cons, List.foldl_cons, ih, ih, List.length_cons, Nat.pow_succ']
    ring

theorem ofBigEndian_cons (byte : UInt8) (b : Bytes) :
    ofBigEndian (byte :: b) = byte.toNat * 256 ^ b.length + ofBigEndian b := by
  rw [ofBigEndian, List.foldl_cons, foldl_eq_ofBigEndian, Nat.zero_mul, Nat.zero_add]

theorem ofBigEndian_lt (b : Bytes) : ofBigEndian b < 256 ^ b.length := by
  induction b with
  | nil => simp [ofBigEndian]
  | cons byte b ih =>
    have hb := byte.toNat_lt
    have hmul : (byte.toNat + 1) * 256 ^ b.length ≤ 256 * 256 ^ b.length :=
      Nat.mul_le_mul_right _ (by omega)
    rw [Nat.add_mul, Nat.one_mul] at hmul
    rw [ofBigEndian_cons, List.length_cons, Nat.pow_succ']
    omega

/-- Digits say only the part of a number that fits into them. -/
theorem bigEndian_add (width high low : Nat) :
    bigEndian width (high * 256 ^ width + low) = bigEndian width low := by
  induction width generalizing high with
  | zero => rfl
  | succ w ih =>
    have hpow : (2 : Nat) ^ (8 * w) = 256 ^ w := by rw [Nat.pow_mul]
    have hcarry : high * 256 ^ (w + 1) + low = (high * 256) * 256 ^ w + low := by
      rw [Nat.pow_succ']
      ring
    have hdigit : (high * 256 * 256 ^ w + low) / 256 ^ w = high * 256 + low / 256 ^ w := by
      rw [Nat.add_comm, Nat.add_mul_div_right _ _ (Nat.pow_pos (by omega)), Nat.add_comm]
    rw [bigEndian, bigEndian, hcarry, ih, Nat.shiftRight_eq_div_pow, Nat.shiftRight_eq_div_pow,
      hpow, hdigit, Nat.mul_add_mod_self_right]

/-- **Digits are determined by the number that they spell.** -/
theorem bigEndian_ofBigEndian (b : Bytes) : bigEndian b.length (ofBigEndian b) = b := by
  induction b with
  | nil => rfl
  | cons byte b ih =>
    have hpow : (2 : Nat) ^ (8 * b.length) = 256 ^ b.length := by rw [Nat.pow_mul]
    have hdigit : (byte.toNat * 256 ^ b.length + ofBigEndian b) / 256 ^ b.length = byte.toNat := by
      rw [Nat.add_comm, Nat.add_mul_div_right _ _ (Nat.pow_pos (by omega)),
        Nat.div_eq_of_lt (ofBigEndian_lt b), Nat.zero_add]
    rw [ofBigEndian_cons, List.length_cons, bigEndian, bigEndian_add, ih,
      Nat.shiftRight_eq_div_pow, hpow, hdigit, Nat.mod_eq_of_lt byte.toNat_lt]
    simp

/-! ### Heads -/

/-- The forms in which the number stands in digits: what the first byte says, and how many digits
there are. -/
def wideForms : List (Nat × Nat) :=
  [(24, 1), (25, 2), (26, 4), (27, 8)]

/-- **A head for a number**, in one of the five forms: the number stands in the first byte, or
in as many digits as the first byte says. -/
inductive HeadForm (major : Nat) : Nat → Bytes → Prop
  /-- The number stands in the first byte. -/
  | direct {n : Nat} (h : n < 24) : HeadForm major n [(major * 32 + n).toUInt8]
  /-- The number stands in digits. -/
  | wide {info : Nat} {digits : Bytes} (h : (info, digits.length) ∈ wideForms) :
      HeadForm major (ofBigEndian digits) ((major * 32 + info).toUInt8 :: digits)

/-- **The shortest head** for a number. -/
def ShortestHead (major n : Nat) (b : Bytes) : Prop :=
  HeadForm major n b ∧ ∀ b', HeadForm major n b' → b.length ≤ b'.length

theorem width_le_of_mem_wideForms {info width : Nat} (h : (info, width) ∈ wideForms) :
    width ≤ 8 := by
  simp only [wideForms, List.mem_cons, Prod.mk.injEq, List.not_mem_nil, or_false] at h
  omega

theorem HeadForm.lt {major n : Nat} {b : Bytes} (h : HeadForm major n b) : n < 2 ^ 64 := by
  cases h with
  | direct h => omega
  | @wide info digits h =>
    calc ofBigEndian digits < 256 ^ digits.length := ofBigEndian_lt digits
      _ ≤ 256 ^ 8 := Nat.pow_le_pow_right (by omega) (width_le_of_mem_wideForms h)
      _ = 2 ^ 64 := by norm_num

/-- How many digits the writer takes for a number. -/
def widthOf (n : Nat) : Nat :=
  if n < 24 then 0
  else if n < 0x100 then 1
  else if n < 0x10000 then 2
  else if n < 0x100000000 then 4
  else 8

theorem length_head (major n : Nat) : (head major n).length = widthOf n + 1 := by
  unfold head widthOf
  split_ifs <;> simp

/-- The writer's head is one for its number. -/
theorem headForm_head (major : Nat) {n : Nat} (h : n < 2 ^ 64) :
    HeadForm major n (head major n) := by
  have wide : ∀ info width, (info, width) ∈ wideForms → n < 256 ^ width →
      HeadForm major n ((major * 32 + info).toUInt8 :: bigEndian width n) := by
    intro info width hw hn
    have hform : HeadForm major (ofBigEndian (bigEndian width n))
        ((major * 32 + info).toUInt8 :: bigEndian width n) :=
      .wide (by rwa [length_bigEndian])
    rwa [ofBigEndian_bigEndian width hn] at hform
  unfold head
  split_ifs with h₀ h₁ h₂ h₄
  · exact .direct h₀
  · exact wide 24 1 (by decide) h₁
  · exact wide 25 2 (by decide) h₂
  · exact wide 26 4 (by decide) h₄
  · exact wide 27 8 (by decide) h

/-- A form that has room for the number, and no more digits than the writer takes, is the one
that the writer chooses. -/
theorem head_eq_of_width_le (major : Nat) {n info width : Nat} (h : (info, width) ∈ wideForms)
    (hn : n < 256 ^ width) (hw : width ≤ widthOf n) :
    head major n = (major * 32 + info).toUInt8 :: bigEndian width n := by
  simp only [wideForms, List.mem_cons, Prod.mk.injEq, List.not_mem_nil, or_false] at h
  unfold widthOf at hw
  unfold head
  rcases h with ⟨rfl, rfl⟩ | ⟨rfl, rfl⟩ | ⟨rfl, rfl⟩ | ⟨rfl, rfl⟩
  · rw [if_neg (by grind), if_pos (show n < 0x100 from hn)]
  · rw [if_neg (by grind), if_neg (by grind), if_pos (show n < 0x10000 from hn)]
  · rw [if_neg (by grind), if_neg (by grind), if_neg (by grind),
      if_pos (show n < 0x100000000 from hn)]
  · rw [if_neg (by grind), if_neg (by grind), if_neg (by grind), if_neg (by grind)]

/-- **A head that is as short as the writer's is the writer's.** -/
theorem HeadForm.eq_head {major n : Nat} {b : Bytes} (h : HeadForm major n b)
    (hl : b.length ≤ (head major n).length) : b = head major n := by
  cases h with
  | direct h => simp [head, h]
  | @wide info digits h =>
    rw [length_head, List.length_cons, Nat.add_le_add_iff_right] at hl
    rw [head_eq_of_width_le major h (ofBigEndian_lt digits) hl, bigEndian_ofBigEndian]

/-- The writer's head is as short as any. -/
theorem HeadForm.length_le {major n : Nat} {b : Bytes} (h : HeadForm major n b) :
    (head major n).length ≤ b.length := by
  rcases Nat.le_total (head major n).length b.length with hl | hl
  · exact hl
  · exact (congrArg List.length (h.eq_head hl)).ge

/-- **The shortest head is the writer's**, for every number of 64 bits, and there is none for
other numbers. -/
theorem shortestHead_iff {major n : Nat} {b : Bytes} :
    ShortestHead major n b ↔ n < 2 ^ 64 ∧ b = head major n := by
  constructor
  · rintro ⟨hform, hmin⟩
    exact ⟨hform.lt, hform.eq_head (hmin _ (headForm_head major hform.lt))⟩
  · rintro ⟨hn, rfl⟩
    exact ⟨headForm_head major hn, fun b' h' => h'.length_le⟩

end Cbor

end RainMeta
