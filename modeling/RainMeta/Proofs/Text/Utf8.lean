import RainMeta.Text.Utf8

/-!
# Reading back what UTF-8 wrote

A text without surrogates is the text that its bytes spell.

## The two halves

* **What can be written** (`RainMeta.Utf8.encode_eq_ok_iff`): exactly the texts without
  surrogates whose bytes fit into a byte string, and the bytes are those of the code points
  one after another.
* **What is read** (`RainMeta.Utf8.decode_flatMap_encodeOne`): the reader passes over the
  bytes of one code point in one go (`RainMeta.Utf8.decodeFrom_encodeOne`), whatever follows,
  so the text comes back code point by code point.

The bytes of a code point are written as numbers below `256`, and the reader compares bytes;
`RainMeta.Utf8.Pending.next_toUInt8` and the lemmas `RainMeta.Utf8.first_of_…` translate
between the two, one form of UTF-8 each.
-/

namespace RainMeta

namespace Utf8

/-! ### What can be written -/

theorem refused?_eq_none_iff (refuse : CodePoint → Bool) (pos : Nat) (t : Text) :
    refused? refuse pos t = none ↔ ∀ c ∈ t, refuse c = false := by
  induction t generalizing pos with
  | nil => simp [refused?]
  | cons c t ih =>
    by_cases h : refuse c = true
    · simp [refused?, h]
    · simp [refused?, h, ih]

/-- **A text can be written** exactly when no surrogate stands in it and its bytes are not too
many. -/
theorem encode_eq_ok_iff {t : Text} {b : Bytes} :
    encode t = .ok b ↔
      (∀ c ∈ t, c.isSurrogate = false) ∧ b = t.flatMap encodeOne ∧ b.length ≤ Bytes.longest := by
  unfold encode
  rcases hr : refused? CodePoint.isSurrogate 0 t with _ | e
  · have hs := (refused?_eq_none_iff _ 0 t).mp hr
    by_cases hl : Bytes.longest < (t.flatMap encodeOne).length
    · simp only [if_pos hl, reduceCtorEq, false_iff]
      rintro ⟨-, rfl, hb⟩
      omega
    · simp only [if_neg hl, Except.ok.injEq]
      constructor
      · rintro rfl
        exact ⟨hs, rfl, Nat.le_of_not_lt hl⟩
      · exact fun h => h.2.1.symm
  · simp only [reduceCtorEq, false_iff]
    rintro ⟨hs, -, -⟩
    rw [(refused?_eq_none_iff _ 0 t).mpr hs] at hr
    cases hr

/-! ### One byte at a time -/

theorem toNat_toUInt8 {n : Nat} (h : n < 256) : n.toUInt8.toNat = n := by
  simp only [Nat.toUInt8_eq, UInt8.toNat_ofNat']
  omega

/-- A byte within the bounds is taken in. -/
theorem Pending.next_toUInt8 (p : Pending) {n : Nat} (hlo : p.lo.toNat ≤ n)
    (hhi : n ≤ p.hi.toNat) :
    p.next n.toUInt8 =
      if p.need ≤ 1 then .complete (.ofNat (p.value * 64 + (n - 0x80)))
      else .pending ⟨n.toUInt8 :: p.seen, p.need - 1, 0x80, 0xBF, p.value * 64 + (n - 0x80)⟩ := by
  have hn : n.toUInt8.toNat = n := toNat_toUInt8 (Nat.lt_of_le_of_lt hhi p.hi.toNat_lt)
  have hb : p.lo ≤ n.toUInt8 ∧ n.toUInt8 ≤ p.hi := by
    rw [UInt8.le_iff_toNat_le, UInt8.le_iff_toNat_le, hn]
    exact ⟨hlo, hhi⟩
  simp [Pending.next, hb, hn]

theorem first_of_one {n : Nat} (h : n < 0x80) : first false n.toUInt8 = .complete (.ofNat n) := by
  simp [first, toNat_toUInt8 (show n < 256 by omega), h]

theorem first_of_two {n : Nat} (h : n < 0x20) (h₂ : 2 ≤ n) :
    first false (0xC0 + n).toUInt8 = .pending ⟨[(0xC0 + n).toUInt8], 1, 0x80, 0xBF, n⟩ := by
  simp only [first, toNat_toUInt8 (show 0xC0 + n < 256 by omega)]
  rw [if_neg (by omega), if_neg (by omega), if_pos (by omega), Nat.add_sub_cancel_left]

/-- The lower bound of the second byte keeps out forms that are too long, the upper one
surrogates. -/
theorem first_of_three {n : Nat} (h : n < 0x10) :
    first false (0xE0 + n).toUInt8 =
      .pending ⟨[(0xE0 + n).toUInt8], 2, if n = 0 then 0xA0 else 0x80,
        if n = 0xD then 0x9F else 0xBF, n⟩ := by
  simp only [first, toNat_toUInt8 (show 0xE0 + n < 256 by omega)]
  rw [if_neg (by omega), if_neg (by omega), if_neg (by omega)]
  by_cases h₀ : n = 0
  · subst h₀
    rfl
  · by_cases hd : n = 0xD
    · subst hd
      rfl
    · rw [if_neg (by omega), if_neg (by simp; omega), if_pos (by omega), Nat.add_sub_cancel_left,
        if_neg h₀, if_neg hd]

theorem first_of_four {n : Nat} (h : n ≤ 4) :
    first false (0xF0 + n).toUInt8 =
      .pending ⟨[(0xF0 + n).toUInt8], 3, if n = 0 then 0x90 else 0x80,
        if n = 4 then 0x8F else 0xBF, n⟩ := by
  simp only [first, toNat_toUInt8 (show 0xF0 + n < 256 by omega)]
  rw [if_neg (by omega), if_neg (by omega), if_neg (by omega), if_neg (by omega),
    if_neg (by simp; omega), if_neg (by omega)]
  by_cases h₀ : n = 0
  · subst h₀
    rfl
  · by_cases h₄ : n = 4
    · subst h₄
      rfl
    · rw [if_neg (by omega), if_pos (by omega), Nat.add_sub_cancel_left, if_neg h₀, if_neg h₄]

/-! ### One code point at a time -/

/-- **The reader passes over the bytes of a code point in one go.** -/
theorem decodeFrom_encodeOne {c : CodePoint} (h : c.isSurrogate = false) (pos : Nat) (out : Text)
    (rest : Bytes) :
    decodeFrom false pos none out (encodeOne c ++ rest) =
      decodeFrom false (pos + (encodeOne c).length) none (c :: out) rest := by
  have hlt := c.isLt
  have hs : c.val < 0xD800 ∨ 0xE000 ≤ c.val := by
    simp only [CodePoint.isSurrogate, Bool.and_eq_false_iff, decide_eq_false_iff_not] at h
    omega
  -- whatever the form, the bits that were read make up the code point again
  have hc : ∀ n, n = c.val → CodePoint.ofNat n = c := fun n hn => hn ▸ CodePoint.ofNat_val c
  unfold encodeOne
  by_cases h₁ : c.val < 0x80
  · simp only [if_pos h₁, List.cons_append, List.nil_append, decodeFrom, first_of_one h₁,
      CodePoint.ofNat_val, List.length_singleton]
  by_cases h₂ : c.val < 0x800
  · simp only [if_neg h₁, if_pos h₂, List.cons_append, List.nil_append, decodeFrom,
      first_of_two (show c.val / 64 < 0x20 by omega) (by omega)]
    rw [Pending.next_toUInt8 _ (by simp) (by simp; omega)]
    simp only [Nat.le_refl, if_true, List.length_cons, List.length_nil]
    rw [hc _ (by omega)]
  by_cases h₃ : c.val < 0x10000
  · simp only [if_neg h₁, if_neg h₂, if_pos h₃, List.cons_append, List.nil_append, decodeFrom,
      first_of_three (show c.val / 4096 < 0x10 by omega)]
    -- the bounds of the second byte depend on the first one; here no surrogate comes in
    rw [Pending.next_toUInt8 _ (by dsimp only; split <;> simp; omega)
      (by dsimp only; split <;> simp <;> omega)]
    simp only [Nat.reduceLeDiff, if_false]
    rw [Pending.next_toUInt8 _ (by simp) (by simp; omega)]
    simp only [Nat.reduceSub, Nat.le_refl, if_true, List.length_cons, List.length_nil]
    rw [hc _ (by omega)]
  · simp only [if_neg h₁, if_neg h₂, if_neg h₃, List.cons_append, List.nil_append, decodeFrom,
      first_of_four (show c.val / 262144 ≤ 4 by omega)]
    -- the same for the bounds that end at the last code point
    rw [Pending.next_toUInt8 _ (by dsimp only; split <;> simp; omega)
      (by dsimp only; split <;> simp <;> omega)]
    simp only [Nat.reduceLeDiff, if_false]
    rw [Pending.next_toUInt8 _ (by simp) (by simp; omega)]
    simp only [Nat.reduceSub, Nat.reduceLeDiff, if_false]
    rw [Pending.next_toUInt8 _ (by simp) (by simp; omega)]
    simp only [Nat.reduceSub, Nat.le_refl, if_true, List.length_cons, List.length_nil]
    rw [hc _ (by omega)]

theorem decodeFrom_flatMap_encodeOne {t : Text} (h : ∀ c ∈ t, c.isSurrogate = false) (pos : Nat)
    (out : Text) :
    decodeFrom false pos none out (t.flatMap encodeOne) = .ok (out.reverse ++ t) := by
  induction t generalizing pos out with
  | nil => simp [decodeFrom]
  | cons c t ih =>
    rw [List.flatMap_cons, decodeFrom_encodeOne (h c List.mem_cons_self),
      ih fun d hd => h d (List.mem_cons_of_mem c hd)]
    simp

/-- **A text without surrogates is read back from its bytes.** -/
theorem decode_flatMap_encodeOne {t : Text} (h : ∀ c ∈ t, c.isSurrogate = false) :
    decode (t.flatMap encodeOne) = .ok t := by
  rw [decode, decodeFrom_flatMap_encodeOne h, List.reverse_nil, List.nil_append]

theorem decode_of_encode {t : Text} {b : Bytes} (h : encode t = .ok b) : decode b = .ok t := by
  obtain ⟨hs, rfl, -⟩ := encode_eq_ok_iff.mp h
  exact decode_flatMap_encodeOne hs

end Utf8

end RainMeta
