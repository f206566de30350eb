import RainMeta.Proofs.Hex

/-!
# Digits in both directions

Bytes that are encoded are decoded again, and a text is decoded exactly if its body is an even
number of digits, which spell the bytes once their letters are small. Any other text is refused for
its length, or else for the first code point that is no digit (`RainMeta.Hex.codec_exact`).

Decoding can be told in stages, each of which has its own idea of digits
(`RainMeta.Hex.decodeInStages`). A body is let through by ranges of code points, and then read by a
reader that skips blanks and stops at anything else; if it is not let through, the code point to
blame is looked for with a list in which all digits are written out. Where two of these did not
agree, decoding would end without bytes and with nothing to blame. They do agree, on all code points
(`RainMeta.Hex.mem_alphabet_iff`), so the stages come to what `RainMeta.Hex.decode` does with one
test (`RainMeta.Hex.decodeInStages_eq`).
-/

namespace RainMeta.Hex

open CodePoint

/-- **What a text is without its mark**: what stands behind it, or all of the text if there is
none. -/
def IsBody (t digits : Text) : Prop :=
  t = "0x" ++ digits ∨ t = "0X" ++ digits ∨
    (¬("0x" : Text) <+: t ∧ ¬("0X" : Text) <+: t ∧ t = digits)

/-- **What is wrong with digits**: their number is odd, or else one of them is the first that is
none. -/
inductive Blames (digits : Text) : HexError → Prop
  | length (hodd : digits.length % 2 = 1) : Blames digits (.oddLength digits.length)
  | digit {before after : Text} {c : CodePoint} (heven : digits.length % 2 = 0)
      (hdigits : digits = before ++ c :: after) (hbefore : ∀ d ∈ before, d ∈ alphabet)
      (hc : c ∉ alphabet) : Blames digits (.invalid c)

/-! ### Encoding and decoding again -/

theorem toLower_digit {n : Nat} (h : n < 16) : (digit n).toLower = digit n := by
  rw [← digit_hexValue (isHexDigit_digit h), hexValue_digit h]

theorem toLower_encode (b : Bytes) : (encode b false).toLower = encode b false := by
  induction b with
  | nil => rfl
  | cons x b ih =>
    have hx := x.toNat_lt
    have hpair : Text.toLower (digitsOf x) = digitsOf x := by
      simp only [Text.toLower, digitsOf, List.map_cons, List.map_nil]
      rw [toLower_digit (by omega), toLower_digit (by omega)]
    rw [encode_false_cons, Text.toLower, List.map_append]
    exact congrArg₂ (· ++ ·) hpair ih

/-- **Bytes that are encoded are decoded again**, with a mark and without. -/
theorem decode_encode (b : Bytes) (marked : Bool) : decode (encode b marked) = .ok b := by
  rw [decode_eq_ok_iff_spells]
  cases marked with
  | false => exact ⟨[], encode b false, .inl rfl, rfl, toLower_encode b⟩
  | true => exact ⟨"0x", encode b false, .inr (.inl rfl), rfl, toLower_encode b⟩

/-! ### What is decoded, and what is blamed -/

/-- A text with a mark is not its own body, which is shorter. -/
theorem body_ne_self {mark : Text} (hmark : mark = "0x" ∨ mark = "0X") (rest : Text) :
    body (mark ++ rest) ≠ mark ++ rest := by
  have hbody : body (mark ++ rest) = rest := by rcases hmark with rfl | rfl <;> rfl
  have htwo : mark.length = 2 := by rcases hmark with rfl | rfl <;> rfl
  intro h
  have hlength := congrArg List.length h
  rw [hbody, List.length_append] at hlength
  omega

theorem isBody_iff {t digits : Text} : IsBody t digits ↔ body t = digits := by
  obtain ⟨mark, hmark, ht⟩ := exists_mark t
  constructor
  · rintro (rfl | rfl | ⟨hsmall, hcapital, rfl⟩)
    · rfl
    · rfl
    · rcases hmark with rfl | rfl | rfl
      · exact ht.symm
      · exact absurd ⟨body t, ht.symm⟩ hsmall
      · exact absurd ⟨body t, ht.symm⟩ hcapital
  · rintro rfl
    rcases hmark with rfl | rfl | rfl
    · refine .inr (.inr ⟨?_, ?_, ht⟩)
      · rintro ⟨rest, rfl⟩
        exact body_ne_self (.inl rfl) rest ht.symm
      · rintro ⟨rest, rfl⟩
        exact body_ne_self (.inr rfl) rest ht.symm
    · exact .inl ht
    · exact .inr (.inl ht)

/-- **Ranges and list hold the same digits.** -/
theorem mem_alphabet_iff {c : CodePoint} : c ∈ alphabet ↔ c.isHexDigit = true := by
  constructor
  · have hdigits : ∀ c ∈ alphabet, c.isHexDigit = true := by decide
    exact hdigits c
  · intro h
    have hranges : (∀ n ∈ List.range' 48 10, ofNat n ∈ alphabet) ∧
        (∀ n ∈ List.range' 97 6, ofNat n ∈ alphabet) ∧
          ∀ n ∈ List.range' 65 6, ofNat n ∈ alphabet := by
      decide
    obtain ⟨hnumerals, hsmall, hcapital⟩ := hranges
    rw [← ofNat_val c]
    rcases hexValue_cases h with h | h | h
    · exact hnumerals _ (List.mem_range'_1.mpr (by omega))
    · exact hsmall _ (List.mem_range'_1.mpr (by omega))
    · exact hcapital _ (List.mem_range'_1.mpr (by omega))

/-- **There is always something to blame** unless the digits are an even number and nothing but
digits. -/
theorem exists_blames_or_digits (digits : Text) : (∃ cause, Blames digits cause) ∨
    digits.length % 2 = 0 ∧ ∀ c ∈ digits, c.isHexDigit = true := by
  rcases Nat.mod_two_eq_zero_or_one digits.length with heven | hodd
  · rcases hfind : digits.find? fun c => !c.isHexDigit with _ | c
    · exact .inr ⟨heven, by simpa using hfind⟩
    · obtain ⟨hc, before, after, hdigits, hbefore⟩ := List.find?_eq_some_iff_append.mp hfind
      refine .inl ⟨_, .digit heven hdigits (fun d hd => ?_) ?_⟩
      · rw [mem_alphabet_iff]
        simpa using hbefore d hd
      · rw [mem_alphabet_iff]
        simpa using hc
  · exact .inl ⟨_, .length hodd⟩

/-- What is blamed is what a search for the first stranger finds. -/
theorem find?_eq_some_of_split {before after : Text} {c : CodePoint}
    (hbefore : ∀ d ∈ before, d ∈ alphabet) (hc : c ∉ alphabet) :
    (before ++ c :: after).find? (fun c => !c.isHexDigit) = some c := by
  simp only [mem_alphabet_iff, Bool.not_eq_true] at hbefore hc
  exact List.find?_eq_some_iff_append.mpr
    ⟨by simpa using hc, before, after, rfl, by simpa using hbefore⟩

theorem Blames.decode_eq {t : Text} {cause : HexError} (h : Blames (body t) cause) :
    decode t = .error cause := by
  rw [decode]
  cases h with
  | length hodd => exact if_pos hodd
  | digit heven hdigits hbefore hc =>
    rw [if_neg (by omega), hdigits, find?_eq_some_of_split hbefore hc]

/-- **A text is decoded** exactly if its body is an even number of digits. -/
theorem exists_decode_eq_ok_iff {t : Text} : (∃ b, decode t = .ok b) ↔
    (body t).length % 2 = 0 ∧ ∀ c ∈ body t, c.isHexDigit = true := by
  constructor
  · rintro ⟨b, hb⟩
    have hlower := decode_eq_ok_iff.mp hb
    refine ⟨?_, isHexDigit_of_toLower hlower⟩
    have hlength := congrArg List.length hlower
    rw [Text.toLower, List.length_map, length_encode_false] at hlength
    omega
  · rintro ⟨heven, hdigits⟩
    obtain ⟨b, -, hlower⟩ := toLower_eq_encode_ofPairs heven hdigits []
    exact ⟨b, decode_eq_ok_iff.mpr hlower⟩

/-- **A text is refused** exactly for what is wrong with its body. -/
theorem decode_eq_error_iff {t : Text} {cause : HexError} :
    decode t = .error cause ↔ Blames (body t) cause := by
  refine ⟨fun h => ?_, Blames.decode_eq⟩
  rcases exists_blames_or_digits (body t) with ⟨cause', hblames⟩ | hdigits
  · rw [hblames.decode_eq] at h
    cases h
    exact hblames
  · obtain ⟨b, hb⟩ := exists_decode_eq_ok_iff.mpr hdigits
    rw [h] at hb
    cases hb

/-! ### The stages of decoding -/

theorem isSkipped_eq_false {c : CodePoint} (h : c.isHexDigit = true) : isSkipped c = false := by
  have hcases := hexValue_cases h
  simp only [isSkipped, isIn, Bool.or_eq_false_iff, Bool.and_eq_false_iff, decide_eq_false_iff_not,
    Char.reduceToNat]
  omega

/-- **Pairs of digits are read** as without a look at blanks. -/
theorem readPairs_eq {t : Text} (heven : t.length % 2 = 0)
    (hdigits : ∀ c ∈ t, c.isHexDigit = true) (out : Bytes) :
    (readPairs t).map (out.reverse ++ ·) = some (ofPairs out t) := by
  induction out, t using ofPairs.induct with
  | case1 out c d rest ih =>
    rw [List.forall_mem_cons, List.forall_mem_cons] at hdigits
    obtain ⟨hc, hd, hrest⟩ := hdigits
    rw [List.length_cons, List.length_cons] at heven
    rw [ofPairs, ← ih (by omega) hrest, readPairs, isSkipped_eq_false hc, hc, hd]
    simp [Option.map_map, Function.comp_def]
  | case2 out t hshort =>
    rcases t with _ | ⟨c, _ | ⟨d, rest⟩⟩
    · simp [readPairs, ofPairs]
    · simp at heven
    · exact absurd rfl (hshort c d rest)

theorem contains_alphabet (c : CodePoint) : alphabet.contains c = c.isHexDigit := by
  rw [Bool.eq_iff_iff, List.contains_iff_mem, mem_alphabet_iff]

/-- **The stages agree**: decoding ends with bytes or with a refusal, as it does with one test. -/
theorem decodeInStages_eq (t : Text) : decodeInStages t = (decode t).mapError .refused := by
  simp only [decodeInStages, contains_alphabet]
  rcases exists_blames_or_digits (body t) with ⟨cause, hblames⟩ | ⟨heven, hdigits⟩
  · rw [hblames.decode_eq]
    cases hblames with
    | length hodd => exact if_pos hodd
    | @digit before after c heven hsplit hbefore hc =>
      have hall : ¬(body t).all isHexDigit = true := by
        rw [List.all_eq_true]
        intro hall
        exact hc (mem_alphabet_iff.mpr (hall c (by simp [hsplit])))
      rw [if_neg (by omega), if_neg hall, hsplit, find?_eq_some_of_split hbefore hc]
      rfl
  · obtain ⟨b, hpairs, hlower⟩ := toLower_eq_encode_ofPairs heven hdigits []
    have hread : readPairs (body t) = some b := by
      simpa [hpairs] using readPairs_eq heven hdigits []
    rw [if_neg (by omega), if_pos (List.all_eq_true.mpr hdigits), hread,
      decode_eq_ok_iff.mpr hlower]
    rfl

/-! ### Both directions -/

/-- **Digits stand for bytes exactly.** Encoded bytes are decoded again, with a mark and without. As
for texts, the body of one is what is left without its mark. It is decoded exactly if the body is an
even number of digits, and to the bytes whose digits are those of the body in small letters. Any
other text is refused for what is wrong with its body: the odd length, or else the first code point
that is no digit. No stage of decoding ends in another way. -/
theorem codec_exact :
    (∀ b marked, decode (encode b marked) = .ok b) ∧
      ∀ t, (∀ digits, IsBody t digits ↔ body t = digits) ∧
        ((∃ b, decode t = .ok b) ↔ (body t).length % 2 = 0 ∧ ∀ c ∈ body t, c ∈ alphabet) ∧
        (∀ b, decode t = .ok b ↔ encode b false = (body t).toLower) ∧
        (∀ cause, decode t = .error cause ↔ Blames (body t) cause) ∧
        decodeInStages t = (decode t).mapError .refused := by
  refine ⟨decode_encode, fun t => ⟨fun _ => isBody_iff, ?_, fun b => ?_, fun cause => ?_, ?_⟩⟩
  · simp only [mem_alphabet_iff]
    exact exists_decode_eq_ok_iff
  · rw [decode_eq_ok_iff, eq_comm]
  · exact decode_eq_error_iff
  · exact decodeInStages_eq t

end RainMeta.Hex
