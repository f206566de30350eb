import Mathlib.Data.List.Permutation
import RainMeta.Proofs.Build.Items
import RainMeta.Proofs.Hex
import RainMeta.Proofs.Text.Blank
import RainMeta.Proofs.Text.Utf8

/-!
# Metas in binary and in digits

A file of digits goes through four layers before there are bytes: the content is decoded as
UTF-8, line ends are unified, blanks on both sides are dropped, and what is left is decoded as
digits behind an optional mark. Each layer is known exactly, and so is what they accept together:
the texts that hold a spelling of bytes between blanks (`RainMeta.MetaFile.Writes`). Blanks may be
any white space there is, but only around the digits, never between them or behind the mark.

`RainMeta.MetaFile.hex_exact` says that such a file is loaded as the file of its bytes is, and
that every other content fails, with a code that tells whether it is a text at all.
-/

namespace RainMeta

open Run

namespace MetaFile

/-- **A text writes bytes** if it holds a spelling of them between blanks. -/
def Writes (b : Bytes) (text : Text) : Prop :=
  ∃ before digits after, Text.Blank before ∧ Text.Blank after ∧ Hex.Spells digits b ∧
    text = before ++ digits ++ after

/-! ### The layers -/

/-- Neither a digit nor the letter of a mark is a blank. -/
theorem not_blank_of_spells {digits : Text} {b : Bytes} (h : Hex.Spells digits b) :
    ∀ c ∈ digits, c.isBlank = false := by
  intro c hc
  have hval : (48 ≤ c.val ∧ c.val ≤ 57) ∨ (65 ≤ c.val ∧ c.val ≤ 70) ∨ (97 ≤ c.val ∧ c.val ≤ 102) ∨
      c.val = 120 ∨ c.val = 88 := by
    rcases h.isDigitOrMark hc with hdigit | hmark
    · have hcases := CodePoint.hexValue_cases hdigit
      omega
    · omega
  simp only [CodePoint.isBlank, Bool.or_eq_false_iff, Bool.and_eq_false_iff,
    decide_eq_false_iff_not,
    beq_eq_false_iff_ne, ne_eq]
  omega

/-- **Digits are found between the blanks.** -/
theorem decode_strip_eq_ok_iff {text : Text} {b : Bytes} :
    Hex.decode text.strip = .ok b ↔ Writes b text := by
  rw [Hex.decode_eq_ok_iff_spells]
  constructor
  · intro h
    obtain ⟨before, after, hbefore, hafter, heq⟩ := text.exists_strip
    exact ⟨before, text.strip, after, hbefore, hafter, h, heq⟩
  · rintro ⟨before, digits, after, hbefore, hafter, h, rfl⟩
    rw [Text.strip_surrounded hbefore hafter (not_blank_of_spells h)]
    exact h

/-- Which line ends stand around the digits does not matter. -/
theorem Writes.unifyLineEnds {text : Text} {b : Bytes} (h : Writes b text) :
    Writes b text.unifyLineEnds := by
  obtain ⟨before, digits, after, hbefore, hafter, hdigits, rfl⟩ := h
  have hreturn : ∀ c ∈ digits, c.val ≠ 13 := by
    intro c hc hval
    have hblank := not_blank_of_spells hdigits c hc
    simp [CodePoint.isBlank, hval] at hblank
  obtain ⟨before', after', hbefore', hafter', heq⟩ :=
    Text.exists_unifyLineEnds_surrounded hbefore hafter hreturn
  exact ⟨before', digits, after', hbefore', hafter', hdigits, heq⟩

/-- **A content is decoded to bytes** exactly if it is the UTF-8 of a text that writes them, once
its line ends are unified. -/
theorem decodeHex_eq_ok_iff {path : Path} {content b : Bytes} :
    decodeHex path content = .ok b ↔
      ∃ text, Utf8.decode content = .ok text ∧ Writes b text.unifyLineEnds := by
  unfold decodeHex
  rcases Utf8.decode content with e | text
  · simp
  · simp only [Except.ok.injEq, exists_eq_left', ← decode_strip_eq_ok_iff]
    rcases Hex.decode text.unifyLineEnds.strip with e | b'
    · simp [Except.mapError]
    · simp [Except.mapError]

/-- What is not decoded fails, with a code that says whether there is a text. -/
theorem exists_code_of_decodeHex {path : Path} {content : Bytes}
    (h : ∀ b, decodeHex path content ≠ .ok b) :
    ∃ cause, decodeHex path content = .error cause ∧ cause.code =
      if (Utf8.decode content).isOk then "META_HEX_INVALID" else "META_NOT_UTF8" := by
  unfold decodeHex at h ⊢
  rcases hcontent : Utf8.decode content with e | text
  · exact ⟨.metaNotUtf8 path e.reason, rfl, rfl⟩
  · dsimp only
    rcases hdecode : Hex.decode text.unifyLineEnds.strip with e | b
    · exact ⟨.metaHexInvalid path e, rfl, rfl⟩
    · simp [hcontent, hdecode, Except.mapError] at h

/-! ### Loading -/

theorem read_of_readFile {t : FileTree} {entry : MetaEntry} {content : Bytes}
    (h : t.readFile entry.path.text = .ok content) :
    read t entry = Run.ofExcept (bytesOf content entry) := by
  rw [read_eq, h]
  rfl

/-- What is read is loaded under its hash, whatever the policy. -/
theorem load_of_read {t : FileTree} {entry : MetaEntry} {b : Bytes} (h : read t entry = pure b)
    (policy : Policy) : load t policy entry = pure (some (.ofBytes b)) := by
  rw [load, h]
  rfl

/-- **Metas in digits are read exactly, and like metas in binary.** Let a file be readable. If its
content is the UTF-8 of a text that writes bytes, then as an entry in digits it is loaded as these
bytes under their hash, under each policy, and so is every file with these bytes as its content,
as a binary entry. Only such files are read as bytes, if the line ends are unified before. Any
other one fails: as no UTF-8, or else as no spelling of bytes. -/
theorem hex_exact {t : FileTree} {path : Path} {content : Bytes}
    (h : t.readFile path.text = .ok content) (policy : Policy) :
    (∀ b text, Utf8.encode text = .ok content → Writes b text →
      load t policy (.hex path) = pure (some { hash := keccak256 b, bytes := b }) ∧
      ∀ (u : FileTree) (q : Path), u.readFile q.text = .ok b →
        load u policy (.binary q) = load t policy (.hex path)) ∧
    (∀ b, (read t (.hex path)).outcome = .ok b ↔
      ∃ text, Utf8.decode content = .ok text ∧ Writes b text.unifyLineEnds) ∧
    ((∀ b, (read t (.hex path)).outcome ≠ .ok b) →
      ∃ cause, read t (.hex path) = fail cause ∧ load t .strict (.hex path) = fail cause ∧
        cause.code =
          if (Utf8.decode content).isOk then "META_HEX_INVALID" else "META_NOT_UTF8") := by
  have hread : read t (.hex path) = Run.ofExcept (decodeHex path content) := read_of_readFile h
  have houtcome : ∀ b, (read t (.hex path)).outcome = .ok b ↔ decodeHex path content = .ok b := by
    intro b
    rw [hread, outcome_ofExcept_eq_ok_iff]
  refine ⟨fun b text hencode hwrites => ?_, fun b => ?_, fun hnone => ?_⟩
  · have hdecode : decodeHex path content = .ok b :=
      decodeHex_eq_ok_iff.mpr ⟨text, Utf8.decode_of_encode hencode, hwrites.unifyLineEnds⟩
    have hhex := load_of_read (hread.trans (by rw [hdecode, Run.ofExcept])) policy
    refine ⟨hhex, fun u q hq => ?_⟩
    have hbinary : read u (.binary q) = pure b := read_of_readFile hq
    rw [load_of_read hbinary, hhex]
  · rw [houtcome, decodeHex_eq_ok_iff]
  · obtain ⟨cause, hcause, hcode⟩ := exists_code_of_decodeHex fun b => mt (houtcome b).mpr (hnone b)
    rw [hcause] at hread
    refine ⟨cause, hread, ?_, hcode⟩
    rw [load, hread]
    rfl

/-- A no-break space, digits behind a mark, and a line end of two characters. -/
theorem hex_exact_small :
    let t : FileTree :=
      { root := .directory
          [([109], .file [0xC2, 0xA0, 48, 88, 97, 70, 13, 10]), ([98], .file [0xAF])]
        workingDirectory := [] }
    load t .strict (.hex ⟨.relative, ["m"]⟩) =
        pure (some { hash := keccak256 [0xAF], bytes := [0xAF] }) ∧
      load t .strict (.binary ⟨.relative, ["b"]⟩) = load t .strict (.hex ⟨.relative, ["m"]⟩) := by
  intro t
  have hread : t.readFile (Path.text ⟨.relative, ["m"]⟩) =
      .ok [0xC2, 0xA0, 48, 88, 97, 70, 13, 10] := by cbv
  have hbytes : t.readFile (Path.text ⟨.relative, ["b"]⟩) = .ok [0xAF] := by cbv
  obtain ⟨hload, hbinary⟩ := (hex_exact hread .strict).1 [0xAF]
    [.ofNat 0xA0, '0', 'X', 'a', 'F', .ofNat 13, .ofNat 10] (by decide)
    ⟨[.ofNat 0xA0], "0XaF", [.ofNat 13, .ofNat 10], by unfold Text.Blank; decide,
      by unfold Text.Blank; decide, ⟨"0X", "aF", .inr (.inr rfl), by decide, by decide⟩, by decide⟩
  exact ⟨hload, hbinary t ⟨.relative, ["b"]⟩ hbytes⟩

end MetaFile

end RainMeta
