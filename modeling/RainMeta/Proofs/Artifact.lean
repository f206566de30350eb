import Mathlib.Data.List.Permutation
import RainMeta.Platform.Usual
import RainMeta.Proofs.Build.Items
import RainMeta.Proofs.Hex
import RainMeta.Proofs.Json.Tree

/-!
# Exactly which artifacts can be read

A document may have anything at all in the field of a side: nothing, a number, a list, a text that
is empty, an object with or without a field `object`, and several of these one after another. What
counts is whether it holds digits for the side (`RainMeta.Artifact.Holds`), and which. The rest of
the document is not looked at.

So the bytecode of a document is a function of the digits that it holds for the two sides
(`RainMeta.Artifact.ofHeld`), and this function has one line for each case. A side that is held
with no digits at all has the empty byte string as its bytecode, which is not the same as a side
that is not held. `RainMeta.Artifact.read_exact` puts it together for files.
-/

namespace RainMeta

open Run Json

/-- Whether a side is among those that there are. -/
def Presence.has : Presence → Side → Bool
  | .both, _ => true
  | .creationOnly, .creation => true
  | .deployedOnly, .deployed => true
  | _, _ => false

namespace Artifact

/-- **A document holds digits for a side** if it is an object whose field for the side is a text,
or an object whose field `object` is one. Of several fields of one name the last one counts. -/
inductive Holds (document : Tree) (side : Side) (digits : Text) : Prop
  | flat (h : document.member? side.field = some (.text digits))
  | nested {held : Tree} (h : document.member? side.field = some held)
      (hobject : held.member? "object" = some (.text digits))

/-- **A side is malformed** if the digits that are held for it spell no bytes. -/
def Malformed (document : Tree) (side : Side) : Prop :=
  ∃ digits, Holds document side digits ∧ ∀ b, ¬Hex.Spells digits b

/-- **A field is rewritten** if it is left as it is, or a text is put into an object of its own. -/
inductive Rewritten : Option Tree → Option Tree → Prop
  | same (field : Option Tree) : Rewritten field field
  | wrapped (digits : Text) :
      Rewritten (some (.text digits)) (some (.object [("object", .text digits)]))

/-! ### What is held -/

theorem heldDigits_value_eq_some_iff {document : Tree} {side : Side} {digits : Text} :
    heldDigits document.value side = some digits ↔ Holds document side digits := by
  have hheld : ∀ held : Tree, document.member? side.field = some held →
      (Holds document side digits ↔
        held = .text digits ∨ held.member? "object" = some (.text digits)) := by
    intro held hmember
    constructor
    · rintro (h | ⟨h, hobject⟩)
      · exact .inl (Option.some.inj (hmember.symm.trans h))
      · rw [hmember] at h
        cases h
        exact .inr hobject
    · rintro (rfl | hobject)
      · exact .flat hmember
      · exact .nested hmember hobject
  rw [heldDigits, Tree.field?_value]
  rcases hmember : document.member? side.field with _ | held
  · refine iff_of_false (by rintro ⟨⟩) ?_
    rintro (h | ⟨h, -⟩)
    · rw [hmember] at h
      cases h
    · rw [hmember] at h
      cases h
  · rw [hheld held hmember]
    cases held with
    | object members =>
      -- only here the reader looks at what the field of the side has for a field
      have hfield := Tree.field?_value "object" (.object members)
      rw [Tree.value, objectOf, Value.field?] at hfield
      simp only [Option.map_some, Tree.value, objectOf, hfield, reduceCtorEq, false_or]
      rcases (Tree.object members).member? "object" with _ | inner
      · simp
      · simp [Tree.text?_value]
    | text t => simp [Tree.value, Value.text?, Tree.member?]
    | _ => simp [Tree.value, Value.text?, Tree.member?]

theorem heldDigits_value_eq_none_iff {document : Tree} {side : Side} :
    heldDigits document.value side = none ↔ ∀ digits, ¬Holds document side digits := by
  simp only [Option.eq_none_iff_forall_ne_some, ne_eq, heldDigits_value_eq_some_iff]

theorem malformed_iff {document : Tree} {side : Side} :
    Malformed document side ↔
      ∃ digits cause, heldDigits document.value side = some digits ∧
        Hex.decode digits = .error cause := by
  simp only [Malformed, heldDigits_value_eq_some_iff, ← Hex.decode_eq_ok_iff_spells]
  refine exists_congr fun digits => ?_
  rcases Hex.decode digits with cause | b
  · simp
  · simp

/-- A field that is rewritten holds what it held. -/
theorem heldDigits_of_rewritten {document document' : Tree} {side : Side}
    (h : Rewritten (document.member? side.field) (document'.member? side.field)) :
    heldDigits document.value side = heldDigits document'.value side := by
  rw [heldDigits, heldDigits, Tree.field?_value, Tree.field?_value]
  generalize document.member? side.field = field at h
  generalize document'.member? side.field = field' at h
  cases h with
  | same => rfl
  | wrapped digits => rfl

/-! ### What is made of it -/

/-- The bytecode of an artifact whose document holds certain digits for its sides. -/
def ofHeld (path : Path) (held : Side → Option Text) : Except Failure Artifact :=
  if (held .creation).isNone && (held .deployed).isNone then .error (.artifactNoBytecode path)
  else do
    let creation ← decodeSide path .creation (held .creation)
    let deployed ← decodeSide path .deployed (held .deployed)
    return { path, creation, deployed }

/-- **Nothing but the digits that are held** is looked at. -/
theorem ofDocument_eq (path : Path) (document : Value) :
    ofDocument path document = ofHeld path (heldDigits document) := rfl

variable {path : Path} {side : Side} {held : Side → Option Text} {a : Artifact}

theorem decodeSide_eq_ok_iff {digits : Option Text} {o : Option Bytes} :
    decodeSide path side digits = .ok o ↔
      (digits = none ∧ o = none) ∨
        ∃ d b, digits = some d ∧ o = some b ∧ Hex.decode d = .ok b := by
  rcases digits with _ | d
  · simp [decodeSide, eq_comm]
  · rcases hd : Hex.decode d with e | b
    · simp [decodeSide, hd, Except.map, Except.mapError]
    · simp [decodeSide, hd, Except.map, Except.mapError, eq_comm]

/-- A side that is not malformed is decoded. -/
theorem exists_decodeSide {digits : Option Text}
    (h : ∀ d, digits = some d → ∃ b, Hex.decode d = .ok b) :
    ∃ o, decodeSide path side digits = .ok o := by
  rcases digits with _ | d
  · exact ⟨none, rfl⟩
  · obtain ⟨b, hb⟩ := h d rfl
    exact ⟨some b, decodeSide_eq_ok_iff.mpr (.inr ⟨d, b, rfl, rfl, hb⟩)⟩

theorem decodeSide_of_error {d : Text} {e : HexError} (h : Hex.decode d = .error e) :
    decodeSide path side (some d) = .error (.artifactHexInvalid path side e) := by
  simp [decodeSide, h, Except.map, Except.mapError]

theorem ofHeld_of_none (h : ∀ side, held side = none) :
    ofHeld path held = .error (.artifactNoBytecode path) := by
  simp [ofHeld, h]

/-- If a side is held then both are decoded, one after the other. -/
theorem ofHeld_of_some {d : Text} (h : held side = some d) :
    ofHeld path held = (do
      let creation ← decodeSide path .creation (held .creation)
      let deployed ← decodeSide path .deployed (held .deployed)
      return { path, creation, deployed }) := by
  rw [ofHeld, if_neg]
  cases side with
  | creation => simp [h]
  | deployed => simp [h]

theorem ofHeld_eq_ok_iff : ofHeld path held = .ok a ↔ (∃ side d, held side = some d) ∧
    a.path = path ∧ ∀ side, decodeSide path side (held side) = .ok (a.side side) := by
  by_cases hnone : ∀ side, held side = none
  · rw [ofHeld_of_none hnone]
    refine iff_of_false (by rintro ⟨⟩) ?_
    rintro ⟨⟨side, d, hd⟩, -⟩
    rw [hnone side] at hd
    cases hd
  · obtain ⟨side, hside⟩ := not_forall.mp hnone
    obtain ⟨d, hd⟩ := Option.ne_none_iff_exists'.mp hside
    rw [ofHeld_of_some hd]
    constructor
    · intro h
      rcases hc : decodeSide path .creation (held .creation) with cause | creation
      · rw [hc] at h
        cases h
      rcases he : decodeSide path .deployed (held .deployed) with cause | deployed
      · rw [hc, he] at h
        cases h
      rw [hc, he] at h
      cases h
      exact ⟨⟨side, d, hd⟩, rfl, by rintro (_ | _) <;> assumption⟩
    · rintro ⟨-, rfl, hsides⟩
      rw [hsides .creation, hsides .deployed]
      rfl

/-- A side that cannot be decoded is the failure, the one that creates first. -/
theorem ofHeld_of_error_creation {d : Text} {e : HexError} (h : held .creation = some d)
    (he : Hex.decode d = .error e) :
    ofHeld path held = .error (.artifactHexInvalid path .creation e) := by
  rw [ofHeld_of_some h, h, decodeSide_of_error he]
  rfl

theorem ofHeld_of_error_deployed {o : Option Bytes} {d : Text} {e : HexError}
    (hcreation : decodeSide path .creation (held .creation) = .ok o)
    (h : held .deployed = some d) (he : Hex.decode d = .error e) :
    ofHeld path held = .error (.artifactHexInvalid path .deployed e) := by
  rw [ofHeld_of_some h, hcreation, h, decodeSide_of_error he]
  rfl

/-- **There is no bytecode** exactly if nothing is held. -/
theorem ofHeld_eq_noBytecode_iff :
    ofHeld path held = .error (.artifactNoBytecode path) ↔ ∀ side, held side = none := by
  refine ⟨fun h => not_exists_not.mp ?_, ofHeld_of_none⟩
  rintro ⟨side, hside⟩
  obtain ⟨d, hd⟩ := Option.ne_none_iff_exists'.mp hside
  have hsides : ∀ side, decodeSide path side (held side) ≠ .error (.artifactNoBytecode path) := by
    intro side hdecode
    rcases hheld : held side with _ | d
    · rw [hheld] at hdecode
      cases hdecode
    rcases he : Hex.decode d with e | b
    · rw [hheld, decodeSide_of_error he] at hdecode
      cases hdecode
    · rw [hheld, decodeSide_eq_ok_iff.mpr (.inr ⟨d, b, rfl, rfl, he⟩)] at hdecode
      cases hdecode
  rw [ofHeld_of_some hd] at h
  rcases hc : decodeSide path .creation (held .creation) with cause | creation
  · rw [hc] at h
    cases h
    exact hsides .creation hc
  rcases he : decodeSide path .deployed (held .deployed) with cause | deployed
  · rw [hc, he] at h
    cases h
    exact hsides .deployed he
  · rw [hc, he] at h
    cases h

/-! ### Presence -/

theorem presence_has (a : Artifact) (side : Side) :
    a.presence.has side = (a.side side).isSome := by
  obtain ⟨path, _ | creation, _ | deployed⟩ := a <;> cases side <;> rfl

theorem presence_eq_neither_iff (a : Artifact) :
    a.presence = .neither ↔ ∀ side, a.side side = none := by
  constructor
  · intro h side
    have hneither : Presence.neither.has side = false := by cases side <;> rfl
    rw [← Option.not_isSome_iff_eq_none, ← presence_has, h, hneither]
    exact Bool.false_ne_true
  · intro h
    obtain ⟨path, creation, deployed⟩ := a
    obtain rfl : creation = none := h .creation
    obtain rfl : deployed = none := h .deployed
    rfl

/-! ### Files -/

section Files

variable {t : FileTree} {content : Bytes} {document : Tree}

theorem read_of_readFile [Platform] (h : t.readFile path.text = .ok content)
    (hdocument : readBytesAs trees content = .ok document) :
    read t path = Run.ofExcept (ofHeld path (heldDigits document.value)) := by
  rw [read_eq, h, ← ofDocument_eq]
  change (readDocument path content >>= fun v => Run.ofExcept (ofDocument path v)) = _
  rw [readDocument, readBytes_eq, hdocument]
  rfl

/-- A side that is not malformed is decoded. -/
theorem exists_decodeSide_of_not_malformed (path : Path) (h : ¬Malformed document side) :
    ∃ o, decodeSide path side (heldDigits document.value side) = .ok o := by
  rw [malformed_iff] at h
  refine exists_decodeSide fun d hd => ?_
  rcases hdecode : Hex.decode d with e | b
  · exact absurd ⟨d, e, hd, hdecode⟩ h
  · exact ⟨b, rfl⟩

/-- **A document has bytecode** exactly if digits are held, and all that are held spell bytes. -/
theorem exists_ofHeld_iff (path : Path) (document : Tree) :
    (∃ a, ofHeld path (heldDigits document.value) = .ok a) ↔
      (∃ side digits, Holds document side digits) ∧
        ∀ side digits, Holds document side digits → ∃ b, Hex.Spells digits b := by
  constructor
  · rintro ⟨a, ha⟩
    obtain ⟨⟨side, d, hd⟩, -, hsides⟩ := ofHeld_eq_ok_iff.mp ha
    refine ⟨⟨side, d, heldDigits_value_eq_some_iff.mp hd⟩, fun side digits hholds => ?_⟩
    rw [← heldDigits_value_eq_some_iff] at hholds
    rcases decodeSide_eq_ok_iff.mp (hsides side) with ⟨hheld, -⟩ | ⟨d, b, hheld, -, hb⟩
    · rw [hholds] at hheld
      cases hheld
    · rw [hholds] at hheld
      cases hheld
      exact ⟨b, Hex.decode_eq_ok_iff_spells.mp hb⟩
  · rintro ⟨⟨side, digits, hholds⟩, hspells⟩
    have hdecoded : ∀ side, ∃ o, decodeSide path side (heldDigits document.value side) = .ok o := by
      refine fun side => exists_decodeSide_of_not_malformed path ?_
      rintro ⟨digits, hholds, hmalformed⟩
      obtain ⟨b, hb⟩ := hspells side digits hholds
      exact hmalformed b hb
    obtain ⟨creation, hcreation⟩ := hdecoded .creation
    obtain ⟨deployed, hdeployed⟩ := hdecoded .deployed
    refine ⟨⟨path, creation, deployed⟩, ofHeld_eq_ok_iff.mpr
      ⟨⟨side, digits, heldDigits_value_eq_some_iff.mpr hholds⟩, rfl, ?_⟩⟩
    rintro (_ | _)
    · exact hcreation
    · exact hdeployed

/-- **A side of an artifact** has the bytes that are spelled for it, and none if nothing is
held. -/
theorem side_of_ofHeld (h : ofHeld path (heldDigits document.value) = .ok a) (side : Side) :
    (∀ b, a.side side = some b ↔ ∃ digits, Holds document side digits ∧ Hex.Spells digits b) ∧
      (a.side side = none ↔ ∀ digits, ¬Holds document side digits) := by
  obtain ⟨-, -, hsides⟩ := ofHeld_eq_ok_iff.mp h
  simp only [← heldDigits_value_eq_some_iff, ← Hex.decode_eq_ok_iff_spells]
  rcases decodeSide_eq_ok_iff.mp (hsides side) with ⟨hheld, ho⟩ | ⟨d, b, hheld, ho, hb⟩
  · simp [hheld, ho]
  · simp [hheld, ho, hb]

/-- What is read has a side. -/
theorem presence_ne_neither_of_ofHeld (h : ofHeld path (heldDigits document.value) = .ok a) :
    a.presence ≠ .neither := by
  rw [Ne, presence_eq_neither_iff]
  intro hall
  obtain ⟨⟨side, d, hd⟩, -, -⟩ := ofHeld_eq_ok_iff.mp h
  exact (side_of_ofHeld h side).2.mp (hall side) d (heldDigits_value_eq_some_iff.mp hd)

/-- **Artifacts are read exactly.** Let a file be readable and let a document stand in it. Its
bytecode is read exactly if digits are held for some side, and those that are held spell bytes.
Then each side has the bytes that are spelled for it, and none if nothing is held, and the presence
tells which sides these are. If nothing is held there is no bytecode. If a side is malformed it is
named, first the one that creates. And another file at the same path, with a document whose fields
for the two sides are the same ones or rewritten, whatever else it has, comes to the same. -/
theorem read_exact [Platform] (h : t.readFile path.text = .ok content)
    (hdocument : readBytesAs trees content = .ok document) :
    ((read t path).Returns ↔ (∃ side digits, Holds document side digits) ∧
      ∀ side digits, Holds document side digits → ∃ b, Hex.Spells digits b) ∧
    (∀ a, (read t path).outcome = .ok a →
      (∀ side b, a.side side = some b ↔
        ∃ digits, Holds document side digits ∧ Hex.Spells digits b) ∧
      (∀ side, a.side side = none ↔ ∀ digits, ¬Holds document side digits) ∧
      (∀ side, a.presence.has side = true ↔ a.side side ≠ none) ∧ a.presence ≠ .neither) ∧
    (read t path = fail (.artifactNoBytecode path) ↔ ∀ side digits, ¬Holds document side digits) ∧
    (Malformed document .creation →
      ∃ e, read t path = fail (.artifactHexInvalid path .creation e)) ∧
    (¬Malformed document .creation → Malformed document .deployed →
      ∃ e, read t path = fail (.artifactHexInvalid path .deployed e)) ∧
    (∀ (t' : FileTree) (content' : Bytes) (document' : Tree),
      t'.readFile path.text = .ok content' → readBytesAs trees content' = .ok document' →
      (∀ side : Side, Rewritten (document.member? side.field) (document'.member? side.field)) →
        read t' path = read t path) := by
  have hread := read_of_readFile h hdocument
  refine ⟨?_, fun a ha => ?_, ?_, ?_, ?_, ?_⟩
  · simp only [Returns, hread, outcome_ofExcept_eq_ok_iff]
    exact exists_ofHeld_iff path document
  · rw [hread, outcome_ofExcept_eq_ok_iff] at ha
    refine ⟨fun side => (side_of_ofHeld ha side).1, fun side => (side_of_ofHeld ha side).2,
      fun side => ?_, presence_ne_neither_of_ofHeld ha⟩
    rw [presence_has, Option.isSome_iff_ne_none]
  · simp only [← heldDigits_value_eq_none_iff]
    rw [hread, ofExcept_eq_fail_iff, ofHeld_eq_noBytecode_iff]
  · intro hcreation
    obtain ⟨d, e, hd, he⟩ := malformed_iff.mp hcreation
    exact ⟨e, by rw [hread, ofHeld_of_error_creation hd he, Run.ofExcept]⟩
  · intro hcreation hdeployed
    obtain ⟨o, ho⟩ := exists_decodeSide_of_not_malformed path hcreation
    obtain ⟨d, e, hd, he⟩ := malformed_iff.mp hdeployed
    exact ⟨e, by rw [hread, ofHeld_of_error_deployed ho hd he, Run.ofExcept]⟩
  · intro t' content' document' h' hdocument' hrewritten
    have hheld : heldDigits document.value = heldDigits document'.value :=
      funext fun side => heldDigits_of_rewritten (hrewritten side)
    rw [read_of_readFile h' hdocument', hread, hheld]

end Files

/-- A document in which the field of a side is written twice, first with an object that spells
nothing. -/
def writtenTwice : Text :=
  "\x7b\"bytecode\": \x7b\"object\": \"0\"\x7d, \"bytecode\": \"0xAb\"\x7d"

/-- A document with the same text in an object, and with another field in front. -/
def writtenInside : Text :=
  "\x7b\"abi\": [], \"bytecode\": \x7b\"object\": \"0xAb\"\x7d\x7d"

/-- A directory with one document, named `a`. -/
def documentTree (text : Text) : FileTree :=
  ⟨.directory [([97], .file (text.flatMap Utf8.encodeOne))], []⟩

/-- Both documents are read, and come to the same. -/
theorem read_writtenTwice :
    (read (documentTree writtenTwice) ⟨.relative, ["a"]⟩).Returns ∧
      read (documentTree writtenInside) ⟨.relative, ["a"]⟩ =
        read (documentTree writtenTwice) ⟨.relative, ["a"]⟩ := by
  have hread : ∀ content : Bytes, (FileTree.mk (.directory [([97], .file content)]) []).readFile
      (Path.text ⟨.relative, ["a"]⟩) = .ok content := fun content => by cbv
  have hdocument : readBytesAs trees (writtenTwice.flatMap Utf8.encodeOne) = .ok (.object
      [("bytecode", .object [("object", .text "0")]), ("bytecode", .text "0xAb")]) := by
    with_unfolding_all rfl
  have hdocument' : readBytesAs trees (writtenInside.flatMap Utf8.encodeOne) = .ok (.object
      [("abi", .list []), ("bytecode", .object [("object", .text "0xAb")])]) := by
    with_unfolding_all rfl
  obtain ⟨hreturns, -, -, -, -, hrewritten⟩ := read_exact (hread _) hdocument
  constructor
  · refine hreturns.mpr ⟨⟨.creation, "0xAb", .flat rfl⟩, ?_⟩
    rintro (_ | _) digits (h | ⟨h, hobject⟩)
    · cases h
      exact ⟨[0xAB], "0x", "Ab", .inr (.inl rfl), rfl, by decide⟩
    · cases h
      cases hobject
    · cases h
    · cases h
  · refine hrewritten _ _ _ (hread _) hdocument' ?_
    rintro (_ | _)
    · exact .wrapped "0xAb"
    · exact .same none

end Artifact

end RainMeta
