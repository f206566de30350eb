import RainMeta.Proofs.Build.Items
import RainMeta.Proofs.Cbor.Shortest
import RainMeta.Proofs.Envelope.PrefixFree
import RainMeta.Proofs.FileTree.Names

/-!
# What an assembly comes to

A deployer is assembled in eleven steps, one after another: its meta is loaded, four artifacts are
read and the sides that their roles need are taken from each, and the key is decoded. No step
looks at what an earlier one came to. So an assembly is described by what every step comes to
on its own.

* If no step fails, the record is put together of what the steps came to
  (`RainMeta.Deployer.Made`), and nothing else is returned.
* If some steps fail, the failure of the assembly is the first one in the list of all of them
  (`RainMeta.Deployer.failures`).

Steps follow each other by `bind`. What a run returns is taken through it by
`RainMeta.Run.ReturnsExactly.bind`, and the failure that it ends with by
`RainMeta.Run.FailsAs.bind`; for the latter nothing may crash, and what fails in the second run
must not depend on what the first one returned.

The bytecode hash of a record is the digest of an envelope around the deployed bytecode. The
bytecode stands in the envelope behind its length, so the length of the form tells that of the
bytecode, however long it is (`RainMeta.Envelope.deployerBytecode_injective`).
-/

namespace RainMeta

open Run

/-! ### What runs return and how they fail -/

namespace Run

variable {α β : Type}

/-- **A steady run returns exactly** what has a property. -/
structure ReturnsExactly (r : Run α) (P : α → Prop) : Prop where
  steady : r.Steady
  iff : ∀ a, r.outcome = .ok a ↔ P a

theorem ReturnsExactly.bind {r : Run α} {f : α → Run β} {P : α → Prop} {Q : α → β → Prop}
    (hr : ReturnsExactly r P) (hf : ∀ a, ReturnsExactly (f a) (Q a)) :
    ReturnsExactly (r >>= f) fun b => ∃ a, P a ∧ Q a b where
  steady := hr.steady.bind fun a => (hf a).steady
  iff b := by
    rw [Steady.outcome_bind_eq_ok_iff fun a => (hf a).steady]
    simp only [hr.iff, (hf _).iff]

/-- The failure that a run ends with, if it ends with one. -/
def failure? (r : Run α) : Option Failure :=
  match r.outcome with
  | .error (.failure cause) => some cause
  | _ => none

theorem failure?_eq_some_iff {r : Run α} {cause : Failure} :
    r.failure? = some cause ↔ r.outcome = .error (.failure cause) := by
  unfold failure?
  rcases r.outcome with (cause | cause) | a
  · simp
  · simp
  · simp

/-- What is made of the value of a run fails only if there is a value. -/
theorem failure?_bind_ofExcept {r : Run α} {f : α → Except Failure β} {x : Option Failure}
    (hok : ∀ a, r.outcome = .ok a → (ofExcept (f a)).failure? = x)
    (herror : ∀ fault, r.outcome = .error fault → x = none) :
    (r >>= fun a => ofExcept (f a)).failure? = r.failure?.or x := by
  rw [failure?, failure?, Steady.outcome_bind r fun a => (quiet_ofExcept (f a)).steady]
  rcases h : r.outcome with (cause | cause) | a
  · rfl
  · rw [herror _ h]
    rfl
  · exact hok a h

/-- **A steady run fails as** something does that fails or not, and it never crashes. -/
structure FailsAs (r : Run α) (failed? : Option Failure) : Prop where
  steady : r.Steady
  not_crashes : ¬r.Crashes
  eq : r.failure? = failed?

/-- **Of two runs one after the other** the first one that fails decides. -/
theorem FailsAs.bind {r : Run α} {f : α → Run β} {x y : Option Failure} (hr : FailsAs r x)
    (hf : ∀ a, FailsAs (f a) y) : FailsAs (r >>= f) (x.or y) where
  steady := hr.steady.bind fun a => (hf a).steady
  not_crashes := by
    rw [Steady.crashes_bind_iff_of_not (fun a => (hf a).steady) fun a => (hf a).not_crashes]
    exact hr.not_crashes
  eq := by
    rw [← hr.eq, failure?, failure?, Steady.outcome_bind r fun a => (hf a).steady]
    rcases h : r.outcome with (cause | cause) | a
    · rfl
    · exact absurd ⟨cause, h⟩ hr.not_crashes
    · exact (hf a).eq

theorem FailsAs.map {r : Run α} {x : Option Failure} (hr : FailsAs r x) (f : α → β) :
    FailsAs (f <$> r) x where
  steady := hr.steady.map f
  not_crashes := by
    rw [crashes_map_iff]
    exact hr.not_crashes
  eq := by
    rw [← hr.eq, failure?, failure?, outcome_map]
    rcases r.outcome with (cause | cause) | a <;> rfl

/-- Every fault is the failure. -/
theorem FailsAs.outcome_eq_error_iff {r : Run α} {x : Option Failure} (h : FailsAs r x)
    {fault : Fault} :
    r.outcome = .error fault ↔ ∃ cause, fault = .failure cause ∧ x = some cause := by
  simp only [← h.eq, failure?_eq_some_iff]
  constructor
  · intro hr
    rcases fault with cause | cause
    · exact ⟨cause, rfl, hr⟩
    · exact absurd ⟨cause, hr⟩ h.not_crashes
  · rintro ⟨cause, rfl, hr⟩
    exact hr

end Run

/-! ### The form of a deployer's bytecode -/

theorem Cbor.widthOf_mono {m n : Nat} (h : m ≤ n) : widthOf m ≤ widthOf n := by
  unfold widthOf
  grind

namespace Envelope

/-- The bytecode in its form: between bytes that are the same for all, behind its length. -/
theorem exists_encode_deployerBytecode :
    ∃ before after : Bytes, ∀ b,
      (deployerBytecode b).encode = before ++ (Cbor.head 2 b.length ++ b) ++ after := by
  refine ⟨Cbor.head 5 3 ++ (Cbor.Item.int 0).encode, Cbor.encodeEntries
    [(.int 1, .int Magic.deployerBytecode.number), (.int 2, .text ContentType.octetStream.name)],
    fun b => ?_⟩
  have hfields : (deployerBytecode b).entries = [(.int 0, .bytes b),
      (.int 1, .int Magic.deployerBytecode.number), (.int 2, .text ContentType.octetStream.name)] :=
    rfl
  simp only [encode, toItem, hfields,
    Cbor.Item.encode, Cbor.encodeEntries, List.length_cons, List.length_nil, List.append_assoc]

/-- **No two bytecodes have one form**, however long they are. -/
theorem deployerBytecode_injective {b b' : Bytes}
    (h : (deployerBytecode b).encode = (deployerBytecode b').encode) : b = b' := by
  obtain ⟨before, after, hform⟩ := exists_encode_deployerBytecode
  rw [hform, hform, List.append_left_inj, List.append_right_inj] at h
  have hlength : b.length = b'.length := by
    have hl := congrArg List.length h
    simp only [List.length_append, Cbor.length_head] at hl
    rcases Nat.le_total b.length b'.length with hle | hle
    · have := Cbor.widthOf_mono hle
      omega
    · have := Cbor.widthOf_mono hle
      omega
  rwa [hlength, List.append_right_inj] at h

theorem hash_deployerBytecode_eq_iff {b b' : Bytes} :
    (deployerBytecode b).hash = (deployerBytecode b').hash ↔
      b = b' ∨ Collide (deployerBytecode b) (deployerBytecode b') := by
  constructor
  · intro h
    by_cases hb : b = b'
    · exact Or.inl hb
    · exact Or.inr ⟨fun he => hb (deployerBytecode_injective he), h⟩
  · rintro (rfl | hc)
    · rfl
    · exact hc.2

end Envelope

/-! ### Artifacts -/

namespace Artifact

variable [Platform]

theorem outcome_readDocument_eq_ok_iff {path : Path} {content : Bytes} {document : Value} :
    (readDocument path content).outcome = .ok document ↔ Json.readBytes content = .ok document := by
  unfold readDocument
  rcases Json.readBytes content with (cause | cause | cause | _) | v
  · simp
  · simp
  · simp
  · simp
  · simp

/-- **An artifact is read** if its file holds a document that holds it. -/
theorem outcome_read_eq_ok_iff {t : FileTree} {path : Path} {a : Artifact} :
    (read t path).outcome = .ok a ↔ ∃ content, t.readFile path.text = .ok content ∧
      ∃ document, Json.readBytes content = .ok document ∧ ofDocument path document = .ok a := by
  have hsteady : ∀ content, (readDocument path content >>= fun document =>
      ofExcept (ofDocument path document)).Steady := fun content =>
    (quiet_readDocument path content).steady.bind fun document => (quiet_ofExcept _).steady
  rw [read_eq, Steady.outcome_bind_eq_ok_iff hsteady]
  simp only [outcome_access_eq_ok_iff, outcome_bind_ofExcept_eq_ok_iff,
    outcome_readDocument_eq_ok_iff]

/-- The same without the document, as documents cannot be compared. -/
theorem outcome_read_of_holds {t : FileTree} {path : Path} {content : Bytes} {a : Artifact}
    (hread : t.readFile path.text = .ok content)
    (h : ((Json.readBytes content).toOption.bind fun document =>
      (ofDocument path document).toOption) = some a) : (read t path).outcome = .ok a := by
  obtain ⟨document, hdocument, ha⟩ := Option.bind_eq_some_iff.mp h
  exact outcome_read_eq_ok_iff.mpr ⟨content, hread, document,
    Except.eq_ok_of_toOption hdocument, Except.eq_ok_of_toOption ha⟩

omit [Platform] in
theorem path_of_ofDocument {path : Path} {document : Value} {a : Artifact}
    (h : ofDocument path document = .ok a) : a.path = path := by
  rw [ofDocument] at h
  split at h
  · cases h
  · rcases hc : decodeSide path .creation (heldDigits document .creation) with cause | creation
    · rw [hc] at h
      cases h
    rcases hd : decodeSide path .deployed (heldDigits document .deployed) with cause | deployed
    · rw [hc, hd] at h
      cases h
    rw [hc, hd] at h
    cases h
    rfl

theorem path_of_read {t : FileTree} {path : Path} {a : Artifact}
    (h : (read t path).outcome = .ok a) : a.path = path := by
  obtain ⟨content, -, document, -, ha⟩ := outcome_read_eq_ok_iff.mp h
  exact path_of_ofDocument ha

theorem not_ruins_of_read {t : FileTree} {path : Path} {a : Artifact}
    (h : (read t path).outcome = .ok a) : ¬Ruins t path := by
  rw [← crashes_read_iff]
  rintro ⟨cause, hc⟩
  rw [hc] at h
  cases h

end Artifact

/-! ### Steps -/

namespace Deployer

/-- The first failure among those of several steps. -/
def first (steps : List (Option Failure)) : Option Failure :=
  steps.findSome? id

theorem first_append (steps rest : List (Option Failure)) :
    first (steps ++ rest) = (first steps).or (first rest) :=
  List.findSome?_append

theorem first_cons (step : Option Failure) (rest : List (Option Failure)) :
    first (step :: rest) = step.or (first rest) := by
  rw [first, List.findSome?_cons]
  cases step <;> rfl

theorem first_singleton (step : Option Failure) : first [step] = step :=
  List.findSome?_singleton

theorem returnsExactly_loadedMeta (t : FileTree) (entry : MetaEntry) :
    ReturnsExactly (LoadedMeta.ofBytes <$> MetaFile.read t entry) fun m =>
      (MetaFile.read t entry).outcome = .ok m.bytes ∧ m.hash = keccak256 m.bytes where
  steady := ((MetaFile.quiet_read t entry).map _).steady
  iff m := by
    rw [outcome_map]
    rcases (MetaFile.read t entry).outcome with fault | b
    · simp [Except.map]
    · simp only [Except.map, LoadedMeta.ofBytes, Except.ok.injEq]
      constructor
      · rintro rfl
        exact ⟨rfl, rfl⟩
      · rintro ⟨rfl, hhash⟩
        rw [← hhash]

section Assemble

variable [Platform]

/-- **A file has a side** of an artifact. -/
def HasSide (t : FileTree) (path : Path) (side : Side) (b : Bytes) : Prop :=
  ∃ a, (Artifact.read t path).outcome = .ok a ∧ a.side side = some b

/-- The failure of a file that holds an artifact but lacks the side that a role needs of it. -/
def lacking (t : FileTree) (path : Path) (role : Text) (side : Side) : Option Failure :=
  match (Artifact.read t path).outcome with
  | .ok a => if (a.side side).isSome then none else some (.bytecodeMissing path side role)
  | .error _ => none

/-- The failures of the steps that concern one artifact: it is read, and then its sides are
taken one after another. -/
def partFailures (t : FileTree) (path : Path) (role : Text) (sides : List Side) :
    List (Option Failure) :=
  (Artifact.read t path).failure? :: sides.map (lacking t path role)

/-- The failure of a key that is no hexadecimal number. -/
def keyFailure? (key : Text) : Option Failure :=
  match Hex.decode key with
  | .ok _ => none
  | .error cause => some (.deployerKeyInvalid key cause)

/-- **The failures of all steps of an assembly**, in order, each one as it is on its own. -/
def failures (t : FileTree) (key : Text) (d : DeployerConfig) : List (Option Failure) :=
  [(MetaFile.read t d.constructionMeta).failure?] ++
    partFailures t d.expressionDeployer "expression deployer" [.creation, .deployed] ++
    partFailures t d.parser "parser" [.deployed] ++ partFailures t d.store "store" [.deployed] ++
    partFailures t d.interpreter "interpreter" [.deployed] ++ [keyFailure? key]

/-- **The record is made** of what the steps of its assembly come to. -/
structure Made (t : FileTree) (key : Text) (d : DeployerConfig) (record : DeployerRecord) :
    Prop where
  metaBytes : (MetaFile.read t d.constructionMeta).outcome = .ok record.metaBytes
  metaHash : record.metaHash = keccak256 record.metaBytes
  bytecode : HasSide t d.expressionDeployer .creation record.bytecode
  bytecodeMetaHash : ∃ deployed, HasSide t d.expressionDeployer .deployed deployed ∧
    record.bytecodeMetaHash = keccak256 (Envelope.deployerBytecode deployed).encode
  parserBytecode : HasSide t d.parser .deployed record.parserBytecode
  storeBytecode : HasSide t d.store .deployed record.storeBytecode
  interpreterBytecode : HasSide t d.interpreter .deployed record.interpreterBytecode
  txHash : Hex.decode key = .ok record.txHash

/-- **Nothing crashes an assembly**: all its paths can be used, and each of its artifacts that
can be accessed is a document that can be read or is refused as malformed. -/
structure Sound (t : FileTree) (d : DeployerConfig) : Prop where
  constructionMeta : d.constructionMeta.path.Usable
  expressionDeployer : ¬Artifact.Ruins t d.expressionDeployer
  parser : ¬Artifact.Ruins t d.parser
  store : ¬Artifact.Ruins t d.store
  interpreter : ¬Artifact.Ruins t d.interpreter

/-! #### One artifact -/

theorem HasSide.unique {t : FileTree} {path : Path} {side : Side} {b b' : Bytes}
    (h : HasSide t path side b) (h' : HasSide t path side b') : b = b' := by
  obtain ⟨a, ha, hb⟩ := h
  obtain ⟨a', ha', hb'⟩ := h'
  rw [ha, Except.ok.injEq] at ha'
  rw [← ha', hb, Option.some.injEq] at hb'
  exact hb'

theorem returnsExactly_bytecodeOf (t : FileTree) (path : Path) (side : Side) (role : Text) :
    ReturnsExactly (bytecodeOf t path side role) (HasSide t path side) where
  steady := (quiet_bytecodeOf t path side role).steady
  iff b := by
    rw [bytecodeOf_eq, outcome_bind_ofExcept_eq_ok_iff]
    simp only [Artifact.require_eq_ok_iff, HasSide]

theorem returnsExactly_bothSidesOf (t : FileTree) (path : Path) (role : Text) :
    ReturnsExactly (bothSidesOf t path role) fun p =>
      HasSide t path .creation p.1 ∧ HasSide t path .deployed p.2 where
  steady := (quiet_bothSidesOf t path role).steady
  iff p := by
    rw [bothSidesOf_eq, outcome_bind_ofExcept_eq_ok_iff]
    simp only [Artifact.requireBoth_eq_ok_iff, HasSide]
    rcases (Artifact.read t path).outcome with fault | a
    · simp
    · simp

theorem lacking_of_error {t : FileTree} {path : Path} {fault : Fault}
    (h : (Artifact.read t path).outcome = .error fault) (role : Text) (side : Side) :
    lacking t path role side = none := by
  rw [lacking, h]

/-- A side is lacking where it cannot be taken. -/
theorem lacking_of_ok {t : FileTree} {path : Path} {a : Artifact}
    (h : (Artifact.read t path).outcome = .ok a) (role : Text) (side : Side) :
    lacking t path role side = (ofExcept (a.require side role)).failure? := by
  simp only [lacking, h, Artifact.require, Artifact.path_of_read h]
  rcases a.side side with _ | b
  · rfl
  · rfl

theorem failsAs_bytecodeOf {t : FileTree} {path : Path} (h : ¬Artifact.Ruins t path) (side : Side)
    (role : Text) :
    FailsAs (bytecodeOf t path side role) (first (partFailures t path role [side])) where
  steady := (quiet_bytecodeOf t path side role).steady
  not_crashes := mt (crashesIff_bytecodeOf t path side role).iff.mp h
  eq := by
    rw [bytecodeOf_eq, partFailures, first_cons, List.map_singleton, first_singleton]
    exact failure?_bind_ofExcept (fun a ha => (lacking_of_ok ha role side).symm)
      fun fault hf => lacking_of_error hf role side

theorem failsAs_bothSidesOf {t : FileTree} {path : Path} (h : ¬Artifact.Ruins t path)
    (role : Text) :
    FailsAs (bothSidesOf t path role)
      (first (partFailures t path role [.creation, .deployed])) where
  steady := (quiet_bothSidesOf t path role).steady
  not_crashes := mt (crashesIff_bothSidesOf t path role).iff.mp h
  eq := by
    rw [bothSidesOf_eq, partFailures, first_cons, List.map_cons, List.map_singleton, first_cons,
      first_singleton]
    refine failure?_bind_ofExcept (fun a ha => ?_) fun fault hf => ?_
    · rw [lacking_of_ok ha, lacking_of_ok ha, Artifact.requireBoth]
      rcases a.require .creation role with cause | creation
      · rfl
      · rcases a.require .deployed role with cause | deployed <;> rfl
    · rw [lacking_of_error hf, lacking_of_error hf]
      rfl

/-! #### All steps -/

/-- **What an assembly returns** is the record that is made of its steps. -/
theorem outcome_assemble_eq_ok_iff {t : FileTree} {key : Text} {d : DeployerConfig}
    {record : DeployerRecord} :
    (assemble t key d).outcome = .ok record ↔ Made t key d record := by
  have hexact : ReturnsExactly (assemble t key d) fun record =>
      ∃ m : LoadedMeta, ((MetaFile.read t d.constructionMeta).outcome = .ok m.bytes ∧
        m.hash = keccak256 m.bytes) ∧ ∃ p : Bytes × Bytes,
      (HasSide t d.expressionDeployer .creation p.1 ∧
        HasSide t d.expressionDeployer .deployed p.2) ∧
      ∃ parser, HasSide t d.parser .deployed parser ∧
      ∃ store, HasSide t d.store .deployed store ∧
      ∃ interpreter, HasSide t d.interpreter .deployed interpreter ∧
      ∃ txHash, Hex.decode key = .ok txHash ∧ record =
        { metaHash := m.hash, metaBytes := m.bytes, bytecode := p.1, parserBytecode := parser,
          storeBytecode := store, interpreterBytecode := interpreter,
          bytecodeMetaHash := (Envelope.deployerBytecode p.2).hash, txHash } := by
    refine (returnsExactly_loadedMeta t _).bind fun constructionMeta => ?_
    refine (returnsExactly_bothSidesOf t _ _).bind fun ⟨bytecode, deployed⟩ => ?_
    refine (returnsExactly_bytecodeOf t _ _ _).bind fun parserBytecode => ?_
    refine (returnsExactly_bytecodeOf t _ _ _).bind fun storeBytecode => ?_
    refine (returnsExactly_bytecodeOf t _ _ _).bind fun interpreterBytecode => ?_
    rcases Hex.decode key with cause | txHash
    · exact ⟨(quiet_fail _).steady, fun record => by simp⟩
    · refine ⟨(Quiet.bind (quiet_record rfl) fun _ => quiet_pure _).steady, fun record => ?_⟩
      simp only [Except.ok.injEq, exists_eq_left']
      exact ⟨fun h => (Except.ok.inj h).symm, fun h => congrArg Except.ok h.symm⟩
  rw [hexact.iff]
  constructor
  · rintro ⟨m, ⟨hmeta, hhash⟩, p, ⟨hcreation, hdeployed⟩, parser, hparser, store, hstore,
      interpreter, hinterpreter, txHash, hkey, rfl⟩
    exact ⟨hmeta, hhash, hcreation, ⟨p.2, hdeployed, rfl⟩, hparser, hstore, hinterpreter, hkey⟩
  · rintro ⟨hmeta, hhash, hcreation, ⟨deployed, hdeployed, hdigest⟩, hparser, hstore,
      hinterpreter, hkey⟩
    refine ⟨⟨record.metaHash, record.metaBytes⟩, ⟨hmeta, hhash⟩, ⟨record.bytecode, deployed⟩,
      ⟨hcreation, hdeployed⟩, _, hparser, _, hstore, _, hinterpreter, _, hkey, ?_⟩
    rw [Envelope.hash, ← hdigest]

theorem provides_singleton_iff {t : FileTree} {path : Path} {side : Side} :
    Provides t path [side] ↔ ∃ b, HasSide t path side b := by
  rw [← exists_bytecodeOf_iff t path side []]
  simp only [(returnsExactly_bytecodeOf t path side []).iff]

theorem provides_both_iff {t : FileTree} {path : Path} :
    Provides t path [.creation, .deployed] ↔
      (∃ b, HasSide t path .creation b) ∧ ∃ b, HasSide t path .deployed b := by
  rw [← exists_bothSidesOf_iff t path []]
  simp only [(returnsExactly_bothSidesOf t path []).iff, Prod.exists, exists_and_left,
    exists_and_right]

/-- A record can be made if every step comes to something. -/
theorem exists_made_iff {t : FileTree} {key : Text} {d : DeployerConfig} :
    (∃ record, Made t key d record) ↔ (MetaFile.read t d.constructionMeta).Returns ∧
      (∀ part ∈ parts d, Provides t part.1 part.2) ∧ ∃ txHash, Hex.decode key = .ok txHash := by
  simp only [parts, List.forall_mem_cons, List.not_mem_nil, false_implies, implies_true, and_true,
    provides_both_iff, provides_singleton_iff]
  constructor
  · rintro ⟨record, h⟩
    obtain ⟨deployed, hdeployed, -⟩ := h.bytecodeMetaHash
    exact ⟨⟨_, h.metaBytes⟩, ⟨⟨⟨_, h.bytecode⟩, _, hdeployed⟩, ⟨_, h.parserBytecode⟩,
      ⟨_, h.storeBytecode⟩, _, h.interpreterBytecode⟩, _, h.txHash⟩
  · rintro ⟨⟨b, hmeta⟩, ⟨⟨⟨bytecode, hcreation⟩, deployed, hdeployed⟩, ⟨parser, hparser⟩,
      ⟨store, hstore⟩, interpreter, hinterpreter⟩, txHash, hkey⟩
    exact ⟨⟨keccak256 b, b, bytecode, parser, store, interpreter,
      keccak256 (Envelope.deployerBytecode deployed).encode, txHash⟩, hmeta, rfl, hcreation,
      ⟨deployed, hdeployed, rfl⟩, hparser, hstore, hinterpreter, hkey⟩

/-- **Two records share their bytecode hash** only if the deployed bytecodes are equal, or if the
digests of different envelopes are. -/
theorem Made.bytecodeMetaHash_eq_iff {t t' : FileTree} {key key' : Text} {d d' : DeployerConfig}
    {record record' : DeployerRecord} (h : Made t key d record) (h' : Made t' key' d' record')
    {b b' : Bytes} (hb : HasSide t d.expressionDeployer .deployed b)
    (hb' : HasSide t' d'.expressionDeployer .deployed b') :
    record.bytecodeMetaHash = record'.bytecodeMetaHash ↔
      b = b' ∨ Envelope.Collide (.deployerBytecode b) (.deployerBytecode b') := by
  obtain ⟨deployed, hdeployed, hhash⟩ := h.bytecodeMetaHash
  obtain ⟨deployed', hdeployed', hhash'⟩ := h'.bytecodeMetaHash
  rw [hhash, hhash', hb.unique hdeployed, hb'.unique hdeployed']
  exact Envelope.hash_deployerBytecode_eq_iff

/-- **An assembly fails as the first of its steps that fails**, if nothing crashes it. -/
theorem failsAs_assemble {t : FileTree} {d : DeployerConfig} (h : Sound t d) (key : Text) :
    FailsAs (assemble t key d) (first (failures t key d)) := by
  have hmeta : FailsAs (LoadedMeta.ofBytes <$> MetaFile.read t d.constructionMeta)
      (MetaFile.read t d.constructionMeta).failure? :=
    FailsAs.map ⟨(MetaFile.quiet_read t _).steady,
      mt (MetaFile.crashes_read_iff t _).mp (not_not.mpr h.constructionMeta), rfl⟩ _
  simp only [failures, List.append_assoc, first_append, first_singleton]
  refine hmeta.bind fun constructionMeta => ?_
  refine (failsAs_bothSidesOf h.expressionDeployer _).bind fun ⟨bytecode, deployed⟩ => ?_
  refine (failsAs_bytecodeOf h.parser _ _).bind fun parserBytecode => ?_
  refine (failsAs_bytecodeOf h.store _ _).bind fun storeBytecode => ?_
  refine (failsAs_bytecodeOf h.interpreter _ _).bind fun interpreterBytecode => ?_
  rw [keyFailure?]
  rcases Hex.decode key with cause | txHash
  · exact ⟨(quiet_fail _).steady, not_crashes_fail _, rfl⟩
  · refine ⟨(Quiet.bind (quiet_record rfl) fun _ => quiet_pure _).steady, ?_, rfl⟩
    rintro ⟨cause, ⟨⟩⟩

/-! ### Assemblies -/

/-- **What an assembly comes to**, whatever its files hold that crashes nothing.

* It returns a record exactly if its meta can be loaded, its artifacts provide the sides that are
  needed of them, and its key can be decoded.
* The record is the one that is made of what the steps come to.
* Otherwise it ends with the failure of the first step that fails, and with nothing else.
* It shares its bytecode hash with the record of any other assembly exactly if the deployed
  bytecodes are equal or the digests of their envelopes collide. -/
theorem assemble_exact {t : FileTree} {d : DeployerConfig} (h : Sound t d) (key : Text) :
    ((assemble t key d).Returns ↔ (MetaFile.read t d.constructionMeta).Returns ∧
      (∀ part ∈ parts d, Provides t part.1 part.2) ∧ ∃ txHash, Hex.decode key = .ok txHash) ∧
    (∀ record, (assemble t key d).outcome = .ok record ↔ Made t key d record) ∧
    (∀ fault, (assemble t key d).outcome = .error fault ↔
      ∃ cause, fault = .failure cause ∧ first (failures t key d) = some cause) ∧
    ∀ record, (assemble t key d).outcome = .ok record → ∀ t' key' d' record',
      (assemble t' key' d').outcome = .ok record' → ∀ b b',
      HasSide t d.expressionDeployer .deployed b → HasSide t' d'.expressionDeployer .deployed b' →
        (record.bytecodeMetaHash = record'.bytecodeMetaHash ↔
          b = b' ∨ Envelope.Collide (.deployerBytecode b) (.deployerBytecode b')) := by
  refine ⟨?_, fun record => outcome_assemble_eq_ok_iff,
    fun fault => (failsAs_assemble h key).outcome_eq_error_iff, ?_⟩
  · rw [Returns]
    simp only [outcome_assemble_eq_ok_iff]
    exact exists_made_iff
  · intro record hr t' key' d' record' hr' b b' hb hb'
    rw [outcome_assemble_eq_ok_iff] at hr hr'
    exact hr.bytecodeMetaHash_eq_iff hr' hb hb'

end Assemble

/-- A document with both sides of an artifact. -/
def bothSides : Text :=
  "\x7b\"bytecode\": \"0x01\", \"deployedBytecode\": \x7b\"object\": \"02\"\x7d\x7d"

/-- A document without the deployed side. -/
def creationSide : Text :=
  "\x7b\"bytecode\": \"01\"\x7d"

/-- A directory with a meta `m` and the two documents `a` and `b`. -/
def artifactTree : FileTree :=
  { root := .directory [([109], .file [7]), ([97], .file (bothSides.flatMap Utf8.encodeOne)),
      ([98], .file (creationSide.flatMap Utf8.encodeOne))]
    workingDirectory := [] }

/-- The deployer that has the artifact in `a` in all its roles. -/
def smallDeployer : DeployerConfig :=
  { constructionMeta := .binary ⟨.relative, ["m"]⟩, expressionDeployer := ⟨.relative, ["a"]⟩
    parser := ⟨.relative, ["a"]⟩, store := ⟨.relative, ["a"]⟩
    interpreter := ⟨.relative, ["a"]⟩ }

/-- The same with a parser that lacks the side it needs. -/
def lackingDeployer : DeployerConfig :=
  { smallDeployer with parser := ⟨.relative, ["b"]⟩ }

theorem read_bothSides : (Artifact.read artifactTree ⟨.relative, ["a"]⟩).outcome =
    .ok ⟨⟨.relative, ["a"]⟩, some [1], some [2]⟩ :=
  have hread : artifactTree.readFile (Path.text ⟨.relative, ["a"]⟩) =
      .ok (bothSides.flatMap Utf8.encodeOne) :=
    FileTree.readFile_name rfl (by decide) (by decide) rfl
  Artifact.outcome_read_of_holds hread (by decide +kernel)

theorem read_creationSide : (Artifact.read artifactTree ⟨.relative, ["b"]⟩).outcome =
    .ok ⟨⟨.relative, ["b"]⟩, some [1], none⟩ :=
  have hread : artifactTree.readFile (Path.text ⟨.relative, ["b"]⟩) =
      .ok (creationSide.flatMap Utf8.encodeOne) :=
    FileTree.readFile_name rfl (by decide) (by decide) rfl
  Artifact.outcome_read_of_holds hread (by decide +kernel)

theorem read_smallMeta :
    (MetaFile.read artifactTree (.binary ⟨.relative, ["m"]⟩)).outcome = .ok [7] := by
  have hread : artifactTree.readFile (Path.text ⟨.relative, ["m"]⟩) = .ok [7] :=
    FileTree.readFile_name rfl (by decide) (by decide) rfl
  rw [MetaFile.read, MetaEntry.path, hread]
  rfl

theorem sound_smallDeployer : Sound artifactTree smallDeployer :=
  have h := Artifact.not_ruins_of_read read_bothSides
  ⟨by decide, h, h, h, h⟩

theorem sound_lackingDeployer : Sound artifactTree lackingDeployer :=
  { sound_smallDeployer with parser := Artifact.not_ruins_of_read read_creationSide }

/-- The small deployer has a record, in which the sides are told apart. If its parser lacks the
side that it needs, that is the failure, though the key is no hexadecimal number either. -/
theorem assemble_smallDeployer :
    Sound artifactTree smallDeployer ∧ Sound artifactTree lackingDeployer ∧
    (∃ record, (assemble artifactTree "0x00" smallDeployer).outcome = .ok record ∧
      record.bytecode = [1] ∧ record.parserBytecode = [2] ∧ record.txHash = [0]) ∧
    (assemble artifactTree "0" lackingDeployer).outcome =
      .error (.failure (.bytecodeMissing ⟨.relative, ["b"]⟩ .deployed "parser")) := by
  refine ⟨sound_smallDeployer, sound_lackingDeployer, ?_, ?_⟩
  · obtain ⟨hreturns, hmade, -⟩ := assemble_exact sound_smallDeployer "0x00"
    have hcreation : HasSide artifactTree ⟨.relative, ["a"]⟩ .creation [1] :=
      ⟨_, read_bothSides, rfl⟩
    have hdeployed : HasSide artifactTree ⟨.relative, ["a"]⟩ .deployed [2] :=
      ⟨_, read_bothSides, rfl⟩
    have hboth := provides_both_iff.mpr ⟨⟨_, hcreation⟩, _, hdeployed⟩
    have hone := provides_singleton_iff.mpr ⟨_, hdeployed⟩
    have hkey : Hex.decode "0x00" = .ok [0] := by decide
    obtain ⟨record, hr⟩ := hreturns.mpr
      ⟨⟨_, read_smallMeta⟩, by simp [parts, smallDeployer, hboth, hone], _, hkey⟩
    have h := (hmade record).mp hr
    rw [h.txHash, Except.ok.injEq] at hkey
    exact ⟨record, hr, h.bytecode.unique hcreation, h.parserBytecode.unique hdeployed, hkey⟩
  · refine ((assemble_exact sound_lackingDeployer "0").2.2.1 _).mpr ⟨_, rfl, ?_⟩
    simp only [failures, partFailures, List.map_cons, List.map_nil, lacking, failure?,
      lackingDeployer, smallDeployer, read_bothSides, read_creationSide, read_smallMeta]
    rfl

end Deployer

end RainMeta
