import RainMeta.Proofs.Build.Stages
import RainMeta.Proofs.FileTree.Usable
import RainMeta.Proofs.Run.Steady

/-!
# What concerns one item of a build

Every reader of a build is made alike: it accesses a file, and makes something of the content
without looking at anything else. So for each of them two things are said.

* What it returns: an equation takes it apart into the access and what is made of the content
  (`RainMeta.Scan.readDotrain_eq`, `RainMeta.MetaFile.read_eq`, `RainMeta.Artifact.read_eq`).
* When it crashes: if the access fails for good, that is, if the path cannot be used
  (`RainMeta.Scan.crashes_readDotrain_iff`, `RainMeta.MetaFile.crashes_read_iff`). An artifact may
  also hold a document that cannot be read at all (`RainMeta.Artifact.Ruins`).

A deployer is assembled from five files, one after another, and the first one that fails or
crashes ends the assembly (`RainMeta.Deployer.crashesIff_assemble`).
-/

namespace RainMeta

open Run

namespace Run

variable {α : Type}

/-- **An access crashes a run** if it fails for good. -/
theorem crashes_access_iff (failure : OsError → Failure) (a : Except AccessError α) :
    (access failure a).Crashes ↔ FileTree.Fatal a := by
  rcases a with (cause | _ | cause) | a
  · exact iff_of_false (not_crashes_fail _) (FileTree.not_fatal_os cause)
  · exact iff_of_true (crashes_crash _) FileTree.fatal_embeddedNul
  · exact iff_of_true (crashes_crash _) (FileTree.fatal_unencodable cause)
  · exact iff_of_false (not_crashes_pure a) (FileTree.not_fatal_ok a)

theorem outcome_access_eq_ok_iff {failure : OsError → Failure} {x : Except AccessError α} {a : α} :
    (access failure x).outcome = .ok a ↔ x = .ok a := by
  rcases x with (cause | _ | cause) | b
  · simp [access]
  · simp [access]
  · simp [access]
  · simp [access]

theorem crashes_access_readFile_iff (failure : OsError → Failure) (t : FileTree) (path : Path) :
    (access failure (t.readFile path.text)).Crashes ↔ ¬path.Usable :=
  (crashes_access_iff failure _).trans (FileTree.fatal_readFile_iff t path.text)

end Run

/-! ### Dotrains -/

namespace Scan

/-- The dotrain that the content of a file spells. -/
def dotrainOf (path : Path) (content : Bytes) : Except Failure DotrainFile :=
  match Utf8.decode content with
  | .error e => .error (.dotrainNotUtf8 path e.reason)
  | .ok text => .ok { path, text }

theorem readDotrain_eq (t : FileTree) (path : Path) :
    readDotrain t path = access (.dotrainUnreadable path) (t.readFile path.text) >>=
      fun content => ofExcept (dotrainOf path content) := by
  refine bind_congr fun content => ?_
  unfold dotrainOf
  rcases Utf8.decode content with e | text
  · rfl
  · rfl

theorem crashes_readDotrain_iff (t : FileTree) (path : Path) :
    (readDotrain t path).Crashes ↔ ¬path.Usable := by
  rw [readDotrain_eq, crashes_bind_ofExcept_iff, crashes_access_readFile_iff]

end Scan

/-! ### Metas -/

namespace MetaFile

/-- The bytes of a meta that the content of its file gives. -/
def bytesOf (content : Bytes) : MetaEntry → Except Failure Bytes
  | .binary _ => .ok content
  | .hex path => decodeHex path content

theorem read_eq (t : FileTree) (entry : MetaEntry) :
    read t entry = access (.metaUnreadable entry.path) (t.readFile entry.path.text) >>=
      fun content => ofExcept (bytesOf content entry) := by
  refine bind_congr fun content => ?_
  cases entry with
  | binary path => rfl
  | hex path =>
    dsimp only [bytesOf]
    rcases decodeHex path content with cause | b
    · rfl
    · rfl

theorem crashes_read_iff (t : FileTree) (entry : MetaEntry) :
    (read t entry).Crashes ↔ ¬entry.path.Usable := by
  rw [read_eq, crashes_bind_ofExcept_iff, crashes_access_readFile_iff]

end MetaFile

/-! ### Artifacts -/

/-- **A document cannot be read at all** if it holds an integer of too many digits or is nested
too deeply. -/
def Json.Fatal [Platform] (content : Bytes) : Prop :=
  (∃ cause, Json.readBytes content = .error (.digits cause)) ∨
    Json.readBytes content = .error .tooDeep

namespace Artifact

section Reading

variable [Platform]

theorem crashes_readDocument_iff (path : Path) (content : Bytes) :
    (readDocument path content).Crashes ↔ Json.Fatal content := by
  unfold readDocument Json.Fatal
  rcases Json.readBytes content with (cause | cause | cause | _) | document
  · exact iff_of_false (not_crashes_fail _) (by simp)
  · exact iff_of_false (not_crashes_fail _) (by simp)
  · exact iff_of_true (crashes_crash _) (by simp)
  · exact iff_of_true (crashes_crash _) (by simp)
  · exact iff_of_false (not_crashes_pure _) (by simp)

theorem read_eq (t : FileTree) (path : Path) :
    read t path = access (.artifactUnreadable path) (t.readFile path.text) >>= fun content =>
      readDocument path content >>= fun document => ofExcept (ofDocument path document) := by
  refine bind_congr fun content => bind_congr fun document => ?_
  rcases ofDocument path document with cause | a
  · rfl
  · rfl

/-- **A file ruins the assembly that comes to it** if its path cannot be used or its document
cannot be read at all. -/
def Ruins (t : FileTree) (path : Path) : Prop :=
  ¬path.Usable ∨ ∃ content, t.readFile path.text = .ok content ∧ Json.Fatal content

theorem crashes_read_iff (t : FileTree) (path : Path) : (read t path).Crashes ↔ Ruins t path := by
  have hsteady : ∀ content, (readDocument path content >>= fun document =>
      ofExcept (ofDocument path document)).Steady := fun content =>
    (quiet_readDocument path content).steady.bind fun document => (quiet_ofExcept _).steady
  rw [read_eq, Steady.crashes_bind_iff hsteady, crashes_access_readFile_iff, Ruins]
  simp only [outcome_access_eq_ok_iff, crashes_bind_ofExcept_iff, crashes_readDocument_iff]

end Reading

theorem require_eq_ok_iff {a : Artifact} {side : Side} (role : Text) {b : Bytes} :
    a.require side role = .ok b ↔ a.side side = some b := by
  unfold require
  rcases a.side side with _ | b'
  · simp
  · simp

/-- Both sides of an artifact, which its role needs. -/
def requireBoth (a : Artifact) (role : Text) : Except Failure (Bytes × Bytes) := do
  let creation ← a.require .creation role
  let deployed ← a.require .deployed role
  return (creation, deployed)

theorem requireBoth_eq_ok_iff {a : Artifact} {role : Text} {p : Bytes × Bytes} :
    a.requireBoth role = .ok p ↔
      a.side .creation = some p.1 ∧ a.side .deployed = some p.2 := by
  rw [← require_eq_ok_iff role, ← require_eq_ok_iff role, requireBoth]
  rcases a.require .creation role with cause | creation
  · exact iff_of_false (by rintro ⟨⟩) (by rintro ⟨⟨⟩, -⟩)
  rcases a.require .deployed role with cause | deployed
  · exact iff_of_false (by rintro ⟨⟩) (by rintro ⟨-, ⟨⟩⟩)
  · simp only [bind, Except.bind, pure, Except.pure, Except.ok.injEq, Prod.ext_iff]

end Artifact

/-! ### Deployers -/

namespace Deployer

variable [Platform]

theorem bytecodeOf_eq (t : FileTree) (path : Path) (side : Side) (role : Text) :
    bytecodeOf t path side role =
      Artifact.read t path >>= fun a => ofExcept (a.require side role) := by
  refine bind_congr fun a => ?_
  rcases a.require side role with cause | b
  · rfl
  · rfl

theorem bothSidesOf_eq (t : FileTree) (path : Path) (role : Text) :
    bothSidesOf t path role = Artifact.read t path >>= fun a => ofExcept (a.requireBoth role) := by
  refine bind_congr fun a => ?_
  rw [Artifact.requireBoth]
  rcases a.require .creation role with cause | creation
  · rfl
  rcases a.require .deployed role with cause | deployed
  · rfl
  · rfl

/-- **A file provides sides of an artifact** if it can be read and has them. -/
def Provides (t : FileTree) (path : Path) (sides : List Side) : Prop :=
  ∃ a, (Artifact.read t path).outcome = .ok a ∧ ∀ side ∈ sides, ∃ b, a.side side = some b

theorem exists_bytecodeOf_iff (t : FileTree) (path : Path) (side : Side) (role : Text) :
    (∃ b, (bytecodeOf t path side role).outcome = .ok b) ↔ Provides t path [side] := by
  simp only [bytecodeOf_eq, outcome_bind_ofExcept_eq_ok_iff, Artifact.require_eq_ok_iff, Provides,
    List.forall_mem_singleton]
  rw [exists_comm]
  simp only [exists_and_left]

theorem exists_bothSidesOf_iff (t : FileTree) (path : Path) (role : Text) :
    (∃ p, (bothSidesOf t path role).outcome = .ok p) ↔
      Provides t path [.creation, .deployed] := by
  simp only [bothSidesOf_eq, outcome_bind_ofExcept_eq_ok_iff, Artifact.requireBoth_eq_ok_iff,
    Provides, List.forall_mem_cons, List.not_mem_nil, false_implies, implies_true, and_true]
  rw [exists_comm]
  simp only [exists_and_left, Prod.exists, exists_and_right]

theorem crashesIff_bytecodeOf (t : FileTree) (path : Path) (side : Side) (role : Text) :
    CrashesIff (bytecodeOf t path side role) (Artifact.Ruins t path) where
  steady := (quiet_bytecodeOf t path side role).steady
  iff := by rw [bytecodeOf_eq, crashes_bind_ofExcept_iff, Artifact.crashes_read_iff]

theorem crashesIff_bothSidesOf (t : FileTree) (path : Path) (role : Text) :
    CrashesIff (bothSidesOf t path role) (Artifact.Ruins t path) where
  steady := (quiet_bothSidesOf t path role).steady
  iff := by rw [bothSidesOf_eq, crashes_bind_ofExcept_iff, Artifact.crashes_read_iff]

/-- The artifacts of a deployer in the order in which they are read, each with the sides that are
needed of it. -/
def parts (d : DeployerConfig) : List (Path × List Side) :=
  [(d.expressionDeployer, [.creation, .deployed]), (d.parser, [.deployed]), (d.store, [.deployed]),
    (d.interpreter, [.deployed])]

/-- **Artifacts ruin an assembly** if one of them does and those before it provide what is needed
of them. An artifact that fails ends the assembly, and those after it are never read. -/
def RuinedBy (t : FileTree) : List (Path × List Side) → Prop
  | [] => False
  | (path, sides) :: rest => Artifact.Ruins t path ∨ Provides t path sides ∧ RuinedBy t rest

/-- **A deployer ruins a build** if the path of its meta cannot be used, or if that meta can be
read and its artifacts ruin the assembly. -/
def Ruins (t : FileTree) (d : DeployerConfig) : Prop :=
  ¬d.constructionMeta.path.Usable ∨
    (∃ b, (MetaFile.read t d.constructionMeta).outcome = .ok b) ∧ RuinedBy t (parts d)

/-- **An assembly crashes** exactly if the deployer ruins a build. -/
theorem crashesIff_assemble (t : FileTree) (key : Text) (d : DeployerConfig) :
    CrashesIff (assemble t key d) (Ruins t d) := by
  have hmeta : CrashesIff (LoadedMeta.ofBytes <$> MetaFile.read t d.constructionMeta)
      (¬d.constructionMeta.path.Usable) :=
    ⟨((MetaFile.quiet_read t _).map _).steady,
      crashes_map_iff.trans (MetaFile.crashes_read_iff t _)⟩
  have hreturns : (∃ m, (LoadedMeta.ofBytes <$> MetaFile.read t d.constructionMeta).outcome =
      .ok m) ↔ ∃ b, (MetaFile.read t d.constructionMeta).outcome = .ok b := by
    rw [outcome_map]
    rcases (MetaFile.read t d.constructionMeta).outcome with fault | b
    · simp [Except.map]
    · simp [Except.map]
  refine hmeta.bind hreturns fun constructionMeta => ?_
  refine (crashesIff_bothSidesOf t _ _).bind (exists_bothSidesOf_iff t _ _)
    fun ⟨bytecode, deployed⟩ => ?_
  refine (crashesIff_bytecodeOf t _ _ _).bind (exists_bytecodeOf_iff t _ _ _)
    fun parserBytecode => ?_
  refine (crashesIff_bytecodeOf t _ _ _).bind (exists_bytecodeOf_iff t _ _ _)
    fun storeBytecode => ?_
  refine (crashesIff_bytecodeOf t _ _ _).bind (exists_bytecodeOf_iff t _ _ _)
    fun interpreterBytecode => ?_
  -- nothing is read any more
  rcases Hex.decode key with cause | txHash
  · exact ⟨(quiet_fail _).steady, iff_of_false (not_crashes_fail _) not_false⟩
  · refine ⟨(Quiet.bind (quiet_record rfl) fun _ => quiet_pure _).steady,
      iff_of_false ?_ not_false⟩
    rintro ⟨cause, ⟨⟩⟩

end Deployer

end RainMeta
