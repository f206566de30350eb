import RainMeta.Build
import RainMeta.Proofs.Run

/-!
# The stages of a build under the two policies

Each stage of a build goes through items – entries of directories, metas, deployers – and
catches the failures of each. So for each stage two things are said:

* what concerns one item is quiet (`RainMeta.Scan.quiet_readDotrain`,
  `RainMeta.MetaFile.quiet_read`, `RainMeta.Deployer.quiet_assemble`);
* the stage under the strict policy and the stage under the lenient one correspond
  (`RainMeta.Scan.corresponds_scanAll`, `RainMeta.MetaFile.corresponds_loadAll`,
  `RainMeta.Deployer.corresponds_assembleAll`).

The scan is the one stage that decides by what it found where it goes on. Its correspondence is
by induction along the strict scan, and holds because two runs that agree found the same and
have the same directories before them.
-/

namespace RainMeta

open Run

/-! ### The scan -/

namespace Scan

theorem quiet_readDotrain (t : FileTree) (path : Path) : (readDotrain t path).Quiet := by
  refine (quiet_access _ _).bind fun content => ?_
  split
  · exact quiet_fail _
  · exact quiet_pure _

theorem corresponds_inspect (t : FileTree) (dir : Path) (e : Entry) :
    Corresponds (inspect t .strict dir e) (inspect t .lenient dir e) := by
  refine (corresponds_skipping (quiet_access _ _) _ _).bind fun kind => ?_
  split
  · exact corresponds_pure _
  · split
    · refine (corresponds_skipping (quiet_readDotrain t _) _ _).bind fun file => ?_
      split
      · exact corresponds_pure _
      · exact corresponds_pure _
    · exact corresponds_pure _
  · exact corresponds_pure _

theorem corresponds_refuse (dir : Path) (cause : AccessError) :
    Corresponds (refuse .strict dir cause) (refuse .lenient dir cause) :=
  (corresponds_skipping (quiet_access _ _) _ _).bind fun _ => corresponds_pure ()

theorem scanFrom_of_error {t : FileTree} {dir : Path} {cause : AccessError}
    (h : entriesOf t dir = .error cause) (policy : Policy) (rest : List Path) :
    scanFrom t policy (dir :: rest) =
      refuse policy dir cause >>= fun _ => scanFrom t policy rest := by
  rw [scanFrom]
  split
  · next cause' h' =>
    rw [h] at h'
    cases h'
    rfl
  · next entries h' =>
    rw [h] at h'
    cases h'

theorem scanFrom_of_ok {t : FileTree} {dir : Path} {entries : List Entry}
    (h : entriesOf t dir = .ok entries) (policy : Policy) (rest : List Path) :
    scanFrom t policy (dir :: rest) =
      entries.mapM (inspect t policy dir) >>= fun found =>
        scanFrom t policy (subdirectories dir entries found ++ rest) >>= fun more =>
          pure (found.filterMap Found.dotrain? ++ more) := by
  rw [scanFrom]
  split
  · next cause' h' =>
    rw [h] at h'
    cases h'
  · next entries' h' =>
    rw [h] at h'
    cases h'
    rfl

/-- **Strict and lenient scans correspond**, whatever directories are yet to be visited. -/
theorem corresponds_scanFrom (t : FileTree) (pending : List Path) :
    Corresponds (scanFrom t .strict pending) (scanFrom t .lenient pending) := by
  induction pending using scanFrom.induct (t := t) with
  | case1 =>
    rw [scanFrom, scanFrom]
    exact corresponds_pure []
  | case2 dir rest cause h ih =>
    rw [scanFrom_of_error h, scanFrom_of_error h]
    exact (corresponds_refuse dir cause).bind fun _ => ih
  | case3 dir rest entries h ih =>
    rw [scanFrom_of_ok h, scanFrom_of_ok h]
    refine (Corresponds.mapM (corresponds_inspect t dir) entries).bind fun found => ?_
    exact (ih found).bind fun more => corresponds_pure _

theorem corresponds_scan (t : FileTree) (root : Path) :
    Corresponds (scan t .strict root) (scan t .lenient root) := by
  refine (corresponds_scanFrom t [root]).bind fun found => ?_
  exact (corresponds_record rfl rfl).bind fun _ => corresponds_pure found

theorem corresponds_scanAll (t : FileTree) (roots : List Path) :
    Corresponds (scanAll t .strict roots) (scanAll t .lenient roots) :=
  (Corresponds.mapM (corresponds_scan t) roots).bind fun found => corresponds_pure found.flatten

end Scan

/-! ### Metas -/

namespace MetaFile

theorem quiet_read (t : FileTree) (entry : MetaEntry) : (read t entry).Quiet := by
  refine (quiet_access _ _).bind fun content => ?_
  split
  · exact quiet_pure _
  · split
    · exact quiet_pure _
    · exact quiet_fail _

theorem corresponds_load (t : FileTree) (entry : MetaEntry) :
    Corresponds (load t .strict entry) (load t .lenient entry) :=
  corresponds_skipping ((quiet_read t entry).map _) _ _

theorem corresponds_loadAll (t : FileTree) (entries : List MetaEntry) :
    Corresponds (loadAll t .strict entries) (loadAll t .lenient entries) := by
  refine (Corresponds.mapM (corresponds_load t) entries).bind fun loaded => ?_
  exact (corresponds_record rfl rfl).bind fun _ => corresponds_pure loaded.reduceOption

end MetaFile

/-! ### Deployers -/

theorem Artifact.quiet_readDocument [Platform] (path : Path) (content : Bytes) :
    (readDocument path content).Quiet := by
  unfold readDocument
  split
  · exact quiet_pure _
  · exact quiet_fail _
  · exact quiet_fail _
  · exact quiet_crash _
  · exact quiet_crash _

theorem Artifact.quiet_read [Platform] (t : FileTree) (path : Path) : (read t path).Quiet := by
  refine (quiet_access _ _).bind fun content => ?_
  refine (quiet_readDocument path content).bind fun document => ?_
  split
  · exact quiet_pure _
  · exact quiet_fail _

namespace Deployer

variable [Platform]

theorem quiet_bytecodeOf (t : FileTree) (path : Path) (side : Side) (role : Text) :
    (bytecodeOf t path side role).Quiet := by
  refine (Artifact.quiet_read t path).bind fun artifact => ?_
  split
  · exact quiet_pure _
  · exact quiet_fail _

theorem quiet_bothSidesOf (t : FileTree) (path : Path) (role : Text) :
    (bothSidesOf t path role).Quiet := by
  refine (Artifact.quiet_read t path).bind fun artifact => ?_
  dsimp only
  split
  · exact quiet_pure _
  · exact quiet_fail _

theorem quiet_assemble (t : FileTree) (key : Text) (d : DeployerConfig) :
    (assemble t key d).Quiet := by
  refine ((MetaFile.quiet_read t _).map _).bind fun constructionMeta => ?_
  refine (quiet_bothSidesOf t _ _).bind fun ⟨bytecode, deployed⟩ => ?_
  refine (quiet_bytecodeOf t _ _ _).bind fun parserBytecode => ?_
  refine (quiet_bytecodeOf t _ _ _).bind fun storeBytecode => ?_
  refine (quiet_bytecodeOf t _ _ _).bind fun interpreterBytecode => ?_
  rcases Hex.decode key with cause | txHash
  · exact quiet_fail _
  · exact Quiet.bind (quiet_record rfl) fun _ => quiet_pure _

theorem corresponds_assembleAll (t : FileTree) (deployers : List (Text × DeployerConfig)) :
    Corresponds (assembleAll t .strict deployers) (assembleAll t .lenient deployers) := by
  refine (Corresponds.mapM ?_ deployers).bind fun records => corresponds_pure records.reduceOption
  rintro ⟨key, d⟩
  exact corresponds_skipping (quiet_assemble t key d) _ _

end Deployer

end RainMeta
