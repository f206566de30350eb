import RainMeta.Artifact
import RainMeta.MetaFile
import RainMeta.Store

/-!
# Assembling deployers

* `Deployer.assemble`: the record of a deployer, made from its meta and its artifacts. The
  first step that fails ends it, whatever the policy of the build is.
-/

namespace RainMeta.Deployer

variable [Platform]

/-- One side of an artifact in a file. -/
def bytecodeOf (t : FileTree) (path : Path) (side : Side) (role : Text) : Run Bytes := do
  let artifact ← Artifact.read t path
  match artifact.require side role with
  | .ok b => return b
  | .error cause => Run.fail cause

/-- Both sides of the expression deployer's artifact. -/
def bothSidesOf (t : FileTree) (path : Path) (role : Text) : Run (Bytes × Bytes) := do
  let artifact ← Artifact.read t path
  let sides : Except Failure (Bytes × Bytes) := do
    let creation ← artifact.require .creation role
    let deployed ← artifact.require .deployed role
    return (creation, deployed)
  match sides with
  | .ok sides => return sides
  | .error cause => Run.fail cause

/-- The record of a deployer. -/
def assemble (t : FileTree) (key : Text) (d : DeployerConfig) : Run DeployerRecord := do
  let constructionMeta ← LoadedMeta.ofBytes <$> MetaFile.read t d.constructionMeta
  let (bytecode, deployed) ← bothSidesOf t d.expressionDeployer "expression deployer"
  let parserBytecode ← bytecodeOf t d.parser .deployed "parser"
  let storeBytecode ← bytecodeOf t d.store .deployed "store"
  let interpreterBytecode ← bytecodeOf t d.interpreter .deployed "interpreter"
  match Hex.decode key with
  | .error cause => Run.fail (.deployerKeyInvalid key cause)
  | .ok txHash =>
    let bytecodeMetaHash := (Envelope.deployerBytecode deployed).hash
    Run.record (.deployerAssembled key bytecodeMetaHash)
    return {
      metaHash := constructionMeta.hash
      metaBytes := constructionMeta.bytes
      bytecode, parserBytecode, storeBytecode, interpreterBytecode, bytecodeMetaHash, txHash }

/-- The records of several deployers; those that fail are skipped or end the run. -/
def assembleAll (t : FileTree) (policy : Policy) (deployers : List (Text × DeployerConfig)) :
    Run (List DeployerRecord) := do
  let records ← deployers.mapM fun (key, d) =>
    Run.skipping policy "deployer" key (assemble t key d)
  return records.reduceOption

end RainMeta.Deployer
