import RainMeta.Path

/-!
# Configurations

A configuration says where the dotrains of a workspace are, which metas and deployers belong
to it, and which subgraphs to ask.

* `MetaEntry`, `DeployerConfig`, `Config`: what a configuration holds.
* `Config.resolved`: the configuration with its relative paths seen from a directory.
-/

namespace RainMeta

/-- A file with a meta: the bytes themselves, or hexadecimal digits. -/
inductive MetaEntry
  | binary (path : Path)
  | hex (path : Path)
  deriving DecidableEq

/-- The path of the file. -/
def MetaEntry.path : MetaEntry → Path
  | .binary p => p
  | .hex p => p

/-- The entry with its path seen from a directory. -/
def MetaEntry.resolved (base : Path) : MetaEntry → MetaEntry
  | .binary p => .binary (base.join p)
  | .hex p => .hex (base.join p)

/-- The files that a deployer is assembled from: its meta and four contract artifacts. -/
structure DeployerConfig where
  constructionMeta : MetaEntry
  expressionDeployer : Path
  parser : Path
  store : Path
  interpreter : Path
  deriving DecidableEq

/-- The files with their paths seen from a directory. -/
def DeployerConfig.resolved (base : Path) (d : DeployerConfig) : DeployerConfig :=
  { constructionMeta := d.constructionMeta.resolved base
    expressionDeployer := base.join d.expressionDeployer
    parser := base.join d.parser
    store := base.join d.store
    interpreter := base.join d.interpreter }

/-- A configuration. The keys of deployers are the hashes of the transactions that deployed
them; they are in order and differ from each other. -/
structure Config where
  roots : List Path := []
  subgraphs : List Text := []
  metas : List MetaEntry := []
  deployers : List (Text × DeployerConfig) := []
  deriving DecidableEq

/-- The configuration with its relative paths seen from a directory. -/
def Config.resolved (base : Path) (c : Config) : Config :=
  { c with
    roots := c.roots.map base.join
    metas := c.metas.map (MetaEntry.resolved base)
    deployers := c.deployers.map fun d => (d.1, d.2.resolved base) }

end RainMeta
