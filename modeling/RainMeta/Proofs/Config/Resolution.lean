import RainMeta.Config
import RainMeta.Proofs.Path

/-!
# Configurations seen from a directory

A configuration has paths at six kinds of places: the roots, the metas, and for each deployer its
construction meta and four artifacts. `RainMeta.Config.resolved` changes the paths and nothing
else. To say so, the paths are listed (`RainMeta.Config.paths`), and what is left when they are
forgotten is the outline (`RainMeta.Config.outline`); together the two are the whole configuration
(`RainMeta.Config.eq_of_outline_of_paths`), so that no place can be missing in the list.

Resolving keeps the outline and puts the directory in front of each listed path
(`RainMeta.Config.outline_resolved`, `RainMeta.Config.paths_resolved`). What resolving twice comes
to then follows from the laws of paths (`RainMeta.Config.resolved_action`).
-/

namespace RainMeta

/-! ### Paths and what is left without them -/

/-- How the file of a meta is written. -/
inductive MetaKind
  | binary | hex
  deriving DecidableEq

/-- How the file of an entry is written. -/
def MetaEntry.kind : MetaEntry → MetaKind
  | .binary _ => .binary
  | .hex _ => .hex

/-- The paths of a deployer. -/
def DeployerConfig.paths (d : DeployerConfig) : List Path :=
  [d.constructionMeta.path, d.expressionDeployer, d.parser, d.store, d.interpreter]

/-- What a configuration says besides its paths. -/
structure Config.Outline where
  subgraphs : List Text
  roots : Nat
  metas : List MetaKind
  deployers : List (Text × MetaKind)
  deriving DecidableEq

namespace Config

/-- **The paths of a configuration**: the roots, then the metas, then those of each deployer. -/
def paths (c : Config) : List Path :=
  c.roots ++ c.metas.map MetaEntry.path ++ c.deployers.flatMap fun d => d.2.paths

/-- **A configuration without its paths**: its subgraphs, the number of roots, the kind of each
meta, and for each deployer its key and the kind of its construction meta. -/
def outline (c : Config) : Outline where
  subgraphs := c.subgraphs
  roots := c.roots.length
  metas := c.metas.map MetaEntry.kind
  deployers := c.deployers.map fun d => (d.1, d.2.constructionMeta.kind)

end Config

theorem MetaEntry.eq_of_kind_of_path {m m' : MetaEntry} (hkind : m.kind = m'.kind)
    (hpath : m.path = m'.path) : m = m' := by
  cases m <;> cases m' <;> simp_all [MetaEntry.kind, MetaEntry.path]

theorem DeployerConfig.eq_of_kind_of_paths {d d' : DeployerConfig}
    (hkind : d.constructionMeta.kind = d'.constructionMeta.kind) (hpaths : d.paths = d'.paths) :
    d = d' := by
  obtain ⟨m, e, p, s, i⟩ := d
  obtain ⟨m', e', p', s', i'⟩ := d'
  simp only [DeployerConfig.paths, List.cons.injEq, and_true] at hpaths
  obtain ⟨hm, rfl, rfl, rfl, rfl⟩ := hpaths
  obtain rfl : m = m' := MetaEntry.eq_of_kind_of_path hkind hm
  rfl

/-- Lists are the same if they agree in one respect item by item, and in another when the parts
of all items, equally many for each, stand one after another. -/
theorem list_eq_of_map_of_flatMap {α β γ : Type} {f : α → β} {g : α → List γ}
    (hitem : ∀ x y, f x = f y → g x = g y → x = y)
    (hlength : ∀ x y, (g x).length = (g y).length) {l l' : List α}
    (hmap : l.map f = l'.map f) (hparts : l.flatMap g = l'.flatMap g) : l = l' := by
  induction l generalizing l' with
  | nil =>
    rw [List.map_nil, eq_comm, List.map_eq_nil_iff] at hmap
    exact hmap.symm
  | cons x l ih =>
    cases l' with
    | nil => simp at hmap
    | cons y l' =>
      rw [List.map_cons, List.map_cons, List.cons.injEq] at hmap
      rw [List.flatMap_cons, List.flatMap_cons] at hparts
      obtain ⟨hxy, hrest⟩ := List.append_inj hparts (hlength x y)
      rw [hitem x y hmap.1 hxy, ih hmap.2 hrest]

namespace Config

/-- **Outline and paths are everything.** -/
theorem eq_of_outline_of_paths {c c' : Config} (houtline : c.outline = c'.outline)
    (hpaths : c.paths = c'.paths) : c = c' := by
  obtain ⟨roots, subgraphs, metas, deployers⟩ := c
  obtain ⟨roots', subgraphs', metas', deployers'⟩ := c'
  simp only [outline, Outline.mk.injEq] at houtline
  obtain ⟨rfl, hroots, hmetas, hdeployers⟩ := houtline
  -- the outline says where the list of paths is to be parted
  simp only [paths, List.append_assoc] at hpaths
  obtain ⟨rfl, hrest⟩ := List.append_inj hpaths hroots
  have hlength : metas.length = metas'.length := by simpa using congrArg List.length hmetas
  obtain ⟨hmetapaths, hdeployerpaths⟩ := List.append_inj hrest (by simpa using hlength)
  rw [List.map_eq_flatMap, List.map_eq_flatMap] at hmetapaths
  obtain rfl : metas = metas' := by
    refine list_eq_of_map_of_flatMap (fun m m' hkind hpath => ?_) (fun _ _ => rfl) hmetas hmetapaths
    exact MetaEntry.eq_of_kind_of_path hkind (List.singleton_inj.mp hpath)
  obtain rfl : deployers = deployers' := by
    refine list_eq_of_map_of_flatMap (fun d d' hkey hpaths => ?_) (fun _ _ => rfl) hdeployers
      hdeployerpaths
    obtain ⟨hkey, hkind⟩ := Prod.mk.inj hkey
    exact Prod.ext hkey (DeployerConfig.eq_of_kind_of_paths hkind hpaths)
  rfl

end Config

/-! ### What resolving keeps and what it changes -/

@[simp]
theorem MetaEntry.kind_resolved (a : Path) (m : MetaEntry) : (m.resolved a).kind = m.kind := by
  cases m <;> rfl

@[simp]
theorem MetaEntry.path_resolved (a : Path) (m : MetaEntry) :
    (m.resolved a).path = a.join m.path := by
  cases m <;> rfl

@[simp]
theorem DeployerConfig.paths_resolved (a : Path) (d : DeployerConfig) :
    (d.resolved a).paths = d.paths.map a.join := by
  simp [DeployerConfig.paths, DeployerConfig.resolved]

namespace Config

/-- **Resolving changes only paths.** -/
@[simp]
theorem outline_resolved (a : Path) (c : Config) : (c.resolved a).outline = c.outline := by
  simp [outline, resolved, DeployerConfig.resolved, Function.comp_def]

/-- **Resolving changes every path**, wherever it stands, and keeps its place. -/
@[simp]
theorem paths_resolved (a : Path) (c : Config) : (c.resolved a).paths = c.paths.map a.join := by
  simp [paths, resolved, Function.comp_def, List.map_flatMap, List.flatMap_map]

/-- Two resolutions are the same if they treat the paths alike. -/
theorem eq_resolved_of_paths {c c' : Config} {a : Path} (houtline : c'.outline = c.outline)
    (hpaths : c'.paths = c.paths.map a.join) : c' = c.resolved a :=
  eq_of_outline_of_paths (by rw [houtline, outline_resolved]) (by rw [hpaths, paths_resolved])

theorem resolved_resolved (c : Config) (a b : Path) :
    (c.resolved a).resolved b = c.resolved (b.join a) := by
  apply eq_resolved_of_paths (by simp)
  rw [paths_resolved, paths_resolved, List.map_map]
  exact List.map_congr_left fun p _ => (Path.join_assoc b a p).symm

theorem resolved_here (c : Config) : c.resolved .here = c := by
  refine (eq_resolved_of_paths rfl ?_).symm
  rw [List.map_congr_left fun p _ => Path.here_join p, List.map_id']

theorem isAbsolute_of_mem_resolved {c : Config} {a p : Path} (ha : a.isAbsolute = true)
    (hp : p ∈ (c.resolved a).paths) : p.isAbsolute = true := by
  rw [paths_resolved, List.mem_map] at hp
  obtain ⟨q, -, rfl⟩ := hp
  rw [Path.isAbsolute_join, ha, Bool.true_or]

theorem resolved_resolved_of_isAbsolute (c : Config) {a : Path} (b : Path)
    (ha : a.isAbsolute = true) : (c.resolved a).resolved b = c.resolved a := by
  rw [resolved_resolved, Path.join_of_isAbsolute ha]

/-- **Resolving is an action of paths on configurations.** Resolving from `a` and then from `b` is
resolving once from `a` as seen from `b`, and where the paths are given by texts, from the path
that the two texts spell together; resolving from where one is changes nothing. Each path of the
configuration, in its place, becomes that path seen from `a`, and all else stays: the subgraphs,
how many roots there are, the kinds of the metas, the keys of the deployers and the kinds of their
construction metas. If `a` has a root then all paths have one afterwards, and resolving again
changes nothing. -/
theorem resolved_action (c : Config) (a b : Path) :
    (c.resolved a).resolved b = c.resolved (b.join a) ∧
    (∀ s t : Text, (c.resolved (.ofText s)).resolved (.ofText t) =
      c.resolved (.ofText (Path.joinText t s))) ∧
    c.resolved .here = c ∧
    (c.resolved a).paths = c.paths.map a.join ∧
    (c.resolved a).outline = c.outline ∧
    (a.isAbsolute = true → (∀ p ∈ (c.resolved a).paths, p.isAbsolute = true) ∧
      (c.resolved a).resolved b = c.resolved a) := by
  refine ⟨resolved_resolved c a b, fun s t => ?_, resolved_here c, paths_resolved a c,
    outline_resolved a c, fun ha => ⟨fun p hp => isAbsolute_of_mem_resolved ha hp,
      resolved_resolved_of_isAbsolute c b ha⟩⟩
  rw [resolved_resolved, Path.ofText_joinText]

/-- Roots and files of both sorts seen from `//ws`, and then from elsewhere. -/
theorem resolved_action_workspace :
    let c : Config :=
      { roots := [.ofText "src/./a", .ofText "/lib"]
        metas := [.hex (.ofText "../meta.hex")]
        deployers := [("0x10", ⟨.binary (.ofText ""), .ofText "e", .ofText "p", .ofText "/s",
          .ofText "i//j"⟩)] }
    (Path.ofText "//ws").isAbsolute = true ∧
    (c.resolved (.ofText "//ws")).resolved (.ofText "/elsewhere") =
      c.resolved (.ofText "//ws") := by
  intro c
  have ha : (Path.ofText "//ws").isAbsolute = true := by decide
  obtain ⟨-, -, -, -, -, habsolute⟩ := resolved_action c (.ofText "//ws") (.ofText "/elsewhere")
  exact ⟨ha, (habsolute ha).2⟩

end Config

end RainMeta
