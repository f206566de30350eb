import Mathlib.Data.List.Basic
import RainMeta.Proofs.Build.Assembly
import RainMeta.Proofs.Build.Gathering
import RainMeta.Proofs.Store.Residency
import RainMeta.Proofs.Text.Utf8.Reading

/-!
# What a build puts into a store

A store that a build comes to is said in terms of what the build gathered
(`RainMeta.Build.holds_of_build`): its subgraphs, which uris are bound and to what, which
deployers it holds and in which order, and what is in its cache. The texts that are read back
from it are those on disk, byte for byte (`RainMeta.Build.dotrainText_of_build`).

## Filling as a run of operations

What is known about stores is known about runs of operations on the store without anything. So
filling is read as such a run (`RainMeta.Build.operations`): first the subgraphs, then the metas,
then the dotrains that have a uri, then the deployers from the last one to the first. Two things
make this run a simple one.

* It is *honest* (`RainMeta.Build.honest_operations`): no record names a hash that is not the one
  of its meta, so every payload stands under its own hash.
* It *keeps everything* (`RainMeta.Build.keeps_operations`): uris are bound without giving up
  what they were bound to, so nothing that was put into the cache leaves it.

Of two dotrains at one path the later one is bound, and of two deployers with one bytecode hash
the earlier one, as deployers are set in reverse order. The former does not show, since both
dotrains hold the text of the same file.
-/

namespace RainMeta

namespace Build

open Run

/-! ### Filling as a run of operations -/

/-- The uris of the dotrains that have one, each with the text. -/
def bindings (files : List DotrainFile) : List (Text × Text) :=
  files.filterMap fun file => (uriOf file.path).map fun uri => (uri, file.text)

/-- The operation that puts a meta under its hash. -/
def metaOperation (m : LoadedMeta) : Store.Operation :=
  .updateWith m.hash m.bytes

/-- The operation that binds a uri and keeps what it was bound to. -/
def bindOperation (b : Text × Text) : Store.Operation :=
  .setDotrain b.2 b.1 true

/-- **What a build does to the store** with what it gathered. -/
def operations (c : Config) (g : Gathered) : List Store.Operation :=
  .addSubgraphs c.subgraphs :: g.metas.map metaOperation ++ (bindings g.files).map bindOperation ++
    g.records.reverse.map .setDeployer

/-- The payloads that a build puts into the cache, in the order in which it does so. -/
def payloads (g : Gathered) : List Bytes :=
  g.metas.map LoadedMeta.bytes ++
    (bindings g.files).map (fun b => (Envelope.ofText b.2).encode) ++
    g.records.reverse.map DeployerRecord.metaBytes

theorem bindings_cons_of_none {file : DotrainFile} (h : uriOf file.path = none)
    (rest : List DotrainFile) : bindings (file :: rest) = bindings rest := by
  simp [bindings, h]

theorem bindings_cons_of_some {file : DotrainFile} {uri : Text} (h : uriOf file.path = some uri)
    (rest : List DotrainFile) : bindings (file :: rest) = (uri, file.text) :: bindings rest := by
  simp [bindings, h]

theorem mem_bindings_iff {files : List DotrainFile} {uri text : Text} :
    (uri, text) ∈ bindings files ↔
      ∃ file ∈ files, uriOf file.path = some uri ∧ file.text = text := by
  simp [bindings]

theorem text_of_uriOf {p : Path} {uri : Text} (h : uriOf p = some uri) : p.text = uri := by
  unfold uriOf at h
  split at h
  · cases h
  · exact Option.some.inj h

theorem map_fst_bindings (files : List DotrainFile) :
    (bindings files).map Prod.fst = files.filterMap fun file => uriOf file.path := by
  simp [bindings, List.map_filterMap, Option.map_map, Function.comp_def]

theorem addMetas_eq (s : Store) (metas : List LoadedMeta) :
    addMetas s metas = (metas.map metaOperation).foldl Store.apply s := by
  rw [List.foldl_map]
  rfl

/-- **Binding dotrains one after another**: all that have a uri are bound, and their texts can be
encoded, or else the build had ended. -/
theorem of_runFrom_addDotrains {policy : Policy} {s s' : Store} {count count' : Nat}
    {files : List DotrainFile} {j j' : Journal}
    (h : runFrom (addDotrains policy s count files) j = (.ok (s', count'), j')) :
    s' = ((bindings files).map bindOperation).foldl Store.apply s ∧
      ∀ b ∈ bindings files, (Utf8.encode b.2).isOk := by
  induction files generalizing s count j with
  | nil =>
    cases h
    exact ⟨rfl, by simp [bindings]⟩
  | cons file rest ih =>
    rw [addDotrains_cons] at h
    obtain ⟨⟨s₁, bound⟩, j₁, hfile, hrest⟩ := exists_of_runFrom_bind h
    obtain ⟨rfl, henc⟩ := ih hrest
    rcases hu : uriOf file.path with _ | uri
    · rw [bindings_cons_of_none hu]
      simp only [addDotrain, hu] at hfile
      cases policy with
      | strict => cases hfile
      | lenient =>
        cases hfile
        exact ⟨rfl, henc⟩
    · rw [bindings_cons_of_some hu]
      rw [addDotrain_of_uri hu] at hfile
      rcases hs : s.setDotrain file.text uri true with cause | ⟨rebound, s₂⟩
      · rw [hs] at hfile
        cases hfile
      · rw [hs] at hfile
        cases hfile
        have happly : s.apply (bindOperation (uri, file.text)) = s₁ := by
          simp only [bindOperation, Store.apply, hs]
        have hok : (Utf8.encode file.text).isOk := by
          by_contra hn
          obtain ⟨cause, hc⟩ := Envelope.exists_error_of_not_isOk hn
          simp [Store.setDotrain, hc, Except.map] at hs
        exact ⟨by rw [List.map_cons, List.foldl_cons, happly], by simpa [hok] using henc⟩

/-- If all texts can be encoded, a lenient build binds whatever has a uri. -/
theorem yields_addDotrains_of_encodable (s : Store) (count : Nat) {files : List DotrainFile}
    (henc : ∀ b ∈ bindings files, (Utf8.encode b.2).isOk) :
    ∃ bound, (addDotrains .lenient s count files).Yields (.ok bound) := by
  induction files generalizing s count with
  | nil => exact ⟨(s, count), yields_pure _⟩
  | cons file rest ih =>
    rw [addDotrains_cons]
    rcases hu : uriOf file.path with _ | uri
    · obtain ⟨bound, hrest⟩ := ih s count (bindings_cons_of_none hu rest ▸ henc)
      have hdrop : (addDotrain .lenient s file).Yields (.ok (s, false)) := by
        simp only [addDotrain, hu]
        exact (yields_record rfl).bind_ok (yields_pure (s, false))
      exact ⟨bound, hdrop.bind_ok hrest⟩
    · rw [bindings_cons_of_some hu, List.forall_mem_cons] at henc
      rw [addDotrain_of_uri hu, Store.setDotrain, Envelope.dotrain?_of_isOk henc.1]
      obtain ⟨bound, hrest⟩ := ih _ (count + 1) henc.2
      exact ⟨bound, (yields_pure (_, true)).bind_ok hrest⟩

/-- **A lenient build that has gathered everything comes to a store**, if all texts can be
encoded. -/
theorem exists_build_of_gather [Platform] {t : FileTree} {c : Config} {g : Gathered} {j : Journal}
    (hg : runFrom (gather t .lenient c) [] = (.ok g, j))
    (henc : ∀ b ∈ bindings g.files, (Utf8.encode b.2).isOk) :
    ∃ s report, (build t .lenient c).result.1 = .ok (s, report) := by
  obtain ⟨⟨s, count⟩, hy⟩ := yields_addDotrains_of_encodable (unbound c g) 0 henc
  exact ⟨_, _, by rw [result_build_of_ok hg, fill_of_yields_ok hy]⟩

/-- **A build gathers, and then runs operations** on the store without anything. -/
theorem exists_gathers_of_build [Platform] {t : FileTree} {policy : Policy} {c : Config} {s : Store}
    {report : Report} (h : (build t policy c).result.1 = .ok (s, report)) :
    ∃ g, Gathers t policy c g ∧ s = Store.run (operations c g) ∧
      ∀ b ∈ bindings g.files, (Utf8.encode b.2).isOk := by
  rcases hg : runFrom (gather t policy c) [] with ⟨fault | g, j⟩
  · rw [result_build_of_error hg] at h
    cases h
  rw [result_build_of_ok hg] at h
  rcases hf : runFrom (addDotrains policy (unbound c g) 0 g.files) j with ⟨fault | ⟨s₁, count⟩, k⟩
  · rw [fill, runFrom_bind_of_error hf] at h
    cases h
  rw [fill, runFrom_bind_of_ok hf, runFrom_finish] at h
  cases h
  obtain ⟨rfl, henc⟩ := of_runFrom_addDotrains hf
  refine ⟨g, gathers_of_runFrom hg, ?_, henc⟩
  simp only [operations, Store.run, List.foldl_append, List.foldl_cons, unbound, addMetas_eq]
  rw [List.foldl_map (f := Store.Operation.setDeployer)]
  rfl

/-! ### What the operations are -/

theorem filterMap_operations {α : Type} (f : Store.Operation → Option α) (c : Config)
    (g : Gathered) : (operations c g).filterMap f =
      (f (.addSubgraphs c.subgraphs)).toList ++
        g.metas.filterMap (fun m => f (metaOperation m)) ++
        (bindings g.files).filterMap (fun b => f (bindOperation b)) ++
        g.records.reverse.filterMap fun record => f (.setDeployer record) := by
  rw [operations, List.cons_append, List.cons_append, List.filterMap_cons]
  simp only [List.filterMap_append, List.filterMap_map]
  rcases f (.addSubgraphs c.subgraphs) with _ | a
  · rfl
  · rfl

theorem forall_mem_operations_iff {P : Store.Operation → Prop} {c : Config} {g : Gathered} :
    (∀ op ∈ operations c g, P op) ↔ P (.addSubgraphs c.subgraphs) ∧
      (∀ m ∈ g.metas, P (metaOperation m)) ∧ (∀ b ∈ bindings g.files, P (bindOperation b)) ∧
      ∀ record ∈ g.records, P (.setDeployer record) := by
  simp only [operations, List.mem_append, List.mem_cons, List.mem_map, List.mem_reverse]
  constructor
  · intro h
    exact ⟨h _ (by simp), fun m hm => h _ (Or.inl (Or.inl (Or.inr ⟨m, hm, rfl⟩))),
      fun b hb => h _ (Or.inl (Or.inr ⟨b, hb, rfl⟩)), fun r hr => h _ (Or.inr ⟨r, hr, rfl⟩)⟩
  · rintro ⟨hurls, hmetas, hbindings, hrecords⟩ op (((rfl | ⟨m, hm, rfl⟩) | ⟨b, hb, rfl⟩) |
      ⟨record, hr, rfl⟩)
    · exact hurls
    · exact hmetas m hm
    · exact hbindings b hb
    · exact hrecords record hr

theorem urls_operations (c : Config) (g : Gathered) :
    (operations c g).flatMap Store.Operation.urls = c.subgraphs := by
  simp [operations, metaOperation, bindOperation, Store.Operation.urls, List.flatMap_map]

theorem deployers_operations (c : Config) (g : Gathered) :
    (operations c g).filterMap Store.Operation.deployer? =
      (g.records.map fun record => (record.bytecodeMetaHash, record)).reverse := by
  rw [filterMap_operations, ← List.map_reverse]
  simp [metaOperation, bindOperation, Store.Operation.deployer?]

theorem bindings_operations {c : Config} {g : Gathered}
    (henc : ∀ b ∈ bindings g.files, (Utf8.encode b.2).isOk) :
    (operations c g).filterMap Store.Operation.binding? = bindings g.files := by
  have hbind : ∀ b ∈ bindings g.files, (bindOperation b).binding? = some b := fun b hb => by
    simp [bindOperation, Store.Operation.binding?, henc b hb]
  rw [filterMap_operations, List.filterMap_congr hbind]
  simp [metaOperation, Store.Operation.binding?]

theorem payloads_operations [Platform] {t : FileTree} {policy : Policy} {c : Config} {g : Gathered}
    (hg : Gathers t policy c g) (henc : ∀ b ∈ bindings g.files, (Utf8.encode b.2).isOk) :
    Store.payloads (operations c g) = payloads g := by
  have hmeta : ∀ m ∈ g.metas, (metaOperation m).payload? = some m.bytes := fun m hm => by
    simp [metaOperation, Store.Operation.payload?, Store.Operation.written?,
      MetaFile.hash_of_mem_loaded (hg.metas ▸ hm)]
  have hbind : ∀ b ∈ bindings g.files,
      (bindOperation b).payload? = some (Envelope.ofText b.2).encode := fun b hb => by
    simp [bindOperation, Store.Operation.payload?, Store.Operation.written?, henc b hb]
  rw [Store.payloads, filterMap_operations, List.filterMap_congr hmeta,
    List.filterMap_congr hbind]
  simp [Store.Operation.payload?, Store.Operation.written?, payloads]

/-- **No record names a hash that is not the one of its meta.** -/
theorem honest_operations [Platform] {t : FileTree} {policy : Policy} {c : Config} {g : Gathered}
    (hg : Gathers t policy c g) : ∀ op ∈ operations c g, op.Honest := by
  refine forall_mem_operations_iff.mpr ⟨trivial, fun _ _ => trivial, fun _ _ => trivial, ?_⟩
  intro record hr
  rw [hg.records] at hr
  obtain ⟨d, -, hd⟩ := List.mem_filterMap.mp hr
  exact Deployer.metaHash_of_assemble hd

/-- **Nothing is given up** when a uri is bound. -/
theorem keeps_operations (c : Config) (g : Gathered) :
    ∀ text uri keepOld, .setDotrain text uri keepOld ∈ operations c g → keepOld = true := by
  have keeps : ∀ op ∈ operations c g, ∀ text uri keepOld,
      op = .setDotrain text uri keepOld → keepOld = true :=
    forall_mem_operations_iff.mpr ⟨by rintro _ _ _ ⟨⟩, by rintro _ _ _ _ _ ⟨⟩,
      by rintro _ _ _ _ _ ⟨⟩; rfl, by rintro _ _ _ _ _ ⟨⟩⟩
  exact fun text uri keepOld h => keeps _ h text uri keepOld rfl

/-! ### What the store holds -/

/-- **A store holds what a build gathered.** -/
structure Holds (c : Config) (g : Gathered) (s : Store) : Prop where
  /-- The subgraphs of the configuration, without repeats. -/
  subgraphs : s.subgraphs = c.subgraphs.eraseDups
  /-- The uris of the dotrains that have one, in the order in which they were found first. -/
  uris : s.dotrainUris = (g.files.filterMap fun file => uriOf file.path).eraseDups
  /-- The uri of each dotrain is bound to the envelope of its text. -/
  bound : ∀ file ∈ g.files, ∀ uri, uriOf file.path = some uri →
    ∃ e, Envelope.dotrain? file.text = .ok e ∧ s.dotrainHash? uri = some e.hash
  /-- Of the records with one bytecode hash, the first one. -/
  deployer : ∀ key, s.deployer? key =
    g.records.find? fun record => record.bytecodeMetaHash = key
  /-- The bytecode hashes, in the order in which they come last, from the end. -/
  deployerHashes : s.deployerHashes =
    (g.records.map DeployerRecord.bytecodeMetaHash).reverse.eraseDups
  /-- In the cache is what was loaded, what uris are bound to, and the metas of the records. -/
  cached : ∀ hash, hash ∈ s.cache.keys ↔
    (∃ m ∈ g.metas, keccak256 m.bytes = hash) ∨ (∃ uri, s.dotrainHash? uri = some hash) ∨
      ∃ record ∈ g.records, keccak256 record.metaBytes = hash
  /-- Every payload stands under its own hash. -/
  addressed : s.ContentAddressed

/-- Dotrains at one path hold one text, so it does not matter which of them is bound. -/
theorem lastValue_bindings {t : FileTree} {files : List DotrainFile}
    (hf : ∀ file ∈ files, file.Faithful t) {file : DotrainFile} (hfile : file ∈ files)
    {uri : Text} (hu : uriOf file.path = some uri) :
    Table.lastValue uri (bindings files) = some file.text := by
  have hmem : uri ∈ (bindings files).map Prod.fst :=
    List.mem_map.mpr ⟨(uri, file.text), mem_bindings_iff.mpr ⟨file, hfile, hu, rfl⟩, rfl⟩
  obtain ⟨text, hlast⟩ := Table.exists_lastValue hmem
  obtain ⟨last, hmemlast, hulast, rfl⟩ := mem_bindings_iff.mp (Table.mem_of_lastValue hlast)
  rw [hlast, (hf last hmemlast).text_eq (hf file hfile)]
  rw [text_of_uriOf hulast, text_of_uriOf hu]

/-- The hashes that uris are bound to are those of the envelopes that were put into the cache. -/
theorem exists_bound_iff {t : FileTree} {c : Config} {g : Gathered}
    (hf : ∀ file ∈ g.files, file.Faithful t) (henc : ∀ b ∈ bindings g.files, (Utf8.encode b.2).isOk)
    (hash : Bytes) : (∃ uri, (Store.run (operations c g)).dotrainHash? uri = some hash) ↔
      ∃ b ∈ bindings g.files, (Envelope.ofText b.2).hash = hash := by
  simp only [Store.dotrainHash?_run, bindings_operations henc, Option.map_eq_some_iff]
  constructor
  · rintro ⟨uri, text, hlast, h⟩
    exact ⟨_, Table.mem_of_lastValue hlast, h⟩
  · rintro ⟨⟨uri, text⟩, hmem, h⟩
    obtain ⟨file, hfile, hu, rfl⟩ := mem_bindings_iff.mp hmem
    exact ⟨uri, file.text, lastValue_bindings hf hfile hu, h⟩

/-- **The operations of a build leave what it gathered.** -/
theorem holds_run [Platform] {t : FileTree} {policy : Policy} {c : Config} {g : Gathered}
    (hg : Gathers t policy c g) (henc : ∀ b ∈ bindings g.files, (Utf8.encode b.2).isOk) :
    Holds c g (Store.run (operations c g)) where
  subgraphs := by rw [Store.subgraphs_run, urls_operations]
  uris := by
    rw [Store.dotrainUris, Store.dotrains_run, Table.keys_setAll, bindings_operations henc,
      List.map_map, ← map_fst_bindings]
    rfl
  bound file hfile uri hu := by
    have htext := henc _ (mem_bindings_iff.mpr ⟨file, hfile, hu, rfl⟩)
    refine ⟨.ofText file.text, Envelope.dotrain?_of_isOk htext, ?_⟩
    rw [Store.dotrainHash?_run, bindings_operations henc,
      lastValue_bindings hg.faithful hfile hu, Option.map_some]
  deployer key := by
    rw [Store.deployer?, Store.deployers_run, Table.find?_setAll, deployers_operations,
      Table.lastValue_reverse, List.find?_map, Option.map_map]
    exact Option.map_id'
  deployerHashes := by
    rw [Store.deployerHashes, Store.deployers_run, Table.keys_setAll, deployers_operations,
      List.map_reverse, List.map_map]
    rfl
  cached hash := by
    rw [Store.mem_keys_run_iff (honest_operations hg) (keeps_operations c g),
      payloads_operations hg henc, exists_bound_iff hg.faithful henc]
    simp only [payloads, List.mem_append, List.mem_map, List.mem_reverse, Envelope.hash,
      or_and_right, exists_or, or_assoc]
    simp only [exists_exists_and_eq_and]
  addressed := Store.contentAddressed_run (honest_operations hg)

/-! ### A small build

One dotrain, which two roots find, a meta that is the envelope of its text, and a deployer under two
keys, whose meta is that one too. -/

/-- The dotrain. -/
def smallFile : DotrainFile := ⟨⟨.relative, ["a.rain"]⟩, "x"⟩

/-- A directory with an artifact, the dotrain and the meta, in which all paths start. -/
def smallTree : FileTree :=
  { root := .directory
      [([97], .file (Deployer.bothSides.flatMap Utf8.encodeOne)),
        ([97, 46, 114, 97, 105, 110], .file [120]), ([109], .file (Envelope.ofText "x").encode)]
    workingDirectory := [] }

/-- The deployer under two keys. -/
def smallDeployers : List (Text × DeployerConfig) :=
  [("0x00", Deployer.smallDeployer), ("0x01", Deployer.smallDeployer)]

/-- The configuration that names the directory twice. -/
def smallConfig : Config :=
  { roots := [.here, .here], subgraphs := ["s", "s"], metas := [.binary ⟨.relative, ["m"]⟩]
    deployers := smallDeployers }

/-- The record of the deployer under a key of one byte. -/
def smallRecord (key : UInt8) : DeployerRecord where
  metaHash := (Envelope.ofText "x").hash
  metaBytes := (Envelope.ofText "x").encode
  bytecode := [1]
  parserBytecode := [2]
  storeBytecode := [2]
  interpreterBytecode := [2]
  bytecodeMetaHash := (Envelope.deployerBytecode [2]).hash
  txHash := [key]

/-- What is gathered. -/
def smallGathered : Gathered :=
  ⟨[smallFile, smallFile], [.ofBytes (Envelope.ofText "x").encode], [smallRecord 0, smallRecord 1]⟩

/-- What a scan finds in the directory. -/
def smallEntries : List Scan.Entry :=
  [⟨"a", .file (Deployer.bothSides.flatMap Utf8.encodeOne)⟩, ⟨"a.rain", .file [120]⟩,
    ⟨"m", .file (Envelope.ofText "x").encode⟩]

theorem entriesOf_smallTree : Scan.entriesOf smallTree .here = .ok smallEntries := by
  have hdot : Path.here.text = "." := rfl
  rw [Scan.entriesOf, FileTree.list, hdot, FileTree.find_dot rfl]
  exact congrArg Except.ok (List.mergeSort_of_pairwise (by decide))

theorem readFile_smallTree : smallTree.readFile "a.rain" = .ok [120] :=
  FileTree.readFile_name rfl (by decide) (by decide) rfl

theorem mapM_inspect_smallEntries :
    smallEntries.mapM (Scan.inspect smallTree .lenient .here) =
      pure [.nothing, .dotrain smallFile, .nothing] := by
  have hread : Scan.readDotrain smallTree smallFile.path = pure smallFile := by
    have hpath : smallFile.path.text = "a.rain" := rfl
    rw [Scan.readDotrain, hpath, readFile_smallTree]
    rfl
  have hdotrain : Scan.inspect smallTree .lenient .here ⟨"a.rain", .file [120]⟩ =
      pure (.dotrain smallFile) := by
    have hpath : Path.here.child "a.rain" = smallFile.path := rfl
    have hsuffix : smallFile.path.suffix = Scan.suffix := rfl
    rw [Scan.inspect_file, hpath, Scan.contribution, if_pos hsuffix, hread]
    rfl
  have hother : ∀ name content, (Path.here.child name).suffix ≠ Scan.suffix →
      Scan.inspect smallTree .lenient .here ⟨name, .file content⟩ = pure .nothing := by
    intro name content hsuffix
    rw [Scan.inspect_file, Scan.contribution, if_neg hsuffix]
  rw [smallEntries, List.mapM_cons, List.mapM_cons, List.mapM_cons, hdotrain,
    hother _ _ (by decide), hother _ _ (by decide)]
  rfl

theorem runFrom_scan_smallTree (j : Journal) : runFrom (Scan.scan smallTree .lenient .here) j =
    (.ok [smallFile], j ++ [.scanned .here 1]) := by
  have hbelow : runFrom (Scan.scanFrom smallTree .lenient [.here]) j = (.ok [smallFile], j) := by
    have hnone : Scan.subdirectories .here smallEntries
        [.nothing, .dotrain smallFile, .nothing] ++ [] = [] := rfl
    rw [Scan.scanFrom_of_ok entriesOf_smallTree, mapM_inspect_smallEntries, pure_bind, hnone,
      Scan.scanFrom]
    rfl
  rw [Scan.scan, runFrom_bind_of_ok hbelow]
  rfl

theorem read_smallTree : MetaFile.read smallTree (.binary ⟨.relative, ["m"]⟩) =
    pure (Envelope.ofText "x").encode := by
  have hread : smallTree.readFile (Path.text ⟨.relative, ["m"]⟩) =
      .ok (Envelope.ofText "x").encode := FileTree.readFile_name rfl (by decide) (by decide) rfl
  rw [MetaFile.read, MetaEntry.path, hread]
  rfl

/-- The deployer is assembled under every key of one byte. -/
theorem outcome_assemble_smallTree {key : Text} {b : UInt8} (hkey : Hex.decode key = .ok [b]) :
    (Deployer.assemble smallTree key Deployer.smallDeployer).outcome = .ok (smallRecord b) := by
  have hread : smallTree.readFile (Path.text ⟨.relative, ["a"]⟩) =
      .ok (Deployer.bothSides.flatMap Utf8.encodeOne) :=
    FileTree.readFile_name rfl (by decide) (by decide) rfl
  have hartifact : (Artifact.read smallTree ⟨.relative, ["a"]⟩).outcome =
      .ok ⟨⟨.relative, ["a"]⟩, some [1], some [2]⟩ :=
    Artifact.outcome_read_of_holds hread (by decide +kernel)
  have hdeployed : Deployer.HasSide smallTree ⟨.relative, ["a"]⟩ .deployed [2] :=
    ⟨_, hartifact, rfl⟩
  have hmeta : (MetaFile.read smallTree (.binary ⟨.relative, ["m"]⟩)).outcome =
      .ok (Envelope.ofText "x").encode := by
    rw [read_smallTree]
    rfl
  exact Deployer.outcome_assemble_eq_ok_iff.mpr ⟨hmeta, rfl, ⟨_, hartifact, rfl⟩,
    ⟨_, hdeployed, rfl⟩, hdeployed, hdeployed, hdeployed, hkey⟩

theorem gather_smallConfig :
    ∃ j, runFrom (gather smallTree .lenient smallConfig) [] = (.ok smallGathered, j) := by
  refine exists_runFrom_gather ?_ ?_ ?_
  · rw [outcome, result_eq]
    simp only [Scan.scanAll, smallConfig, List.mapM_cons, List.mapM_nil, bind_assoc, pure_bind,
      runFrom_bind, runFrom_scan_smallTree]
    rfl
  · rw [outcome, result_eq]
    simp only [MetaFile.loadAll, MetaFile.load, smallConfig, List.mapM_cons, List.mapM_nil,
      read_smallTree, bind_assoc, pure_bind, runFrom_bind, runFrom_record]
    rfl
  · rw [Deployer.assembleAll_eq, Steady.outcome_bind_eq_ok_iff fun _ => (quiet_pure _).steady,
      outcome_mapM (Deployer.steady_tryAssemble smallTree .lenient)]
    refine ⟨[some (smallRecord 0), some (smallRecord 1)], ?_, rfl⟩
    have hzero : Hex.decode "0x00" = .ok [0] := by decide
    have hone : Hex.decode "0x01" = .ok [1] := by decide
    simp only [smallConfig, smallDeployers, List.mapM_cons, List.mapM_nil, Deployer.tryAssemble,
      outcome_skipping, outcome_assemble_smallTree hzero, outcome_assemble_smallTree hone]
    rfl

theorem eq_smallGathered {g : Gathered} (hg : Gathers smallTree .lenient smallConfig g) :
    g = smallGathered := by
  obtain ⟨j, hj⟩ := gather_smallConfig
  have hg' := gathers_of_runFrom hj
  obtain ⟨files, metas, records⟩ := g
  have hfiles : Except.ok files = Except.ok smallGathered.files := hg.files.symm.trans hg'.files
  obtain rfl : metas = smallGathered.metas := hg.metas.trans hg'.metas.symm
  obtain rfl : records = smallGathered.records := hg.records.trans hg'.records.symm
  cases hfiles
  rfl

theorem bindings_smallGathered : bindings smallGathered.files =
    [(("a.rain" : Text), ("x" : Text)), (("a.rain" : Text), ("x" : Text))] := rfl

theorem exists_build_smallConfig :
    ∃ s report, (build smallTree .lenient smallConfig).result.1 = .ok (s, report) := by
  obtain ⟨j, hj⟩ := gather_smallConfig
  refine exists_build_of_gather hj fun b hb => ?_
  obtain rfl : b = (("a.rain" : Text), ("x" : Text)) := by simpa [bindings_smallGathered] using hb
  decide

/-! ### Contents -/

/-- **What a build puts into a store.** No meta that was loaded is refused by a store. If the
build comes to a store, that store holds what the build gathered: the dotrains that the scan
finds, the metas of the entries that can be loaded, and the records of the deployers that can be
assembled. -/
theorem holds_of_build [Platform] (t : FileTree) (policy : Policy) (c : Config) :
    (∀ j metas, (runFrom (MetaFile.loadAll t policy c.metas) j).1 = .ok metas →
      ∀ m ∈ metas, ∀ s : Store, ∃ added, s.updateWith m.hash m.bytes = .ok added) ∧
    ∀ s report, (build t policy c).result.1 = .ok (s, report) →
      ∃ g, Gathers t policy c g ∧ Holds c g s := by
  refine ⟨fun j metas h m hm s => ?_, fun s report h => ?_⟩
  · rw [(MetaFile.steady_loadAll t policy c.metas).ends] at h
    have hk := MetaFile.hash_of_mem_loadAll h hm
    by_cases hc : s.cache.contains m.hash
    · exact ⟨_, by rw [Store.updateWith, if_neg (not_not.mpr hk), if_pos hc]⟩
    · exact ⟨_, by rw [Store.updateWith, if_neg (not_not.mpr hk), if_neg hc]⟩
  · obtain ⟨g, hg, rfl, henc⟩ := exists_gathers_of_build h
    exact ⟨g, hg, holds_run hg henc⟩

/-- The small build binds one uri and holds one subgraph. Of its two deployers, which share their
bytecode, it holds the first one. -/
theorem holds_smallConfig : ∃ s report g,
    (build smallTree .lenient smallConfig).result.1 = .ok (s, report) ∧ Holds smallConfig g s ∧
      s.dotrainUris = ["a.rain"] ∧ s.subgraphs = ["s"] ∧
      s.deployerHashes = [(Envelope.deployerBytecode [2]).hash] ∧
      s.deployer? (Envelope.deployerBytecode [2]).hash = some (smallRecord 0) := by
  obtain ⟨s, report, h⟩ := exists_build_smallConfig
  obtain ⟨g, hg, hs⟩ := (holds_of_build smallTree .lenient smallConfig).2 s report h
  obtain rfl := eq_smallGathered hg
  refine ⟨s, report, _, h, hs, hs.uris, hs.subgraphs, ?_, ?_⟩
  · rw [hs.deployerHashes]
    simp [smallGathered, smallRecord, List.eraseDups_cons]
  · rw [hs.deployer]
    exact List.find?_cons_of_pos (decide_eq_true rfl)

/-! ### Texts on disk and in the store -/

/-- **The texts of a built store are those on disk.** Either two different payloads that the build
put into the cache have one digest, or the text of every uri is read back, and its bytes are the
content of the file at that path. -/
theorem dotrainText_of_build [Platform] {t : FileTree} {policy : Policy} {c : Config} {s : Store}
    {report : Report} (h : (build t policy c).result.1 = .ok (s, report)) :
    ∃ g, Gathers t policy c g ∧ (Store.Collides (payloads g) ∨
      ∀ uri ∈ s.dotrainUris, ∃ text content, s.dotrainText uri = .ok (some text) ∧
        t.readFile uri = .ok content ∧ Utf8.encode text = .ok content) := by
  obtain ⟨g, hg, rfl, henc⟩ := exists_gathers_of_build h
  refine ⟨g, hg, ?_⟩
  by_cases hc : Store.Collides (payloads g)
  · exact Or.inl hc
  refine Or.inr fun uri huri => ?_
  rw [← payloads_operations hg henc] at hc
  rw [(holds_run hg henc).uris, List.mem_eraseDups, List.mem_filterMap] at huri
  obtain ⟨file, hfile, hu⟩ := huri
  obtain ⟨content, hread, hdecode⟩ := hg.faithful file hfile
  have htext := henc _ (mem_bindings_iff.mpr ⟨file, hfile, hu, rfl⟩)
  refine ⟨file.text, content, ?_, text_of_uriOf hu ▸ hread, Utf8.encode_of_isOk hdecode htext⟩
  rw [Store.dotrainText_run (honest_operations hg) hc, bindings_operations henc,
    lastValue_bindings hg.faithful hfile hu]

/-- The text of the small build is read back, though metas share its payload. -/
theorem dotrainText_smallConfig : ∃ s report,
    (build smallTree .lenient smallConfig).result.1 = .ok (s, report) ∧
      s.dotrainText "a.rain" = .ok (some "x") := by
  obtain ⟨s, report, h⟩ := exists_build_smallConfig
  have huri : ("a.rain" : Text) ∈ s.dotrainUris := by
    obtain ⟨g, hg, rfl, henc⟩ := exists_gathers_of_build h
    obtain rfl := eq_smallGathered hg
    rw [(holds_run hg henc).uris]
    decide
  obtain ⟨g, hg, htexts⟩ := dotrainText_of_build h
  obtain rfl := eq_smallGathered hg
  have hc : ¬Store.Collides (payloads smallGathered) := by
    have he : payloads smallGathered = List.replicate 5 (Envelope.ofText "x").encode := rfl
    rw [he]
    rintro ⟨p, hp, q, hq, hne, -⟩
    exact hne ((List.eq_of_mem_replicate hp).trans (List.eq_of_mem_replicate hq).symm)
  obtain ⟨text, content, htext, hread, hencode⟩ := htexts.resolve_left hc _ huri
  rw [readFile_smallTree, Except.ok.injEq] at hread
  have hx : Utf8.decode [120] = .ok "x" := by decide
  rw [← hread] at hencode
  rw [Utf8.decode_of_encode hencode, Except.ok.injEq] at hx
  exact ⟨s, report, h, hx ▸ htext⟩

end Build

end RainMeta
