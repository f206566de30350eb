import RainMeta.Proofs.Build.Accounting

/-!
# Builds and the order of their inputs

A build does not depend on the order in which a configuration names its roots, its subgraphs, its
metas and its deployers (`RainMeta.Build.alike_of_reorders`). Under either policy both orders can be
built or neither can. If they can, the stores bind the same uris and hold the same deployers and
subgraphs, the reports have the same numbers and skip the same items, in some order, and
what is read back from the caches is the same unless two payloads collide.

There is one condition (`RainMeta.Build.Reorders`). Of deployers with one bytecode hash the first
one stays, so these have to keep their order. If all bytecode hashes are different, every order
will do (`RainMeta.Build.records_of_nodup`).

## What order could have changed

Everything that was gathered is gathered in another order, and nothing else changes
(`RainMeta.Build.result_eq_ok_iff`). So what is left is to see that a store does not show in which
order it was filled.

* A uri is bound to the last of the texts that were found for it. But all of them are the text of
  the same file (`RainMeta.Build.lastValue_bindings_of_perm`).
* Which hashes are in the cache does not depend on the order, as nothing leaves it. Under a hash
  there stands the payload that came first. Two payloads that are both handed in under one hash
  collide unless they are equal (`RainMeta.Build.Reorders.get?_eq`).
-/

namespace RainMeta

/-- **Two stores are alike** in their tables: the same uris are bound to the same hashes, the same
deployers are held, and the subgraphs are the same in some order. -/
structure Store.Alike (s s' : Store) : Prop where
  dotrainHash : ∀ uri, s.dotrainHash? uri = s'.dotrainHash? uri
  deployer : ∀ hash, s.deployer? hash = s'.deployer? hash
  subgraphs : s.subgraphs.Perm s'.subgraphs

/-- **Two reports are alike**: they have the same numbers, and the same items were skipped, in
some order. -/
structure Report.Alike (r r' : Report) : Prop where
  policy : r.policy = r'.policy
  subgraphs : r.subgraphs = r'.subgraphs
  metas : r.metas = r'.metas
  dotrains : r.dotrains = r'.dotrains
  deployers : r.deployers = r'.deployers
  skipped : r.skipped.Perm r'.skipped

namespace Build

/-! ### What does not show an order -/

/-- Items with different keys may be put into every order, if they are looked at by key. -/
theorem filter_eq_of_perm {α β : Type} [DecidableEq β] (key : α → β) {l l' : List α}
    (h : l.Perm l') (hn : (l.map key).Nodup) (b : β) :
    l.filter (fun a => key a = b) = l'.filter fun a => key a = b := by
  induction h with
  | nil => rfl
  | cons a _ ih => rw [List.filter_cons, List.filter_cons, ih (List.nodup_cons.mp hn).2]
  | swap a a' l =>
    have hne : key a' ≠ key a := fun heq => (List.nodup_cons.mp hn).1 (heq ▸ List.mem_cons_self)
    by_cases ha : key a = b
    · have ha' : key a' ≠ b := ha ▸ hne
      simp [ha, ha']
    · simp [List.filter_cons, ha]
  | trans h _ ih ih' => exact (ih hn).trans (ih' ((h.map key).nodup_iff.mp hn))

/-- **The order of the files does not show in what a uri is bound to**, as all of them that have
the uri hold the same text. -/
theorem lastValue_bindings_of_perm {t : FileTree} {files files' : List DotrainFile}
    (h : files.Perm files') (hf : ∀ file ∈ files, file.Faithful t) (uri : Text) :
    Table.lastValue uri (bindings files) = Table.lastValue uri (bindings files') := by
  have hf' : ∀ file ∈ files', file.Faithful t := fun file hfile => hf file (h.mem_iff.mpr hfile)
  by_cases hu : ∃ file ∈ files, uriOf file.path = some uri
  · obtain ⟨file, hfile, hu⟩ := hu
    rw [lastValue_bindings hf hfile hu, lastValue_bindings hf' (h.mem_iff.mp hfile) hu]
  · have hnone : ∀ {l : List DotrainFile}, (∀ file ∈ l, file ∈ files) →
        Table.lastValue uri (bindings l) = none := by
      intro l hl
      rw [Option.eq_none_iff_forall_ne_some]
      intro text htext
      obtain ⟨file, hfile, hfu, -⟩ := mem_bindings_iff.mp (Table.mem_of_lastValue htext)
      exact hu ⟨file, hl file hfile, hfu⟩
    rw [hnone fun file hfile => hfile, hnone fun file hfile => h.mem_iff.mpr hfile]

section Reorders

variable [Platform] {t : FileTree} {policy : Policy} {c c' : Config}

/-! ### Configurations in another order -/

/-- The records of the deployers that can be assembled. -/
def records (t : FileTree) (deployers : List (Text × DeployerConfig)) : List DeployerRecord :=
  deployers.filterMap fun d => Deployer.assembled? t d.1 d.2

/-- **A configuration in another order.** The deployers whose records have one bytecode hash keep
their order. -/
structure Reorders (t : FileTree) (c c' : Config) : Prop where
  roots : c.roots.Perm c'.roots
  subgraphs : c.subgraphs.Perm c'.subgraphs
  metas : c.metas.Perm c'.metas
  deployers : c.deployers.Perm c'.deployers
  records : ∀ hash, (records t c.deployers).filter (fun r => r.bytecodeMetaHash = hash) =
    (records t c'.deployers).filter fun r => r.bytecodeMetaHash = hash

/-- **Deployers with different bytecode hashes** may be put into every order. -/
theorem records_of_nodup {deployers deployers' : List (Text × DeployerConfig)}
    (h : deployers.Perm deployers')
    (hn : ((records t deployers).map DeployerRecord.bytecodeMetaHash).Nodup) (hash : Bytes) :
    (records t deployers).filter (fun r => r.bytecodeMetaHash = hash) =
      (records t deployers').filter fun r => r.bytecodeMetaHash = hash :=
  filter_eq_of_perm DeployerRecord.bytecodeMetaHash (h.filterMap _) hn hash

theorem Reorders.symm (h : Reorders t c c') : Reorders t c' c where
  roots := h.roots.symm
  subgraphs := h.subgraphs.symm
  metas := h.metas.symm
  deployers := h.deployers.symm
  records hash := (h.records hash).symm

/-- What can be built can be built in every order. -/
theorem Reorders.buildable (h : Reorders t c c') (hc : Buildable t policy c) :
    Buildable t policy c' :=
  hc.of_subset h.roots.symm.subset h.metas.symm.subset h.deployers.symm.subset

/-! ### What is gathered and skipped -/

theorem Reorders.files (h : Reorders t c c') (policy : Policy) :
    (gathered t policy c).files.Perm (gathered t policy c').files :=
  h.roots.flatMap_right _

theorem Reorders.loaded (h : Reorders t c c') (policy : Policy) :
    (gathered t policy c).metas.Perm (gathered t policy c').metas :=
  h.metas.filterMap _

theorem Reorders.assembled (h : Reorders t c c') (policy : Policy) :
    (gathered t policy c).records.Perm (gathered t policy c').records :=
  h.deployers.filterMap _

theorem Reorders.bindings (h : Reorders t c c') (policy : Policy) :
    (bindings (gathered t policy c).files).Perm (bindings (gathered t policy c').files) :=
  (h.files policy).filterMap _

theorem Reorders.payloads (h : Reorders t c c') (policy : Policy) :
    (payloads (gathered t policy c)).Perm (payloads (gathered t policy c')) :=
  (((h.loaded policy).map _).append ((h.bindings policy).map _)).append
    ((((List.reverse_perm _).trans (h.assembled policy)).trans (List.reverse_perm _).symm).map _)

theorem Reorders.skipped (h : Reorders t c c') (policy : Policy) :
    (skipped t policy c).Perm (skipped t policy c') :=
  ((h.roots.flatMap_right _).append (h.metas.flatMap_right _)).append
    (h.deployers.flatMap_right _)

/-! ### The tables -/

/-- The texts of what can be built can be encoded. -/
theorem Buildable.isOk_encode (hc : Buildable t policy c) :
    ∀ b ∈ bindings (gathered t policy c).files, (Utf8.encode b.2).isOk := by
  rintro ⟨uri, text⟩ hb
  obtain ⟨file, hfile, hu, rfl⟩ := mem_bindings_iff.mp hb
  have hbindable := hc.bindable file hfile
  rwa [DotrainFile.Bindable, hu] at hbindable

theorem Buildable.holds (hc : Buildable t policy c) :
    Holds c (gathered t policy c) (filled t policy c) :=
  holds_run (gathers_gathered hc.passes) hc.isOk_encode

theorem Reorders.lastValue (h : Reorders t c c') (hc : Buildable t policy c) (uri : Text) :
    Table.lastValue uri (Build.bindings (gathered t policy c).files) =
      Table.lastValue uri (Build.bindings (gathered t policy c').files) :=
  lastValue_bindings_of_perm (h.files policy) (gathers_gathered hc.passes).faithful uri

theorem Reorders.dotrainHash (h : Reorders t c c') (hc : Buildable t policy c) (uri : Text) :
    (filled t policy c).dotrainHash? uri = (filled t policy c').dotrainHash? uri := by
  rw [filled, filled, Store.dotrainHash?_run, Store.dotrainHash?_run,
    bindings_operations hc.isOk_encode, bindings_operations (h.buildable hc).isOk_encode,
    h.lastValue hc]

/-- **Stores that are filled in another order are alike.** -/
theorem Reorders.store_alike (h : Reorders t c c') (hc : Buildable t policy c) :
    (filled t policy c).Alike (filled t policy c') where
  dotrainHash := h.dotrainHash hc
  deployer hash := by
    rw [hc.holds.deployer, (h.buildable hc).holds.deployer, ← List.head?_filter,
      ← List.head?_filter]
    exact congrArg List.head? (h.records hash)
  subgraphs := by
    rw [hc.holds.subgraphs, (h.buildable hc).holds.subgraphs]
    exact perm_eraseDups h.subgraphs

/-- The reports about them are, too. -/
theorem Reorders.report_alike (h : Reorders t c c') (hc : Buildable t policy c) :
    (reported t policy c).Alike (reported t policy c') where
  policy := rfl
  subgraphs := (h.store_alike hc).subgraphs.length_eq
  metas := (h.loaded policy).length_eq
  dotrains := (h.bindings policy).length_eq
  deployers := (h.assembled policy).length_eq
  skipped := h.skipped policy

/-! ### The caches -/

/-- The same hashes are in the caches. -/
theorem Reorders.mem_keys_iff (h : Reorders t c c') (hc : Buildable t policy c) (hash : Bytes) :
    hash ∈ (filled t policy c).cache.keys ↔ hash ∈ (filled t policy c').cache.keys := by
  simp only [hc.holds.cached, (h.buildable hc).holds.cached, (h.loaded policy).mem_iff,
    (h.assembled policy).mem_iff, h.dotrainHash hc]

/-- What stands in a cache is a payload under its own hash. -/
theorem Buildable.of_get? (hc : Buildable t policy c) {hash payload : Bytes}
    (h : (filled t policy c).get? hash = some payload) :
    payload ∈ payloads (gathered t policy c) ∧ keccak256 payload = hash := by
  refine ⟨?_, hc.holds.addressed hash payload h⟩
  rw [← payloads_operations (gathers_gathered hc.passes) hc.isOk_encode]
  exact Store.mem_payloads_of_get?_run h

/-- **Under each hash there stands the same payload**, unless payloads collide. -/
theorem Reorders.get?_eq (h : Reorders t c c') (hc : Buildable t policy c)
    (hn : ¬Store.Collides (Build.payloads (gathered t policy c))) (hash : Bytes) :
    (filled t policy c).get? hash = (filled t policy c').get? hash := by
  have hkeys := h.mem_keys_iff hc hash
  rw [Table.mem_keys_iff, Table.mem_keys_iff] at hkeys
  rcases hg : (filled t policy c).get? hash with _ | payload
  · rcases hg' : (filled t policy c').get? hash with _ | payload'
    · rfl
    · obtain ⟨payload, hp⟩ := hkeys.mpr ⟨payload', hg'⟩
      cases hg.symm.trans hp
  · obtain ⟨payload', hg'⟩ := hkeys.mp ⟨payload, hg⟩
    obtain ⟨hmem, hash_eq⟩ := hc.of_get? hg
    obtain ⟨hmem', hash_eq'⟩ := (h.buildable hc).of_get? hg'
    rw [Store.eq_of_keccak256_eq hn hmem ((h.payloads policy).mem_iff.mpr hmem')
      (hash_eq.trans hash_eq'.symm)]
    exact hg'.symm

theorem Buildable.dotrainText (hc : Buildable t policy c)
    (hn : ¬Store.Collides (payloads (gathered t policy c))) (uri : Text) :
    (filled t policy c).dotrainText uri =
      .ok (Table.lastValue uri (bindings (gathered t policy c).files)) := by
  have hg := gathers_gathered hc.passes
  rw [← payloads_operations hg hc.isOk_encode] at hn
  rw [filled, Store.dotrainText_run (honest_operations hg) hn, bindings_operations hc.isOk_encode]

theorem Reorders.dotrainText (h : Reorders t c c') (hc : Buildable t policy c)
    (hn : ¬Store.Collides (Build.payloads (gathered t policy c))) (uri : Text) :
    (filled t policy c).dotrainText uri = (filled t policy c').dotrainText uri := by
  have hn' : ¬Store.Collides (Build.payloads (gathered t policy c')) := by
    rintro ⟨p, hp, q, hq, hne⟩
    exact hn ⟨p, (h.payloads policy).mem_iff.mpr hp, q, (h.payloads policy).mem_iff.mpr hq, hne⟩
  rw [hc.dotrainText hn, (h.buildable hc).dotrainText hn', h.lastValue hc]

/-! ### Builds -/

/-- **Builds in another order.** Under either policy both configurations can be built, or neither
can. If both are built, the stores and the reports are alike, and either two different payloads
that were put into the cache have one digest, or the stores hold the same payloads and texts. -/
theorem alike_of_reorders (h : Reorders t c c') (policy : Policy) :
    ((∃ s report, (build t policy c).result.1 = .ok (s, report)) ↔
      ∃ s report, (build t policy c').result.1 = .ok (s, report)) ∧
    ∀ s report s' report', (build t policy c).result.1 = .ok (s, report) →
      (build t policy c').result.1 = .ok (s', report') →
      s.Alike s' ∧ report.Alike report' ∧
      (Store.Collides (payloads (gathered t policy c)) ∨
        (∀ hash, s.get? hash = s'.get? hash) ∧ ∀ uri, s.dotrainText uri = s'.dotrainText uri) := by
  refine ⟨?_, fun s report s' report' hs hs' => ?_⟩
  · rw [exists_result_iff, exists_result_iff]
    exact ⟨h.buildable, h.symm.buildable⟩
  · obtain ⟨hc, rfl, rfl⟩ := result_eq_ok_iff.mp hs
    obtain ⟨-, rfl, rfl⟩ := result_eq_ok_iff.mp hs'
    refine ⟨h.store_alike hc, h.report_alike hc, ?_⟩
    by_cases hn : Store.Collides (payloads (gathered t policy c))
    · exact Or.inl hn
    · exact Or.inr ⟨h.get?_eq hc hn, h.dotrainText hc hn⟩

end Reorders

/-- The patchy configuration in another order. The two deployers that share their bytecode keep
theirs. -/
def turnedConfig : Config :=
  { roots := [.here, gone], metas := [.binary ⟨.relative, ["m"]⟩, .hex gone]
    deployers := [("0x00", Deployer.smallDeployer), ("00", goneDeployer),
      ("0x01", Deployer.smallDeployer)] }

theorem reorders_turnedConfig : Reorders smallTree patchyConfig turnedConfig where
  roots := .swap _ _ _
  subgraphs := .refl _
  metas := .swap _ _ _
  deployers := .swap _ _ _
  records hash := by
    have hzero : Hex.decode "0x00" = .ok [0] := by decide
    have hone : Hex.decode "0x01" = .ok [1] := by decide
    simp only [records, patchyConfig, smallDeployers, turnedConfig, List.filterMap_cons,
      List.filterMap_nil, assembled?_goneDeployer, assembled?_smallDeployer hzero,
      assembled?_smallDeployer hone]

/-- Both are built, and the stores and the reports are alike. -/
theorem alike_turnedConfig : ∃ s report s' report',
    (build smallTree .lenient patchyConfig).result.1 = .ok (s, report) ∧
      (build smallTree .lenient turnedConfig).result.1 = .ok (s', report') ∧
      s.Alike s' ∧ report.Alike report' := by
  obtain ⟨s, report, h⟩ := exists_build_patchyConfig
  obtain ⟨hreturns, halike⟩ := alike_of_reorders reorders_turnedConfig .lenient
  obtain ⟨s', report', h'⟩ := hreturns.mp ⟨s, report, h⟩
  obtain ⟨hstore, hreport, -⟩ := halike s report s' report' h h'
  exact ⟨s, report, s', report', h, h', hstore, hreport⟩

end Build

end RainMeta
