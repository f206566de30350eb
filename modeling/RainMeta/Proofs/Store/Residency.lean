import RainMeta.Proofs.Store.History

/-!
# Which payloads stay

Payloads that were put into a store do not all stay. Binding a uri anew may evict the payload
that the uri was bound to, and it asks the uris only whether anyone else needs that payload. A
deployer whose meta is the envelope of a dotrain is not asked, so its meta may go while its
record stays.

* `RainMeta.Store.Lost`: a payload was evicted and not put back since.
* `RainMeta.Store.get?_run_eq_none_iff`: of the payloads that a run put into the cache, those
  are missing at its end that are lost, and no others.
* `RainMeta.Store.deployer_meta_run`: what this leaves of a deployer's meta. It is under its
  hash at the end of a run unless it is lost, and only the envelope of a dotrain's text can be
  lost.
* `RainMeta.Store.get?_rebindingRun`: a run that loses the meta of a deployer it holds.
-/

namespace RainMeta

namespace Store

/-! ### Loss -/

/-- **A hash is lost in a run**: some operation evicts what stands under it, and none of the
later ones writes under it. -/
def Lost (ops : List Operation) (hash : Bytes) : Prop :=
  ∃ before op after, ops = before ++ op :: after ∧ (run before).Evicts op hash ∧
    ∀ later ∈ after, ∀ payload, later.written? ≠ some (hash, payload)

/-- A run puts some payload into the cache under a hash. -/
def Writes (ops : List Operation) (hash : Bytes) : Prop :=
  ∃ op ∈ ops, ∃ payload, op.written? = some (hash, payload)

theorem writes_concat {ops : List Operation} {op : Operation} {hash : Bytes} :
    Writes (ops ++ [op]) hash ↔
      Writes ops hash ∨ ∃ payload, op.written? = some (hash, payload) := by
  simp [Writes, or_and_right, exists_or]

theorem lost_concat {ops : List Operation} {op : Operation} {hash : Bytes} :
    Lost (ops ++ [op]) hash ↔ (run ops).Evicts op hash ∨
      Lost ops hash ∧ ∀ payload, op.written? ≠ some (hash, payload) := by
  constructor
  · rintro ⟨before, evicting, after, heq, hev, hlater⟩
    -- the evicting operation is either the last one or stands before it
    rcases List.eq_nil_or_concat after with rfl | ⟨between, last, rfl⟩
    · obtain ⟨rfl, hop⟩ := List.append_inj' heq rfl
      obtain rfl : op = evicting := List.singleton_inj.mp hop
      exact Or.inl hev
    · rw [List.concat_eq_append, ← List.cons_append, ← List.append_assoc] at heq
      obtain ⟨rfl, hop⟩ := List.append_inj' heq rfl
      obtain rfl : op = last := List.singleton_inj.mp hop
      refine Or.inr ⟨⟨before, evicting, between, rfl, hev, fun later hl => ?_⟩, ?_⟩
      · exact hlater later (by simp [hl])
      · exact hlater op (by simp)
  · rintro (hev | ⟨⟨before, evicting, after, rfl, hev, hlater⟩, hop⟩)
    · exact ⟨ops, op, [], rfl, hev, by simp⟩
    · refine ⟨before, evicting, after ++ [op], by simp, hev, fun later hl => ?_⟩
      rcases List.mem_append.mp hl with hl | hl
      · exact hlater later hl
      · rw [List.mem_singleton.mp hl]
        exact hop

/-- **A payload that was put into the cache is missing exactly if it is lost.** -/
theorem get?_run_eq_none_iff {ops : List Operation} {hash : Bytes} (h : Writes ops hash) :
    (run ops).get? hash = none ↔ Lost ops hash := by
  induction ops using List.reverseRecOn with
  | nil =>
    obtain ⟨op, hop, -⟩ := h
    cases hop
  | append_singleton ops op ih =>
    rw [run_concat, lost_concat]
    rcases get?_apply (run ops) op hash with ⟨hev, hg⟩ | ⟨hev, hg⟩
    · exact iff_of_true hg (Or.inl hev)
    by_cases he : ∃ payload, op.written? = some (hash, payload)
    · obtain ⟨payload, he⟩ := he
      -- the last operation puts a payload there, so nothing that came before matters
      refine iff_of_false ?_ ?_
      · rw [get?_apply_written (run ops) he]
        exact Option.some_ne_none _
      · rintro (hev' | ⟨-, hne⟩)
        · exact hev hev'
        · exact hne payload he
    · have hne : ∀ payload, op.written? ≠ some (hash, payload) := fun p hp => he ⟨p, hp⟩
      -- the last operation does not concern this hash
      have hstay : ((run ops).apply op).get? hash = (run ops).get? hash := by
        rw [hg]
        rcases hop : op.written? with _ | ⟨x, payload⟩
        · rfl
        · have hx : hash ≠ x := by
            rintro rfl
            exact hne payload hop
          simp only [if_neg hx]
      rw [hstay, ih ((writes_concat.mp h).resolve_right he)]
      constructor
      · exact fun hl => Or.inr ⟨hl, hne⟩
      · rintro (hev' | ⟨hl, -⟩)
        · exact absurd hev' hev
        · exact hl

/-- A run that keeps what uris were bound to before loses nothing. -/
theorem not_lost_of_keepOld {ops : List Operation}
    (h : ∀ text uri keepOld, .setDotrain text uri keepOld ∈ ops → keepOld = true)
    (hash : Bytes) : ¬Lost ops hash := by
  rintro ⟨before, op, after, rfl, ⟨text, uri, keepOld, rfl, -, hd⟩, -⟩
  have hkeep := h text uri keepOld (by simp)
  rw [hd.forgets] at hkeep
  cases hkeep

/-- **What an honest run that keeps everything has in its cache**: the digests of its payloads. -/
theorem mem_keys_run_iff {ops : List Operation} (honest : ∀ op ∈ ops, op.Honest)
    (keeps : ∀ text uri keepOld, .setDotrain text uri keepOld ∈ ops → keepOld = true)
    (hash : Bytes) : hash ∈ (run ops).cache.keys ↔ ∃ p ∈ payloads ops, keccak256 p = hash := by
  rw [Table.mem_keys_iff]
  constructor
  · rintro ⟨payload, h⟩
    exact ⟨payload, mem_payloads_of_get?_run h, contentAddressed_run honest _ _ h⟩
  · rintro ⟨payload, hp, hk⟩
    obtain ⟨op, hop, he⟩ := List.mem_filterMap.mp hp
    obtain ⟨⟨x, _⟩, hw, rfl⟩ := Option.map_eq_some_iff.mp he
    rw [(honest op hop).keccak256_of_written? hw] at hk
    have hwrites : Writes ops hash := ⟨op, hop, _, hk ▸ hw⟩
    refine Option.ne_none_iff_exists'.mp fun hn => ?_
    exact not_lost_of_keepOld keeps hash ((get?_run_eq_none_iff hwrites).mp hn)

/-! ### The metas of deployers -/

/-- A deployer that a store holds was set by the run. -/
theorem setDeployer_mem_of_deployer?_run {ops : List Operation} {key : Bytes}
    {record : DeployerRecord} (h : (run ops).deployer? key = some record) :
    .setDeployer record ∈ ops := by
  rw [deployer?, deployers_run, Table.find?_setAll] at h
  obtain ⟨op, hop, hd⟩ := List.mem_filterMap.mp (Table.mem_of_lastValue h)
  cases op with
  | setDeployer r =>
    simp only [Operation.deployer?, Option.some.injEq, Prod.mk.injEq] at hd
    exact hd.2 ▸ hop
  | addSubgraphs urls => cases hd
  | updateWith x p => cases hd
  | setDotrain text uri keepOld => cases hd

/-- What is lost was the envelope of a text that the run bound to a uri. -/
theorem exists_text_of_lost {ops : List Operation} {hash : Bytes} (h : Lost ops hash) :
    ∃ uri text, (uri, text) ∈ ops.filterMap Operation.binding? ∧
      hash = (Envelope.ofText text).hash := by
  obtain ⟨before, op, after, rfl, ⟨_, uri, _, -, -, hd⟩, -⟩ := h
  have hb := hd.bound
  rw [dotrainHash?_run] at hb
  obtain ⟨text, hl, rfl⟩ := Option.map_eq_some_iff.mp hb
  refine ⟨uri, text, ?_, rfl⟩
  rw [List.filterMap_append]
  exact List.mem_append_left _ (Table.mem_of_lastValue hl)

/-- **The meta of a deployer stays unless it is lost.** After every run of honest operations,
either two different payloads of the run have one digest, or the meta of each deployer that
the store holds is under its hash, if that hash is not lost, and nothing is under it, if it is;
and a meta whose hash is lost is the envelope of a text that the run bound to a uri. -/
theorem deployer_meta_run (ops : List Operation) (honest : ∀ op ∈ ops, op.Honest) :
    Collides (payloads ops) ∨
      ∀ key record, (run ops).deployer? key = some record →
        (¬Lost ops record.metaHash →
          (run ops).get? record.metaHash = some record.metaBytes) ∧
        (Lost ops record.metaHash → (run ops).get? record.metaHash = none ∧
          ∃ uri text, (uri, text) ∈ ops.filterMap Operation.binding? ∧
            record.metaBytes = (Envelope.ofText text).encode) := by
  by_cases hc : Collides (payloads ops)
  · exact Or.inl hc
  refine Or.inr fun key record hr => ?_
  have hset := setDeployer_mem_of_deployer?_run hr
  have hhash : record.metaHash = keccak256 record.metaBytes := honest _ hset
  have hwrites : Writes ops record.metaHash := ⟨_, hset, record.metaBytes, rfl⟩
  have hpay : record.metaBytes ∈ payloads ops := List.mem_filterMap.mpr ⟨_, hset, rfl⟩
  refine ⟨fun hl => ?_, fun hl => ⟨(get?_run_eq_none_iff hwrites).mpr hl, ?_⟩⟩
  · have hne : (run ops).get? record.metaHash ≠ none :=
      fun hn => hl ((get?_run_eq_none_iff hwrites).mp hn)
    rw [hhash] at hne ⊢
    exact get?_run_of_ne_none honest hc hpay hne
  · obtain ⟨uri, text, hmem, htext⟩ := exists_text_of_lost hl
    refine ⟨uri, text, hmem, ?_⟩
    refine eq_of_keccak256_eq hc hpay (mem_payloads_of_binding hmem).2 ?_
    rw [← hhash, htext, Envelope.hash]

/-- If the second binding keeps the payload of the first, the deployer has its meta. -/
theorem get?_rebindingRun_keepOld :
    (∀ op ∈ rebindingRun true, op.Honest) ∧
      (run (rebindingRun true)).get? (Envelope.ofText []).hash =
        some (Envelope.ofText []).encode := by
  refine ⟨honest_rebindingRun true, ?_⟩
  have hkeep : ∀ text uri keepOld, .setDotrain text uri keepOld ∈ rebindingRun true →
      keepOld = true := by
    simp +contextual [rebindingRun]
  have hmeta := (deployer_meta_run (rebindingRun true) (honest_rebindingRun true)).resolve_left
    (not_collides_rebindingRun true)
  exact (hmeta [] _ rfl).1 (not_lost_of_keepOld hkeep _)

/-- The second binding evicts what the first one and the deployer share. -/
theorem lost_rebindingRun : Lost (rebindingRun false) (Envelope.ofText []).hash := by
  have h₀ : (Utf8.encode []).isOk := by decide
  have h₁ : (Utf8.encode ['a']).isOk := by decide
  have hbound : ∀ uri, (run ((rebindingRun false).take 2)).dotrainHash? uri =
      (Table.lastValue uri [(([] : Text), ([] : Text))]).map
        fun text => (Envelope.ofText text).hash := by
    intro uri
    rw [dotrainHash?_run]
    simp [rebindingRun, List.filterMap_cons, Operation.binding?, h₀]
  refine ⟨(rebindingRun false).take 2, .setDotrain ['a'] [] false, [], rfl, ?_, by simp⟩
  refine ⟨['a'], [], false, rfl, h₁, rfl, ?_, Envelope.hash_ofText_nil_ne, fun uri hne => ?_⟩
  · rw [hbound]
    rfl
  · rw [hbound]
    simp [Table.lastValue, Ne.symm hne]

/-- **A deployer without its meta**: if the second binding does not keep the payload of the
first, the deployer is held and nothing is under the hash of its meta, with honest operations
and no two payloads that have one digest. -/
theorem get?_rebindingRun :
    (∀ op ∈ rebindingRun false, op.Honest) ∧ ¬Collides (payloads (rebindingRun false)) ∧
      (run (rebindingRun false)).deployer? [] =
        some (.bare (Envelope.ofText []).hash (Envelope.ofText []).encode) ∧
      (run (rebindingRun false)).get? (Envelope.ofText []).hash = none := by
  refine ⟨honest_rebindingRun false, not_collides_rebindingRun false, rfl, ?_⟩
  have hwrites : Writes (rebindingRun false) (Envelope.ofText []).hash :=
    ⟨_, List.mem_cons_of_mem _ List.mem_cons_self, (Envelope.ofText []).encode, rfl⟩
  exact (get?_run_eq_none_iff hwrites).mpr lost_rebindingRun

end Store

end RainMeta
