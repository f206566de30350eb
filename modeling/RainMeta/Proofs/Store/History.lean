import RainMeta.Platform.Usual
import RainMeta.Proofs.Store.Content
import RainMeta.Proofs.Table

/-!
# What a store has after a run

What a store answers is a function of the operations that were run, said without any table or
cache: the text of a uri is the one that was set last, the deployer of a key is the one that
was set last, and uris, keys and subgraphs stand in the order in which they came first
(`RainMeta.Store.run_refines_history`).

## The text that is not stored

A store does not keep texts. It keeps, for each uri, the hash of an envelope, and shares the
cache of payloads with everything else. Three facts link the two:

* `RainMeta.Store.dotrains_run`: each uri is bound to the hash of its last text;
* `RainMeta.Store.exists_payload_of_bound`: under a hash that a uri is bound to stands some
  payload, whatever was evicted in between;
* `RainMeta.Store.contentAddressed_run` and `RainMeta.Store.mem_payloads_of_get?_run`: that
  payload has the hash under which it stands, and it is one that the run put into the cache.

So the payload is the envelope of the last text, or else the run holds two payloads with one
digest (`RainMeta.Store.Collides`).
-/

namespace RainMeta

namespace Store

/-! ### The tables -/

/-- The table of dotrains is what the run bound. -/
theorem dotrains_run (ops : List Operation) :
    (run ops).dotrains = Table.setAll
      ((ops.filterMap Operation.binding?).map fun b => (b.1, (Envelope.ofText b.2).hash)) := by
  induction ops using List.reverseRecOn with
  | nil => rfl
  | append_singleton ops op ih =>
    rw [run_concat, dotrains_apply, ih]
    rcases h : op.binding? with _ | ⟨uri, text⟩
    · simp [h]
    · simp [h]

/-- The table of deployers is what the run set. -/
theorem deployers_run (ops : List Operation) :
    (run ops).deployers = Table.setAll (ops.filterMap Operation.deployer?) := by
  induction ops using List.reverseRecOn with
  | nil => rfl
  | append_singleton ops op ih =>
    rw [run_concat, deployers_apply, ih]
    rcases h : op.deployer? with _ | ⟨key, record⟩
    · simp [h]
    · simp [h]

/-- Subgraphs that are added to those without repeats leave none. -/
theorem subgraphs_addSubgraphs (s : Store) (known urls : List Text)
    (h : s.subgraphs = known.eraseDups) :
    (s.addSubgraphs urls).subgraphs = (known ++ urls).eraseDups := by
  simp only [addSubgraphs, h]
  clear h
  -- what is known after one more url is again a list without its repeats
  induction urls generalizing known with
  | nil => simp
  | cons url urls ih =>
    rw [← List.singleton_append, ← List.append_assoc, ← ih, eraseDups_concat]
    simp only [List.singleton_append, List.foldl_cons, List.mem_eraseDups]

/-- The subgraphs are what the run added. -/
theorem subgraphs_run (ops : List Operation) :
    (run ops).subgraphs = (ops.flatMap Operation.urls).eraseDups := by
  induction ops using List.reverseRecOn with
  | nil => rfl
  | append_singleton ops op ih =>
    rw [run_concat, subgraphs_apply, subgraphs_addSubgraphs _ _ _ ih, List.flatMap_append,
      List.flatMap_singleton]

/-- The hash that a uri is bound to is the one of its last text. -/
theorem dotrainHash?_run (ops : List Operation) (uri : Text) :
    (run ops).dotrainHash? uri =
      (Table.lastValue uri (ops.filterMap Operation.binding?)).map
        fun text => (Envelope.ofText text).hash := by
  rw [dotrainHash?, dotrains_run, Table.find?_setAll]
  exact Table.lastValue_map (fun text => (Envelope.ofText text).hash) uri _

/-! ### The cache -/

/-- **Every uri is bound to a payload that is there.** -/
def BoundResident (s : Store) : Prop :=
  ∀ uri hash, s.dotrainHash? uri = some hash → ∃ payload, s.get? hash = some payload

theorem boundResident_apply {s : Store} (hs : s.BoundResident) (op : Operation) :
    (s.apply op).BoundResident := by
  intro uri hash hb
  rcases dotrainHash?_apply_cases hb with ⟨hold, hnew⟩ | ⟨text, hnew, rfl⟩
  · obtain ⟨payload, hp⟩ := hs uri hash hold
    refine ⟨payload, get?_apply_of_not_evicts ?_ hp⟩
    -- what is evicted belongs to a uri that is bound anew and to no other, so not to this one
    rintro ⟨text, u, keepOld, rfl, ht, hd⟩
    by_cases hu : uri = u
    · exact hnew text (by simp [Operation.binding?, ht, hu])
    · exact hd.unshared uri hu hold
  · exact ⟨_, get?_apply_written s (Operation.written?_of_binding? hnew).2⟩

/-- **Whatever was evicted, every uri is bound to a payload that is there.** -/
theorem exists_payload_of_bound (ops : List Operation) : (run ops).BoundResident := by
  induction ops using List.reverseRecOn with
  | nil =>
    intro uri hash h
    cases h
  | append_singleton ops op ih =>
    rw [run_concat]
    exact boundResident_apply ih op

/-- What stands in the cache was put there by the run. -/
theorem mem_payloads_of_get?_run {ops : List Operation} {hash payload : Bytes}
    (h : (run ops).get? hash = some payload) : payload ∈ payloads ops := by
  induction ops using List.reverseRecOn with
  | nil => cases h
  | append_singleton ops op ih =>
    rw [payloads, List.filterMap_append, List.mem_append]
    rw [run_concat] at h
    rcases get?_apply (run ops) op hash with ⟨-, hg⟩ | ⟨-, hg⟩
    · rw [hg] at h
      cases h
    rw [hg] at h
    rcases he : op.written? with _ | ⟨x, new⟩
    · rw [he] at h
      exact Or.inl (ih h)
    simp only [he] at h
    by_cases hx : hash = x
    · subst hx
      rw [if_pos rfl, Option.some.injEq] at h
      rcases hold : (run ops).get? hash with _ | old
      · rw [hold, Option.getD_none] at h
        exact Or.inr (by simp [Operation.payload?, he, h])
      · rw [hold, Option.getD_some] at h
        exact Or.inl (ih (h ▸ hold))
    · rw [if_neg hx] at h
      exact Or.inl (ih h)

/-- The envelope of a text that a run binds is one of the payloads of the run. -/
theorem mem_payloads_of_binding {ops : List Operation} {uri text : Text}
    (h : (uri, text) ∈ ops.filterMap Operation.binding?) :
    (Utf8.encode text).isOk ∧ (Envelope.ofText text).encode ∈ payloads ops := by
  obtain ⟨op, hop, hb⟩ := List.mem_filterMap.mp h
  obtain ⟨ht, he⟩ := Operation.written?_of_binding? hb
  exact ⟨ht, List.mem_filterMap.mpr ⟨op, hop, by rw [Operation.payload?, he]; rfl⟩⟩

/-! ### Digests -/

/-- **Two different payloads have one digest.** -/
def Collides (payloads : List Bytes) : Prop :=
  ∃ p ∈ payloads, ∃ q ∈ payloads, p ≠ q ∧ keccak256 p = keccak256 q

theorem eq_of_keccak256_eq {payloads : List Bytes} (h : ¬Collides payloads) {p q : Bytes}
    (hp : p ∈ payloads) (hq : q ∈ payloads) (heq : keccak256 p = keccak256 q) : p = q :=
  Decidable.not_not.mp fun hne => h ⟨p, hp, q, hq, hne, heq⟩

/-- Two texts are bound to one uri, one after the other. Between them a deployer is set whose
meta is the envelope of the first. -/
def rebindingRun (keepOld : Bool) : List Operation :=
  [.setDotrain [] [] true,
    .setDeployer (.bare (Envelope.ofText []).hash (Envelope.ofText []).encode),
    .setDotrain ['a'] [] keepOld]

theorem honest_rebindingRun (keepOld : Bool) : ∀ op ∈ rebindingRun keepOld, op.Honest := by
  simp [rebindingRun, Operation.Honest, DeployerRecord.bare, Envelope.hash]

theorem not_collides_rebindingRun (keepOld : Bool) :
    ¬Collides (payloads (rebindingRun keepOld)) := by
  have h₀ : (Utf8.encode []).isOk := by decide
  have h₁ : (Utf8.encode ['a']).isOk := by decide
  have hp : payloads (rebindingRun keepOld) = [(Envelope.ofText []).encode,
      (Envelope.ofText []).encode, (Envelope.ofText ['a']).encode] := by
    simp [payloads, rebindingRun, Operation.payload?, Operation.written?, DeployerRecord.bare, h₀,
      h₁]
  have hne : keccak256 (Envelope.ofText []).encode ≠ keccak256 (Envelope.ofText ['a']).encode :=
    Envelope.hash_ofText_nil_ne
  rw [hp]
  -- what the two envelopes are does not matter any more
  generalize (Envelope.ofText []).encode = a at hne
  generalize (Envelope.ofText ['a']).encode = b at hne
  rintro ⟨p, hpm, q, hqm, hpq, hk⟩
  simp only [List.mem_cons, List.not_mem_nil, or_false, or_self_left] at hpm hqm
  rcases hpm with rfl | rfl
  · rcases hqm with rfl | rfl
    · exact hpq rfl
    · exact hne hk
  · rcases hqm with rfl | rfl
    · exact hne hk.symm
    · exact hpq rfl

/-- The payload under the digest of one that the run put into the cache is that one. -/
theorem get?_run_of_ne_none {ops : List Operation} (hops : ∀ op ∈ ops, op.Honest)
    (hc : ¬Collides (payloads ops)) {payload : Bytes} (hp : payload ∈ payloads ops)
    (h : (run ops).get? (keccak256 payload) ≠ none) :
    (run ops).get? (keccak256 payload) = some payload := by
  obtain ⟨found, hf⟩ := Option.ne_none_iff_exists'.mp h
  have hk := contentAddressed_run hops _ _ hf
  rw [hf, eq_of_keccak256_eq hc (mem_payloads_of_get?_run hf) hp hk]

/-! ### Reading a text back -/

/-- A text is read back from the form of its envelope. -/
theorem textOf_encode [Platform] {text : Text} (h : (Utf8.encode text).isOk) :
    textOf (Envelope.ofText text).encode = .ok text := by
  rcases hb : Utf8.encode text with _ | b
  · rw [hb] at h
    cases h
  obtain ⟨-, hbytes, hlen⟩ := Utf8.encode_eq_ok_iff.mp hb
  have hpay : (Envelope.ofText text).payload = b := hbytes.symm
  have hd : Envelope.decode (Envelope.ofText text).encode = .ok (.ofText text) := by
    have := Envelope.decode_encode_append (.ofText text)
      (by rw [hpay]; exact Nat.lt_of_le_of_lt hlen (by decide)) []
    rwa [List.append_nil] at this
  rw [textOf, hd]
  simp only [hpay, Utf8.decode_of_encode hb]

/-- The text of a uri after a run, if no two payloads of the run have one digest. -/
theorem dotrainText_run [Platform] {ops : List Operation} (hops : ∀ op ∈ ops, op.Honest)
    (hc : ¬Collides (payloads ops)) (uri : Text) :
    (run ops).dotrainText uri =
      .ok (Table.lastValue uri (ops.filterMap Operation.binding?)) := by
  rcases hl : Table.lastValue uri (ops.filterMap Operation.binding?) with _ | text
  · simp [dotrainText, dotrainHash?_run, hl]
  obtain ⟨ht, hp⟩ := mem_payloads_of_binding (Table.mem_of_lastValue hl)
  have hb : (run ops).dotrainHash? uri = some (Envelope.ofText text).hash := by
    rw [dotrainHash?_run, hl, Option.map_some]
  -- some payload is there, and under this digest it can only be the envelope of the text
  obtain ⟨payload, hres⟩ := exists_payload_of_bound ops uri _ hb
  have hg := get?_run_of_ne_none hops hc hp (Option.ne_none_iff_exists'.mpr ⟨payload, hres⟩)
  rw [Envelope.hash] at hb
  simp only [dotrainText, hb, hg, textOf_encode ht, Except.map]

/-- **A store refines its history.** After every run of honest operations, either two different
payloads of the run have one digest, or the text of each uri is the one that was last bound to
it; and in any case the uris are those that were bound, in the order in which they were bound
first, each deployer is the one that was set last under its key, the keys stand in the order in
which they were set first, and the subgraphs are all that were added, without repeats. -/
theorem run_refines_history [Platform] (ops : List Operation) (honest : ∀ op ∈ ops, op.Honest) :
    (Collides (payloads ops) ∨ ∀ uri, (run ops).dotrainText uri =
      .ok (Table.lastValue uri (ops.filterMap Operation.binding?))) ∧
    (run ops).dotrainUris = ((ops.filterMap Operation.binding?).map Prod.fst).eraseDups ∧
    (∀ key, (run ops).deployer? key =
      Table.lastValue key (ops.filterMap Operation.deployer?)) ∧
    (run ops).deployerHashes = ((ops.filterMap Operation.deployer?).map Prod.fst).eraseDups ∧
    (run ops).subgraphs = (ops.flatMap Operation.urls).eraseDups := by
  refine ⟨?_, ?_, fun key => ?_, ?_, subgraphs_run ops⟩
  · by_cases hc : Collides (payloads ops)
    · exact Or.inl hc
    · exact Or.inr (dotrainText_run honest hc)
  · rw [dotrainUris, dotrains_run, Table.keys_setAll, List.map_map]
    rfl
  · rw [deployer?, deployers_run, Table.find?_setAll]
  · rw [deployerHashes, deployers_run, Table.keys_setAll]

/-- The second text is read back, though the deployer shared the payload of the first. -/
theorem dotrainText_rebindingRun :
    (∀ op ∈ rebindingRun false, op.Honest) ∧
      (run (rebindingRun false)).dotrainText [] = .ok (some ['a']) ∧
      (run (rebindingRun false)).dotrainUris = [[]] := by
  obtain ⟨htext, huris, -⟩ := run_refines_history (rebindingRun false) (honest_rebindingRun false)
  refine ⟨honest_rebindingRun false, ?_, huris⟩
  rcases htext with hc | ht
  · exact absurd hc (not_collides_rebindingRun false)
  · exact ht []

end Store

end RainMeta
