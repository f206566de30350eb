import RainMeta.Proofs.Envelope.RoundTrip
import RainMeta.Store

/-!
# Runs of operations on a store

What happens to a store over its life: a list of operations, one after another, from the store
without anything. Reading is no operation here, as what is read is a function of the store.

## One law for the cache

Four operations write into the cache and one of them also takes payloads out of it, each in its
own way. What they do to a look-up is said once, by `RainMeta.Store.get?_apply`:

* an operation may *evict* a payload (`RainMeta.Store.Evicts`): it binds a uri anew, does not
  keep what the uri was bound to before, and no other uri is bound to that;
* else an operation *writes* at most one payload (`RainMeta.Store.Operation.written?`): it puts
  it under a hash unless there is one;
* all else stays.

Every invariant of the cache is derived from that law. The tables are simpler: an operation
sets at most one key of them (`RainMeta.Store.dotrains_apply`,
`RainMeta.Store.deployers_apply`).
-/

namespace RainMeta

/-- A record that has nothing but a meta. -/
def DeployerRecord.bare (metaHash metaBytes : Bytes) : DeployerRecord :=
  { metaHash, metaBytes, bytecode := [], parserBytecode := [], storeBytecode := []
    interpreterBytecode := [], bytecodeMetaHash := [], txHash := [] }

namespace Store

/-! ### Operations -/

/-- What changes a store. -/
inductive Operation
  /-- Subgraphs are added. -/
  | addSubgraphs (urls : List Text)
  /-- A payload is put under a hash. -/
  | updateWith (hash payload : Bytes)
  /-- A uri is bound to the envelope of a text. -/
  | setDotrain (text uri : Text) (keepOld : Bool)
  /-- A deployer is set. -/
  | setDeployer (record : DeployerRecord)
  deriving DecidableEq

/-- The store after an operation. One that is refused leaves the store as it is: a payload
under a hash that is not its own, or a text that cannot be encoded. -/
def apply (s : Store) : Operation → Store
  | .addSubgraphs urls => s.addSubgraphs urls
  | .updateWith hash payload => match s.updateWith hash payload with
    | .ok (_, s') => s'
    | .error _ => s
  | .setDotrain text uri keepOld => match s.setDotrain text uri keepOld with
    | .ok (_, s') => s'
    | .error _ => s
  | .setDeployer record => s.setDeployer record

/-- The store after several operations, from the one without anything. -/
def run (ops : List Operation) : Store :=
  ops.foldl apply empty

@[simp] theorem run_concat (ops : List Operation) (op : Operation) :
    run (ops ++ [op]) = (run ops).apply op := by
  simp [run]

namespace Operation

/-- **What an operation writes**: the payload that it puts into the cache, and before it the hash
under which it does so. An operation that is refused writes nothing. -/
def written? : Operation → Option (Bytes × Bytes)
  | .addSubgraphs _ => none
  | .updateWith hash payload => if keccak256 payload = hash then some (hash, payload) else none
  | .setDotrain text _ _ =>
    let e := Envelope.ofText text
    if (Utf8.encode text).isOk then some (e.hash, e.encode) else none
  | .setDeployer record => some (record.metaHash, record.metaBytes)

/-- The payload that an operation puts into the cache. -/
def payload? (op : Operation) : Option Bytes :=
  op.written?.map Prod.snd

/-- The uri that an operation binds, and the text to whose envelope it binds it. An operation
that is refused binds none. -/
def binding? : Operation → Option (Text × Text)
  | .setDotrain text uri _ => if (Utf8.encode text).isOk then some (uri, text) else none
  | _ => none

/-- The deployer that an operation sets, and its key. -/
def deployer? : Operation → Option (Bytes × DeployerRecord)
  | .setDeployer record => some (record.bytecodeMetaHash, record)
  | _ => none

/-- The subgraphs that an operation adds. -/
def urls : Operation → List Text
  | .addSubgraphs urls => urls
  | _ => []

/-- An operation that binds a uri writes the envelope of the text. -/
theorem written?_of_binding? {op : Operation} {uri text : Text}
    (h : op.binding? = some (uri, text)) : (Utf8.encode text).isOk ∧
      op.written? = some ((Envelope.ofText text).hash, (Envelope.ofText text).encode) := by
  cases op with
  | setDotrain t u keepOld =>
    by_cases ht : (Utf8.encode t).isOk
    · simp only [binding?, if_pos ht, Option.some.injEq, Prod.mk.injEq] at h
      obtain ⟨rfl, rfl⟩ := h
      exact ⟨ht, if_pos ht⟩
    · simp [binding?, ht] at h
  | addSubgraphs urls => cases h
  | updateWith x p => cases h
  | setDeployer record => cases h

/-- **An honest operation** names the meta of a deployer by its own hash. Nothing checks
that. -/
def Honest : Operation → Prop
  | .setDeployer record => record.metaHash = keccak256 record.metaBytes
  | _ => True

/-- An honest operation writes a payload under its own hash. -/
theorem Honest.keccak256_of_written? {op : Operation} (h : op.Honest) {hash payload : Bytes}
    (he : op.written? = some (hash, payload)) : keccak256 payload = hash := by
  cases op with
  | addSubgraphs urls => cases he
  | updateWith x p =>
    by_cases hx : keccak256 p = x
    · simp only [written?, if_pos hx, Option.some.injEq, Prod.mk.injEq] at he
      rw [← he.1, ← he.2, hx]
    · simp [written?, hx] at he
  | setDotrain text uri keepOld =>
    by_cases ht : (Utf8.encode text).isOk
    · simp only [written?, if_pos ht, Option.some.injEq, Prod.mk.injEq] at he
      rw [← he.1, ← he.2]
      rfl
    · simp [written?, ht] at he
  | setDeployer record =>
    simp only [written?, Option.some.injEq, Prod.mk.injEq] at he
    rw [← he.1, ← he.2]
    exact h.symm

end Operation

/-- The payloads that a run of operations puts into the cache. -/
def payloads (ops : List Operation) : List Bytes :=
  ops.filterMap Operation.payload?

/-! ### Binding a uri -/

/-- **Binding a uri anew drops a payload**: the uri was bound to it, it need not be kept, and
after the binding no uri is bound to it. -/
structure Drops (s : Store) (uri : Text) (hash : Bytes) (keepOld : Bool) (old : Bytes) :
    Prop where
  forgets : keepOld = false
  bound : s.dotrainHash? uri = some old
  ne : old ≠ hash
  unshared : ∀ u, u ≠ uri → s.dotrainHash? u ≠ some old

/-- No uri is bound to a hash after binding one anew. -/
theorem not_mem_values_set (s : Store) (uri : Text) {hash old : Bytes} (hne : old ≠ hash) :
    old ∉ (s.dotrains.set uri hash).values ↔ ∀ u, u ≠ uri → s.dotrainHash? u ≠ some old := by
  rw [Table.mem_values_iff]
  constructor
  · intro h u hu hs
    exact h ⟨u, by rw [Table.find?_set, if_neg hu]; exact hs⟩
  · rintro h ⟨u, hu⟩
    rw [Table.find?_set] at hu
    split at hu
    · exact hne (Option.some.inj hu).symm
    · next hne' => exact h u hne' hu

/-- The cache after binding a uri: either the payload that the uri was bound to is dropped, or
nothing is. -/
theorem cache_bind (s : Store) (uri : Text) (hash payload : Bytes) (keepOld : Bool) :
    (∃ old, s.Drops uri hash keepOld old ∧
      (s.bind uri hash payload keepOld).2.cache = (s.cache.setNew hash payload).erase old) ∨
    ((∀ old, ¬s.Drops uri hash keepOld old) ∧
      (s.bind uri hash payload keepOld).2.cache = s.cache.setNew hash payload) := by
  -- a uri that was not bound drops nothing
  rcases hb : s.dotrains.find? uri with _ | old
  · refine Or.inr ⟨fun old hd => ?_, by simp [bind, hb]⟩
    have := hd.bound
    rw [dotrainHash?, hb] at this
    cases this
  by_cases hd : s.Drops uri hash keepOld old
  · have hv := (not_mem_values_set s uri hd.ne).mpr hd.unshared
    exact Or.inl ⟨old, hd, by simp [bind, hb, hd.ne, hd.forgets, hv]⟩
  · refine Or.inr ⟨fun old' hd' => ?_, ?_⟩
    · have := hd'.bound
      rw [dotrainHash?, hb, Option.some.injEq] at this
      exact hd (this ▸ hd')
    -- nothing is dropped, so one of the three tests before dropping has failed
    · have hc : (old ≠ hash && !keepOld && !(s.dotrains.set uri hash).values.contains old)
          = false := by
        rw [Bool.eq_false_iff]
        intro hc
        simp only [Bool.and_eq_true, decide_eq_true_eq, Bool.not_eq_true', List.contains_eq_mem,
          decide_eq_false_iff_not] at hc
        obtain ⟨⟨hne, hk⟩, hv⟩ := hc
        exact hd ⟨hk, hb, hne, (not_mem_values_set s uri hne).mp hv⟩
      simp only [bind, hb, hc]
      rfl

/-! ### What an operation does -/

/-- **An operation evicts a payload** if it binds a uri anew and so drops what the uri was
bound to. -/
def Evicts (s : Store) (op : Operation) (hash : Bytes) : Prop :=
  ∃ text uri keepOld, op = .setDotrain text uri keepOld ∧ (Utf8.encode text).isOk ∧
    s.Drops uri (Envelope.ofText text).hash keepOld hash

/-- An operation that puts a payload under its own hash, or is refused. -/
theorem apply_updateWith (s : Store) (hash payload : Bytes) :
    s.apply (.updateWith hash payload) =
      if keccak256 payload = hash then { s with cache := s.cache.setNew hash payload } else s := by
  by_cases hk : keccak256 payload = hash
  · by_cases hc : s.cache.contains hash = true
    · simp [apply, updateWith, hk, hc, Table.setNew]
    · simp [apply, updateWith, hk, hc, Table.setNew]
  · simp [apply, updateWith, hk]

/-- An operation that binds a uri, or is refused. -/
theorem apply_setDotrain (s : Store) (text uri : Text) (keepOld : Bool) :
    s.apply (.setDotrain text uri keepOld) =
      if (Utf8.encode text).isOk then
        (s.bind uri (Envelope.ofText text).hash (Envelope.ofText text).encode keepOld).2
      else s := by
  by_cases h : (Utf8.encode text).isOk
  · simp [apply, setDotrain, Envelope.dotrain?_of_isOk h, Except.map, h]
  · obtain ⟨cause, hc⟩ := Envelope.exists_error_of_not_isOk h
    simp [apply, setDotrain, hc, Except.map, h]

/-- The cache after an operation that evicts nothing. -/
theorem cache_apply {s : Store} {op : Operation} (h : ∀ hash, ¬s.Evicts op hash) :
    (s.apply op).cache = match op.written? with
      | some (hash, payload) => s.cache.setNew hash payload
      | none => s.cache := by
  cases op with
  | addSubgraphs urls => rfl
  | updateWith hash payload =>
    rw [apply_updateWith]
    by_cases hk : keccak256 payload = hash
    · simp [Operation.written?, hk]
    · simp [Operation.written?, hk]
  | setDotrain text uri keepOld =>
    rw [apply_setDotrain]
    by_cases ht : (Utf8.encode text).isOk
    · rcases cache_bind s uri (Envelope.ofText text).hash (Envelope.ofText text).encode keepOld
        with ⟨old, hd, -⟩ | ⟨-, hc⟩
      · exact absurd ⟨text, uri, keepOld, rfl, ht, hd⟩ (h old)
      · simpa [Operation.written?, ht] using hc
    · simp [Operation.written?, ht]
  | setDeployer record => rfl

/-- The cache after an operation that evicts a payload. -/
theorem cache_apply_of_evicts {s : Store} {op : Operation} {old : Bytes} (h : s.Evicts op old) :
    (s.apply op).cache = match op.written? with
      | some (hash, payload) => (s.cache.setNew hash payload).erase old
      | none => s.cache := by
  obtain ⟨text, uri, keepOld, rfl, ht, hd⟩ := h
  rw [apply_setDotrain]
  rcases cache_bind s uri (Envelope.ofText text).hash (Envelope.ofText text).encode keepOld
    with ⟨old', hd', hc⟩ | ⟨hn, -⟩
  · have ho : old' = old := Option.some.inj (hd'.bound.symm.trans hd.bound)
    simpa [Operation.written?, ht, ho] using hc
  · exact absurd hd (hn old)

/-- An operation evicts one payload only, and not the one that it puts into the cache. -/
theorem Evicts.unique {s : Store} {op : Operation} {x y : Bytes} (hx : s.Evicts op x)
    (hy : s.Evicts op y) : x = y := by
  obtain ⟨text, uri, keepOld, rfl, -, hd⟩ := hx
  obtain ⟨text', uri', keepOld', hop, -, hd'⟩ := hy
  cases hop
  exact Option.some.inj (hd.bound.symm.trans hd'.bound)

theorem Evicts.exists_written {s : Store} {op : Operation} {x : Bytes} (h : s.Evicts op x) :
    ∃ hash payload, op.written? = some (hash, payload) ∧ x ≠ hash := by
  obtain ⟨text, uri, keepOld, rfl, ht, hd⟩ := h
  exact ⟨(Envelope.ofText text).hash, (Envelope.ofText text).encode,
    by simp [Operation.written?, ht], hd.ne⟩

/-- **What an operation does to a look-up in the cache.** A payload that is evicted is gone;
what the operation writes is there, unless another payload was there before; all else
stays. -/
theorem get?_apply (s : Store) (op : Operation) (x : Bytes) :
    (s.Evicts op x ∧ (s.apply op).get? x = none) ∨
    (¬s.Evicts op x ∧ (s.apply op).get? x = match op.written? with
      | some (hash, payload) => if x = hash then some ((s.get? hash).getD payload) else s.get? x
      | none => s.get? x) := by
  by_cases hev : ∃ old, s.Evicts op old
  · obtain ⟨old, hold⟩ := hev
    obtain ⟨hash, payload, he, -⟩ := hold.exists_written
    have hc := cache_apply_of_evicts hold
    rw [he] at hc
    by_cases hx : x = old
    · exact Or.inl ⟨hx ▸ hold, by simp [get?, hc, hx]⟩
    · exact Or.inr ⟨fun h => hx (h.unique hold), by simp [get?, hc, hx, he]⟩
  · have hn : ∀ old, ¬s.Evicts op old := fun old h => hev ⟨old, h⟩
    refine Or.inr ⟨hn x, ?_⟩
    rw [get?, cache_apply hn]
    rcases op.written? with _ | ⟨hash, payload⟩
    · rfl
    · simp [get?]

/-- What stands in the cache and is not evicted stays as it is. -/
theorem get?_apply_of_not_evicts {s : Store} {op : Operation} {x payload : Bytes}
    (hev : ¬s.Evicts op x) (h : s.get? x = some payload) :
    (s.apply op).get? x = some payload := by
  rcases get?_apply s op x with ⟨hev', -⟩ | ⟨-, hg⟩
  · exact absurd hev' hev
  rw [hg]
  rcases op.written? with _ | ⟨hash, new⟩
  · exact h
  by_cases hx : x = hash
  · subst hx
    simp [h]
  · simp [hx, h]

/-- After an operation some payload stands under the hash under which it writes. -/
theorem get?_apply_written (s : Store) {op : Operation} {hash payload : Bytes}
    (h : op.written? = some (hash, payload)) :
    (s.apply op).get? hash = some ((s.get? hash).getD payload) := by
  rcases get?_apply s op hash with ⟨hev, -⟩ | ⟨-, hg⟩
  · obtain ⟨hash', payload', h', hne⟩ := hev.exists_written
    rw [h, Option.some.injEq, Prod.mk.injEq] at h'
    exact absurd h'.1 hne
  · simpa [h] using hg

/-- **What an operation does to the table of dotrains.** -/
theorem dotrains_apply (s : Store) (op : Operation) :
    (s.apply op).dotrains = match op.binding? with
      | some (uri, text) => s.dotrains.set uri (Envelope.ofText text).hash
      | none => s.dotrains := by
  cases op with
  | addSubgraphs urls => rfl
  | updateWith hash payload =>
    rw [apply_updateWith]
    split <;> rfl
  | setDotrain text uri keepOld =>
    rw [apply_setDotrain]
    by_cases ht : (Utf8.encode text).isOk
    · simp [Operation.binding?, ht, bind]
    · simp [Operation.binding?, ht]
  | setDeployer record => rfl

/-- A uri is bound after an operation as it was before, or the operation has just bound it. -/
theorem dotrainHash?_apply_cases {s : Store} {op : Operation} {uri : Text} {hash : Bytes}
    (h : (s.apply op).dotrainHash? uri = some hash) :
    (s.dotrainHash? uri = some hash ∧ ∀ text, op.binding? ≠ some (uri, text)) ∨
      ∃ text, op.binding? = some (uri, text) ∧ hash = (Envelope.ofText text).hash := by
  rw [dotrainHash?, dotrains_apply] at h
  rcases hb : op.binding? with _ | ⟨u, text⟩
  · rw [hb] at h
    exact Or.inl ⟨h, by simp⟩
  · simp only [hb, Table.find?_set] at h
    by_cases hu : uri = u
    · rw [if_pos hu, Option.some.injEq] at h
      exact Or.inr ⟨text, by rw [hu], h.symm⟩
    · rw [if_neg hu] at h
      exact Or.inl ⟨h, by simp [Ne.symm hu]⟩

/-- **What an operation does to the table of deployers.** -/
theorem deployers_apply (s : Store) (op : Operation) :
    (s.apply op).deployers = match op.deployer? with
      | some (key, record) => s.deployers.set key record
      | none => s.deployers := by
  cases op with
  | addSubgraphs urls => rfl
  | updateWith hash payload =>
    rw [apply_updateWith]
    split <;> rfl
  | setDotrain text uri keepOld =>
    rw [apply_setDotrain]
    split <;> rfl
  | setDeployer record => rfl

/-- **What an operation does to the subgraphs.** -/
theorem subgraphs_apply (s : Store) (op : Operation) :
    (s.apply op).subgraphs = (s.addSubgraphs op.urls).subgraphs := by
  cases op with
  | addSubgraphs urls => rfl
  | updateWith hash payload =>
    rw [apply_updateWith]
    split <;> rfl
  | setDotrain text uri keepOld =>
    rw [apply_setDotrain]
    split <;> rfl
  | setDeployer record => rfl

end Store

end RainMeta
