import Mathlib.Data.List.Induction
import RainMeta.Proofs.Store.Operation

/-!
# Content addressing

A store is content addressed if every payload in its cache stands under its own hash
(`RainMeta.Store.ContentAddressed`). Adding metas and binding uris keep that: the one checks
the hash, the other computes it. Setting a deployer does neither and takes over the hash that
the record names, so a record may plant a payload under a hash that is not its own
(`RainMeta.Store.Plants`).

`RainMeta.Store.contentAddressed_apply_iff` says that nothing else breaks the addressing, and
that planting always does; `RainMeta.Store.contentAddressed_along_run_iff` says the same of
all stores along a run. A run of honest operations therefore never breaks it
(`RainMeta.Store.contentAddressed_run`).
-/

namespace RainMeta

namespace Store

/-- **Content addressing**: every payload stands under its own hash. -/
def ContentAddressed (s : Store) : Prop :=
  ∀ hash payload, s.get? hash = some payload → keccak256 payload = hash

/-- **A record plants its meta** in a store if it names a hash that is not the one of its meta,
and no payload stands under that hash. -/
def Plants (s : Store) (record : DeployerRecord) : Prop :=
  keccak256 record.metaBytes ≠ record.metaHash ∧ s.get? record.metaHash = none

theorem contentAddressed_empty : ContentAddressed empty := by
  intro hash payload h
  cases h

/-! ### One operation -/

/-- An operation writes a payload under its own hash, unless a record names another. -/
theorem keccak256_of_not_plants {s : Store} {op : Operation} {hash payload : Bytes}
    (he : op.written? = some (hash, payload))
    (hp : ∀ record, op = .setDeployer record → ¬s.Plants record) (hn : s.get? hash = none) :
    keccak256 payload = hash := by
  cases op with
  | setDeployer record =>
    simp only [Operation.written?, Option.some.injEq, Prod.mk.injEq] at he
    obtain ⟨rfl, rfl⟩ := he
    exact Decidable.not_not.mp fun hk => hp record rfl ⟨hk, hn⟩
  | addSubgraphs urls => cases he
  | updateWith x p =>
    have honest : (Operation.updateWith x p).Honest := trivial
    exact honest.keccak256_of_written? he
  | setDotrain text uri keepOld =>
    have honest : (Operation.setDotrain text uri keepOld).Honest := trivial
    exact honest.keccak256_of_written? he

/-- A planted payload is found under the hash that is not its own. -/
theorem get?_apply_of_plants {s : Store} {record : DeployerRecord} (h : s.Plants record) :
    (s.apply (.setDeployer record)).get? record.metaHash = some record.metaBytes := by
  rcases get?_apply s (.setDeployer record) record.metaHash with ⟨hev, -⟩ | ⟨-, hg⟩
  · obtain ⟨text, uri, keepOld, hop, -⟩ := hev
    cases hop
  · simpa [Operation.written?, h.2] using hg

/-- **One operation keeps the addressing** exactly if it plants nothing. -/
theorem contentAddressed_apply_iff {s : Store} (hs : s.ContentAddressed) (op : Operation) :
    (s.apply op).ContentAddressed ↔ ∀ record, op = .setDeployer record → ¬s.Plants record := by
  constructor
  · rintro h record rfl hp
    exact hp.1 (h _ _ (get?_apply_of_plants hp))
  · intro hp x payload hx
    -- a payload that is found was there before, or the operation has just written it
    rcases get?_apply s op x with ⟨-, hg⟩ | ⟨-, hg⟩
    · rw [hg] at hx
      cases hx
    rw [hg] at hx
    rcases he : op.written? with _ | ⟨hash, new⟩
    · rw [he] at hx
      exact hs x payload hx
    simp only [he] at hx
    by_cases hxh : x = hash
    · subst hxh
      rw [if_pos rfl, Option.some.injEq] at hx
      subst hx
      rcases hold : s.get? x with _ | old
      · exact keccak256_of_not_plants he hp hold
      · exact hs x old hold
    · rw [if_neg hxh] at hx
      exact hs x payload hx

/-! ### Runs -/

/-- **Runs of honest operations keep the addressing.** -/
theorem contentAddressed_run {ops : List Operation} (h : ∀ op ∈ ops, op.Honest) :
    (run ops).ContentAddressed := by
  induction ops using List.reverseRecOn with
  | nil => exact contentAddressed_empty
  | append_singleton ops op ih =>
    rw [run_concat]
    refine (contentAddressed_apply_iff (ih fun o ho => h o (List.mem_append_left _ ho)) op).mpr ?_
    rintro record rfl ⟨hk, -⟩
    exact hk (h _ (List.mem_append_right _ List.mem_cons_self)).symm

/-- **The exact condition for content addressing**: all stores along a run are content
addressed if and only if no record of the run plants its meta at the moment when it is set. -/
theorem contentAddressed_along_run_iff (ops : List Operation) :
    (∀ before, before <+: ops → (run before).ContentAddressed) ↔
      ∀ before record, before ++ [.setDeployer record] <+: ops → ¬(run before).Plants record := by
  constructor
  · intro h before record hpre
    have hb := h before ((List.prefix_append before _).trans hpre)
    have ha := h _ hpre
    rw [run_concat] at ha
    exact (contentAddressed_apply_iff hb _).mp ha record rfl
  · intro h before hpre
    induction before using List.reverseRecOn with
    | nil => exact contentAddressed_empty
    | append_singleton before op ih =>
      rw [run_concat]
      refine (contentAddressed_apply_iff (ih ((List.prefix_append before _).trans hpre)) op).mpr ?_
      rintro record rfl
      exact h before record hpre

/-- A record that names the empty text's envelope and holds the envelope of a letter. -/
def misnamedRecord : DeployerRecord :=
  .bare (Envelope.ofText []).hash (Envelope.ofText ['a']).encode

/-- **Setting one record breaks the addressing**: the store then gives out the envelope of one
text under the hash of another's. -/
theorem not_contentAddressed_run_misnamedRecord :
    (run [.setDeployer misnamedRecord]).get? (Envelope.ofText []).hash =
        some (Envelope.ofText ['a']).encode ∧
      ¬(run [.setDeployer misnamedRecord]).ContentAddressed := by
  have he : (Operation.setDeployer misnamedRecord).written? =
      some ((Envelope.ofText []).hash, (Envelope.ofText ['a']).encode) := rfl
  have hg := get?_apply_written empty he
  exact ⟨hg, fun h => Envelope.hash_ofText_nil_ne (h _ _ hg).symm⟩

end Store

end RainMeta
