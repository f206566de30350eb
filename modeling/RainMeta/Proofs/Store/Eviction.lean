import RainMeta.Proofs.Store.History

/-!
# What binding a uri anew evicts

A uri that is bound anew may take the payload of its old text out of the cache. The danger is on
both sides: a payload that goes too early leaves another uri dangling, and one that stays too long
is a leak. Neither happens (`RainMeta.Store.rebinds_and_no_leak`).

* `RainMeta.Store.Rebinds`: what binding a uri to an envelope makes of a store, said entry by
  entry. The old payload goes exactly if it need not be kept and no uri is bound to it when the new
  binding is in place; nothing else goes, whatever else is in the cache.
* `RainMeta.Store.exists_payload_of_bound`: no uri dangles, in any store that operations lead to.
* `RainMeta.Store.NoLeak`: every payload has a uri that is bound to it. Payloads of other origin
  have none, so this is a law of the runs that do nothing but bind uris and keep no old payload.

The invariant behind the last one has to be about all uris at once. That the uri which is bound
anew lets go of its old payload says nothing about the payload, since uris may share it.
-/

namespace RainMeta

namespace Store

/-! ### One binding -/

/-- **A binding takes a hash out of the cache**: the uri was bound to it, it need not be kept, it is
not the new one, and in the store after the binding no uri is bound to it. -/
structure Releases (s s' : Store) (uri : Text) (new : Bytes) (keepOld : Bool) (old : Bytes) :
    Prop where
  forgets : keepOld = false
  bound : s.dotrainHash? uri = some old
  ne : old ≠ new
  unbound : ∀ u, s'.dotrainHash? u ≠ some old

/-- **A uri is bound to an envelope**, and nothing more happens than that asks for. -/
structure Rebinds (s : Store) (uri : Text) (e : Envelope) (keepOld : Bool) (s' : Store) :
    Prop where
  /-- What is in the cache was there before, or is the envelope under a hash that was free; and it
  is not what the binding takes out. -/
  entry_iff : ∀ x payload, s'.get? x = some payload ↔
    (s.get? x = some payload ∨ s.get? x = none ∧ x = e.hash ∧ payload = e.encode) ∧
      ¬s.Releases s' uri e.hash keepOld x
  /-- The uri is bound to the envelope, and keeps its place or stands at the end. -/
  dotrains : s'.dotrains = s.dotrains.set uri e.hash
  deployers : s'.deployers = s.deployers
  subgraphs : s'.subgraphs = s.subgraphs

variable {s : Store} {uri : Text}

/-- Whether a hash is released can be seen before the binding. -/
theorem releases_iff_drops {s' : Store} {new old : Bytes} {keepOld : Bool}
    (h : s'.dotrains = s.dotrains.set uri new) :
    s.Releases s' uri new keepOld old ↔ s.Drops uri new keepOld old := by
  have hunbound : ∀ (hne : old ≠ new), (∀ u, s'.dotrainHash? u ≠ some old) ↔
      ∀ u, u ≠ uri → s.dotrainHash? u ≠ some old := by
    intro hne
    rw [← not_mem_values_set s uri hne, Table.mem_values_iff, ← h]
    simp [dotrainHash?]
  constructor
  · intro hr
    exact ⟨hr.forgets, hr.bound, hr.ne, (hunbound hr.ne).mp hr.unbound⟩
  · intro hd
    exact ⟨hd.forgets, hd.bound, hd.ne, (hunbound hd.ne).mpr hd.unshared⟩

/-- **Binding a uri does that and nothing more**, in every store. -/
theorem rebinds_bind (s : Store) (uri : Text) (e : Envelope) (keepOld : Bool) :
    s.Rebinds uri e keepOld (s.bind uri e.hash e.encode keepOld).2 where
  entry_iff := by
    intro x payload
    rw [releases_iff_drops rfl]
    have hnew : (s.cache.setNew e.hash e.encode).find? x = some payload ↔
        s.get? x = some payload ∨ s.get? x = none ∧ x = e.hash ∧ payload = e.encode := by
      rw [Table.find?_setNew, get?]
      by_cases hx : x = e.hash
      · rw [if_pos hx, ← hx]
        rcases s.cache.find? x with _ | old
        · simp [hx, eq_comm]
        · simp
      · simp [hx]
    rcases cache_bind s uri e.hash e.encode keepOld with ⟨old, hd, hc⟩ | ⟨hn, hc⟩
    · rw [get?, hc, Table.find?_erase]
      by_cases hx : x = old
      · subst hx
        simp [hd]
      · have hother : ¬s.Drops uri e.hash keepOld x := fun hd' =>
          hx (Option.some.inj (hd'.bound.symm.trans hd.bound))
        rw [if_neg hx, hnew, and_iff_left hother]
    · rw [get?, hc, hnew, and_iff_left (hn x)]
  dotrains := rfl
  deployers := rfl
  subgraphs := rfl

/-- A text that can be encoded is not refused. -/
theorem setDotrain_of_isOk (s : Store) {text : Text} (uri : Text) (keepOld : Bool)
    (h : (Utf8.encode text).isOk) : s.setDotrain text uri keepOld =
      .ok (s.bind uri (Envelope.ofText text).hash (Envelope.ofText text).encode keepOld) := by
  rw [setDotrain, Envelope.dotrain?_of_isOk h]
  rfl

/-! ### Leaks -/

/-- **No leak**: for every payload there is a uri that is bound to it. -/
def NoLeak (s : Store) : Prop :=
  ∀ hash payload, s.get? hash = some payload → ∃ uri, s.dotrainHash? uri = some hash

/-- **A binding that keeps nothing leaves no leak.** -/
theorem Rebinds.noLeak {e : Envelope} {s' : Store} (h : s.Rebinds uri e false s')
    (hs : s.NoLeak) : s'.NoLeak := by
  intro x payload hx
  obtain ⟨hfound, hstays⟩ := (h.entry_iff x payload).mp hx
  by_contra hnone
  have hunbound : ∀ u, s'.dotrainHash? u ≠ some x := fun u hu => hnone ⟨u, hu⟩
  have hbound : ∀ u, s'.dotrainHash? u = if u = uri then some e.hash else s.dotrainHash? u := by
    intro u
    rw [dotrainHash?, h.dotrains, Table.find?_set, dotrainHash?]
  have hne : x ≠ e.hash := by
    rintro rfl
    exact hunbound uri (by rw [hbound, if_pos rfl])
  -- an old payload had a uri, and the only one that can have lost it is the one bound anew
  obtain ⟨u, hu⟩ := hs x payload (hfound.resolve_right fun hnew => hne hnew.2.1)
  by_cases huri : u = uri
  · exact hstays ⟨rfl, huri ▸ hu, hne, hunbound⟩
  · exact hunbound u (by rw [hbound, if_neg huri, hu])

/-- A run that does nothing but bind uris and keeps nothing leaves no leak. -/
theorem noLeak_run {ops : List Operation}
    (h : ∀ op ∈ ops, ∃ text uri, op = .setDotrain text uri false) : (run ops).NoLeak := by
  induction ops using List.reverseRecOn with
  | nil =>
    intro hash payload hx
    cases hx
  | append_singleton ops op ih =>
    have hs := ih fun o ho => h o (List.mem_append_left _ ho)
    obtain ⟨text, uri, rfl⟩ := h op (List.mem_append_right _ List.mem_cons_self)
    rw [run_concat, apply_setDotrain]
    split
    · exact (rebinds_bind (run ops) uri (Envelope.ofText text) false).noLeak hs
    · exact hs

/-! ### Stores that operations lead to -/

/-- **Nothing dangles and nothing leaks.** In every store that operations lead to, a uri that is
bound has its payload in the cache, and its text is read back from there. Binding a uri to a text
then does what it should to each entry of the cache and to the tables, and says which hash is new
and which one is old. So after a run that only binds uris and keeps no old payload, the hashes in
the cache are those that uris are bound to. -/
theorem rebinds_and_no_leak [Platform] (ops : List Operation) :
    (∀ uri hash, (run ops).dotrainHash? uri = some hash →
      ∃ payload, (run ops).get? hash = some payload ∧
        (run ops).dotrainText uri = (textOf payload).map some) ∧
    (∀ text uri keepOld rebound after,
      (run ops).setDotrain text uri keepOld = .ok (rebound, after) →
        rebound = { new := (Envelope.ofText text).hash, old := (run ops).dotrainHash? uri } ∧
        (run ops).Rebinds uri (Envelope.ofText text) keepOld after) ∧
    ((∀ op ∈ ops, ∃ text uri, op = .setDotrain text uri false) →
      ∀ hash, hash ∈ (run ops).cache.keys ↔ ∃ uri, (run ops).dotrainHash? uri = some hash) := by
  refine ⟨fun uri hash hb => ?_, fun text uri keepOld rebound after h => ?_, fun h hash => ?_⟩
  · obtain ⟨payload, hp⟩ := exists_payload_of_bound ops uri hash hb
    exact ⟨payload, hp, by simp only [dotrainText, hb, hp]⟩
  · by_cases ht : (Utf8.encode text).isOk
    · rw [setDotrain_of_isOk (run ops) uri keepOld ht] at h
      cases h
      exact ⟨rfl, rebinds_bind (run ops) uri (Envelope.ofText text) keepOld⟩
    · obtain ⟨cause, hc⟩ := Envelope.exists_error_of_not_isOk ht
      rw [setDotrain, hc] at h
      cases h
  · rw [Table.mem_keys_iff]
    constructor
    · rintro ⟨payload, hp⟩
      exact noLeak_run h hash payload hp
    · rintro ⟨uri, hb⟩
      exact exists_payload_of_bound ops uri hash hb

/-- Two uris share the empty text, until one of them is bound to another. -/
def sharingRun : List Operation :=
  [.setDotrain [] ['u'] false, .setDotrain [] ['v'] false, .setDotrain ['a'] ['u'] false]

/-- The shared payload stays as long as the second uri is bound to it. When that one is bound anew
too, the payload goes. -/
theorem rebinds_sharingRun :
    (∀ op ∈ sharingRun, ∃ text uri, op = .setDotrain text uri false) ∧
      (Envelope.ofText []).hash ∈ (run sharingRun).cache.keys ∧
      ∃ after, (run sharingRun).setDotrain ['a'] ['v'] false =
          .ok ({ new := (Envelope.ofText ['a']).hash, old := (Envelope.ofText []).hash }, after) ∧
        after.get? (Envelope.ofText []).hash = none := by
  have h₀ : (Utf8.encode []).isOk := by decide
  have h₁ : (Utf8.encode ['a']).isOk := by decide
  have honly : ∀ op ∈ sharingRun, ∃ text uri, op = .setDotrain text uri false := by
    simp [sharingRun]
  have hbound : ∀ uri, (run sharingRun).dotrainHash? uri =
      (Table.lastValue uri [((['u'] : Text), ([] : Text)), (['v'], []), (['u'], ['a'])]).map
        fun text => (Envelope.ofText text).hash := by
    intro uri
    rw [dotrainHash?_run]
    simp [sharingRun, Operation.binding?, h₀, h₁]
  have hv : (run sharingRun).dotrainHash? ['v'] = some (Envelope.ofText []).hash := hbound _
  obtain ⟨-, hbind, hkeys⟩ := rebinds_and_no_leak sharingRun
  obtain ⟨rebound, after, hset⟩ :
      ∃ rebound after, (run sharingRun).setDotrain ['a'] ['v'] false = .ok (rebound, after) :=
    ⟨_, _, setDotrain_of_isOk (run sharingRun) ['v'] false h₁⟩
  obtain ⟨hrebound, hrebinds⟩ := hbind _ _ _ _ _ hset
  refine ⟨honly, (hkeys honly _).mpr ⟨_, hv⟩, after, ?_, ?_⟩
  · rw [hset, hrebound, hv]
  · rw [Option.eq_none_iff_forall_ne_some]
    intro payload hp
    refine ((hrebinds.entry_iff _ _).mp hp).2 ⟨rfl, hv, Envelope.hash_ofText_nil_ne, fun u hu => ?_⟩
    have hne := Envelope.hash_ofText_nil_ne
    rw [dotrainHash?, hrebinds.dotrains, Table.find?_set] at hu
    -- both uris are bound to the other text, and no other uri is bound at all
    split at hu
    · exact hne (Option.some.inj hu).symm
    · next huv =>
      rw [← dotrainHash?, hbound] at hu
      by_cases huu : u = (['u'] : Text)
      · subst huu
        exact hne (Option.some.inj hu).symm
      · simp [Table.lastValue, Ne.symm huv, Ne.symm huu] at hu

end Store

end RainMeta
