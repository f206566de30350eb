import RainMeta.Platform.Usual
import RainMeta.Proofs.Envelope.RoundTrip

/-!
# Envelopes and their digests

The canonical forms of envelopes are a prefix-free code: where two of them begin at the same
place of a byte string, they are one (`RainMeta.Envelope.eq_of_encode_prefix`). So a form can be
told from what follows it, two envelopes have one form only if they are equal, and one digest
only if they are equal or their forms collide (`RainMeta.Envelope.eq_or_collides_of_hash_eq`).

In a store this keeps dotrains and deployers apart. The hash of a dotrain is the digest of an
envelope, the key of a deployer is the digest of another one, and the two envelopes differ in
their magic number (`RainMeta.Envelope.dotrain_ne_deployerBytecode`).

All of this is for payloads whose length fits into 64 bits, as the head in front of a payload
has no more to say how long it is.
-/

namespace RainMeta

namespace Envelope

/-- **Two envelopes collide**: their canonical forms differ and have one digest. -/
def Collide (e e' : Envelope) : Prop :=
  e.encode ≠ e'.encode ∧ keccak256 e.encode = keccak256 e'.encode

/-! ### Forms -/

/-- **No form is the beginning of another one.** -/
theorem eq_of_encode_prefix {e e' : Envelope} (h : e.payload.length < 2 ^ 64)
    (h' : e'.payload.length < 2 ^ 64) (hp : e.encode <+: e'.encode) : e = e' := by
  obtain ⟨rest, hrest⟩ := hp
  -- the longer form is read from its start, once as it stands and once as the shorter one, on
  -- whatever platform
  have hlong := decode_encode_append e' h' []
  rw [List.append_nil, ← hrest, decode_encode_append e h rest] at hlong
  exact Except.ok.inj hlong

theorem encode_injective {e e' : Envelope} (h : e.payload.length < 2 ^ 64)
    (h' : e'.payload.length < 2 ^ 64) (heq : e.encode = e'.encode) : e = e' :=
  eq_of_encode_prefix h h' (heq ▸ List.prefix_refl _)

/-! ### Digests -/

/-- **Envelopes with one digest** are equal, or their forms collide. -/
theorem eq_or_collides_of_hash_eq {e e' : Envelope} (h : e.payload.length < 2 ^ 64)
    (h' : e'.payload.length < 2 ^ 64) (heq : e.hash = e'.hash) : e = e' ∨ Collide e e' := by
  by_cases hf : e.encode = e'.encode
  · exact Or.inl (encode_injective h h' hf)
  · exact Or.inr ⟨hf, heq⟩

/-- The envelope of a dotrain is never the one of a deployer's bytecode. -/
theorem dotrain_ne_deployerBytecode {text : Text} {e : Envelope} (h : dotrain? text = .ok e)
    (deployed : Bytes) : e ≠ deployerBytecode deployed := by
  rintro rfl
  rcases hb : Utf8.encode text with cause | b
  · simp [dotrain?, hb, Except.map] at h
  · simp [dotrain?, hb, Except.map, deployerBytecode] at h

/-- **Canonical forms are read back, whatever follows, and are told apart.** For two envelopes
whose payloads are shorter than `2 ^ 64` bytes:

* the first one is read back from its form, whatever bytes follow it;
* the form of the first begins the form of the second only if they are equal, so no form stands
  for two envelopes and none is a proper beginning of another;
* they have one digest only if they are equal or their forms collide.

In particular the hash of a dotrain is the bytecode hash of a deployer only if the two forms
collide. -/
theorem encode_prefixFree [Platform] (e e' : Envelope) (h : e.payload.length < 2 ^ 64)
    (h' : e'.payload.length < 2 ^ 64) :
    (∀ rest, decode (e.encode ++ rest) = .ok e) ∧
    (e.encode <+: e'.encode → e = e') ∧
    (e.hash = e'.hash → e = e' ∨ Collide e e') ∧
    (∀ text deployed, dotrain? text = .ok e → e' = deployerBytecode deployed →
      e.hash = e'.hash → Collide e e') := by
  refine ⟨decode_encode_append e h, eq_of_encode_prefix h h', eq_or_collides_of_hash_eq h h',
    fun text deployed hd he' heq => ?_⟩
  refine (eq_or_collides_of_hash_eq h h' heq).resolve_left ?_
  rw [he']
  exact dotrain_ne_deployerBytecode hd deployed

/-- An envelope that has all fields. -/
def described : Envelope :=
  { payload := [97], magic := .dotrain, contentEncoding := some .deflate
    contentLanguage := some .english }

/-- It is read back from its form, though a byte follows, and a shorter envelope with the same
payload does not begin with it. -/
theorem decode_encode_described :
    described.payload.length < 2 ^ 64 ∧ (deployerBytecode [97]).payload.length < 2 ^ 64 ∧
      decode (described.encode ++ [0xFF]) = .ok described ∧
      ¬described.encode <+: (deployerBytecode [97]).encode := by
  obtain ⟨hread, hpre, -⟩ :=
    encode_prefixFree described (deployerBytecode [97]) (by decide) (by decide)
  exact ⟨by decide, by decide, hread [0xFF], fun hp => absurd (hpre hp) (by decide)⟩

end Envelope

end RainMeta
