import Mathlib.Algebra.Group.Nat.Defs
import RainMeta.Proofs.Text.Utf8

/-!
# What UTF-8 reads

Bytes that spell a text are the bytes of that text (`RainMeta.Utf8.flatMap_encodeOne_of_decode`),
so reading loses nothing: no mark in front, no line end, no second form of a code point. Together
with `RainMeta.Utf8.decode_flatMap_encodeOne` the reader accepts exactly what can be written.

## Inside a code point

The reader keeps what it has seen of a code point as bits and as bounds for the next byte. What
this is worth is said by `RainMeta.Utf8.Pending.Begins`: the bytes seen begin the form of *every*
code point that the bits and the bounds still allow, and none of these is a surrogate. The first
byte of a longer form brings this about (`RainMeta.Utf8.Pending.begins_of_first`), the bytes that
are taken in keep it (`RainMeta.Utf8.Pending.Begins.next_pending`), and when the last one is
there, one code point is left (`RainMeta.Utf8.Pending.Begins.next_complete`).

The reader of names goes through the same states and never refuses a byte, so what is said here
about the bytes seen holds of names too.
-/

namespace RainMeta

namespace Utf8

/-! ### Forms of code points -/

/-- The last `k` bytes of the form of a code point that has more of them. -/
def trailing : Nat → Nat → Bytes
  | 0, _ => []
  | k + 1, n => (0x80 + n / 64 ^ k % 64).toUInt8 :: trailing k n

theorem encodeOne_one {n : Nat} (h : n < 0x80) : encodeOne (.ofNat n) = [n.toUInt8] := by
  simp [encodeOne, CodePoint.val_ofNat (show n < 0x110000 by omega), h]

theorem encodeOne_two {n : Nat} (h : 0x80 ≤ n) (h' : n < 0x800) :
    encodeOne (.ofNat n) = (0xC0 + n / 64).toUInt8 :: trailing 1 n := by
  simp [encodeOne, trailing, CodePoint.val_ofNat (show n < 0x110000 by omega),
    show ¬n < 0x80 by omega, h']

theorem encodeOne_three {n : Nat} (h : 0x800 ≤ n) (h' : n < 0x10000) :
    encodeOne (.ofNat n) = (0xE0 + n / 4096).toUInt8 :: trailing 2 n := by
  simp [encodeOne, trailing, CodePoint.val_ofNat (show n < 0x110000 by omega),
    show ¬n < 0x80 by omega, show ¬n < 0x800 by omega, h']

theorem encodeOne_four {n : Nat} (h : 0x10000 ≤ n) (h' : n < 0x110000) :
    encodeOne (.ofNat n) = (0xF0 + n / 262144).toUInt8 :: trailing 3 n := by
  simp [encodeOne, trailing, CodePoint.val_ofNat h', show ¬n < 0x80 by omega,
    show ¬n < 0x800 by omega, show ¬n < 0x10000 by omega]

theorem isSurrogate_ofNat {n : Nat} (h : n < 0x110000) (hs : n < 0xD800 ∨ 0xE000 ≤ n) :
    (CodePoint.ofNat n).isSurrogate = false := by
  simp only [CodePoint.isSurrogate, CodePoint.val_ofNat h, Bool.and_eq_false_iff,
    decide_eq_false_iff_not]
  omega

theorem toUInt8_eq_of_toNat {b : UInt8} {n : Nat} (h : n = b.toNat) : n.toUInt8 = b := by
  rw [h]
  exact UInt8.ofNat_toNat

/-! ### Code points in progress -/

/-- **What has been seen begins every code point that may still come.** A code point `n` may come
if its leading bits are those that were read and its next byte lies within the bounds. -/
structure Pending.Begins (p : Pending) : Prop where
  need_pos : 0 < p.need
  lo_ge : 0x80 ≤ p.lo.toNat
  hi_le : p.hi.toNat ≤ 0xBF
  seen_ne_nil : p.seen ≠ []
  seen_ge : ∀ b ∈ p.seen, 0x80 ≤ b.toNat
  form : ∀ n, n / 64 ^ p.need = p.value → p.lo.toNat ≤ 0x80 + n / 64 ^ (p.need - 1) % 64 →
    0x80 + n / 64 ^ (p.need - 1) % 64 ≤ p.hi.toNat →
    n < 0x110000 ∧ (n < 0xD800 ∨ 0xE000 ≤ n) ∧
      encodeOne (.ofNat n) = p.seen.reverse ++ trailing p.need n

/-- What a lead byte begins. -/
theorem Pending.begins_lead {b lo hi : UInt8} {need value : Nat} (hneed : 0 < need)
    (hlo : 0x80 ≤ lo.toNat) (hhi : hi.toNat ≤ 0xBF) (hb : 0x80 ≤ b.toNat)
    (form : ∀ n, n / 64 ^ need = value → lo.toNat ≤ 0x80 + n / 64 ^ (need - 1) % 64 →
      0x80 + n / 64 ^ (need - 1) % 64 ≤ hi.toNat →
      n < 0x110000 ∧ (n < 0xD800 ∨ 0xE000 ≤ n) ∧ encodeOne (.ofNat n) = b :: trailing need n) :
    (Pending.mk [b] need lo hi value).Begins where
  need_pos := hneed
  lo_ge := hlo
  hi_le := hhi
  seen_ne_nil := List.cons_ne_nil b []
  seen_ge := by simpa using hb
  form := form

/-- **The first byte of a longer form** begins what may come. Its bounds for the second byte keep
out forms that are too long, surrogates, and what lies beyond the last code point. -/
theorem Pending.begins_of_first {b : UInt8} {p : Pending} (h : first false b = .pending p) :
    p.Begins ∧ p.seen = [b] := by
  have two : ∀ n, n / 64 = b.toNat - 0xC0 → 0xC2 ≤ b.toNat → b.toNat < 0xE0 →
      n < 0x800 ∧ encodeOne (.ofNat n) = b :: trailing 1 n := by
    intro n hn hlo hhi
    rw [encodeOne_two (by omega) (by omega), toUInt8_eq_of_toNat (b := b) (by omega)]
    exact ⟨by omega, rfl⟩
  have three : ∀ n, n / 4096 = b.toNat - 0xE0 → 0xE0 ≤ b.toNat → b.toNat < 0xF0 → 0x800 ≤ n →
      encodeOne (.ofNat n) = b :: trailing 2 n := by
    intro n hn hlo hhi hge
    rw [encodeOne_three hge (by omega), toUInt8_eq_of_toNat (b := b) (by omega)]
  have four : ∀ n, n / 262144 = b.toNat - 0xF0 → 0xF0 ≤ b.toNat → 0x10000 ≤ n →
      n < 0x110000 → encodeOne (.ofNat n) = b :: trailing 3 n := by
    intro n hn hb hge hlt
    rw [encodeOne_four hge hlt, toUInt8_eq_of_toNat (b := b) (by omega)]
  unfold first at h
  dsimp only at h
  split at h
  · cases h
  split at h
  · cases h
  split at h
  · cases h
    refine ⟨begins_lead (by decide) (by decide) (by decide) (by omega) fun n hn _ _ => ?_, rfl⟩
    obtain ⟨hlt, hform⟩ := two n (by omega) (by omega) (by omega)
    exact ⟨by omega, by omega, hform⟩
  split at h
  · cases h
    refine ⟨begins_lead (by decide) (by decide) (by decide) (by omega) fun n hn hlo _ => ?_, rfl⟩
    simp at hn hlo
    exact ⟨by omega, by omega, three n (by omega) (by omega) (by omega) (by omega)⟩
  split at h
  · next hed =>
    have hb : b.toNat = 0xED := by simpa using hed
    cases h
    refine ⟨begins_lead (by decide) (by decide) (by decide) (by omega) fun n hn _ hhi => ?_, rfl⟩
    simp at hn hhi
    exact ⟨by omega, by omega, three n (by omega) (by omega) (by omega) (by omega)⟩
  split at h
  · next hed hlt =>
    have hb : b.toNat ≠ 0xED := by simpa using hed
    cases h
    refine ⟨begins_lead (by decide) (by decide) (by decide) (by omega) fun n hn _ _ => ?_, rfl⟩
    simp at hn
    exact ⟨by omega, by omega, three n (by omega) (by omega) (by omega) (by omega)⟩
  split at h
  · cases h
    refine ⟨begins_lead (by decide) (by decide) (by decide) (by omega) fun n hn hlo _ => ?_, rfl⟩
    simp at hn hlo
    exact ⟨by omega, by omega, four n (by omega) (by omega) (by omega) (by omega)⟩
  split at h
  · cases h
    refine ⟨begins_lead (by decide) (by decide) (by decide) (by omega) fun n hn _ _ => ?_, rfl⟩
    simp at hn
    exact ⟨by omega, by omega, four n (by omega) (by omega) (by omega) (by omega)⟩
  split at h
  · cases h
    refine ⟨begins_lead (by decide) (by decide) (by decide) (by omega) fun n hn _ hhi => ?_, rfl⟩
    simp at hn hhi
    exact ⟨by omega, by omega, four n (by omega) (by omega) (by omega) (by omega)⟩
  · cases h

/-- The bits of a byte that is taken in are the next bits of what may come. -/
theorem Pending.Begins.take {p : Pending} (h : p.Begins) {b : UInt8}
    (hb : p.lo ≤ b && b ≤ p.hi) :
    0x80 ≤ b.toNat ∧ b.toNat ≤ 0xBF ∧ ∀ n, n / 64 ^ (p.need - 1) = p.value * 64 + (b.toNat - 0x80) →
      n < 0x110000 ∧ (n < 0xD800 ∨ 0xE000 ≤ n) ∧
        encodeOne (.ofNat n) = p.seen.reverse ++ b :: trailing (p.need - 1) n := by
  obtain ⟨hlo, hhi⟩ : p.lo.toNat ≤ b.toNat ∧ b.toNat ≤ p.hi.toNat := by
    simpa [UInt8.le_iff_toNat_le] using hb
  have hge := h.lo_ge
  have hle := h.hi_le
  refine ⟨by omega, by omega, fun n hn => ?_⟩
  obtain ⟨k, hk⟩ : ∃ k, p.need = k + 1 := ⟨p.need - 1, by have := h.need_pos; omega⟩
  have hform := h.form n
  rw [hk, Nat.add_sub_cancel] at hn hform ⊢
  have hdigit : n / 64 ^ k % 64 = b.toNat - 0x80 := by omega
  have hvalue : n / 64 ^ (k + 1) = p.value := by
    rw [Nat.pow_succ, ← Nat.div_div_eq_div_mul, hn]
    omega
  rw [hdigit] at hform
  have hbyte : (0x80 + n / 64 ^ k % 64).toUInt8 = b := toUInt8_eq_of_toNat (by omega)
  rw [trailing, hbyte] at hform
  exact hform hvalue (by omega) (by omega)

theorem Pending.Begins.next_pending {p q : Pending} (h : p.Begins) {b : UInt8}
    (hb : p.next b = .pending q) : q.Begins ∧ q.seen = b :: p.seen := by
  simp only [Pending.next] at hb
  split at hb
  · next hin =>
    split at hb
    · cases hb
    · next hneed =>
      cases hb
      obtain ⟨hge, -, hform⟩ := h.take hin
      refine ⟨⟨by dsimp only; omega, by simp, by simp, by simp, ?_, fun n hn _ _ => ?_⟩, rfl⟩
      · simp only [List.mem_cons]
        rintro x (rfl | hx)
        · exact hge
        · exact h.seen_ge x hx
      · obtain ⟨hlt, hs, hn⟩ := hform n hn
        exact ⟨hlt, hs, by simpa using hn⟩
  · cases hb

theorem Pending.Begins.next_complete {p : Pending} (h : p.Begins) {b : UInt8} {c : CodePoint}
    (hb : p.next b = .complete c) :
    c.isSurrogate = false ∧ encodeOne c = p.seen.reverse ++ [b] := by
  simp only [Pending.next] at hb
  split at hb
  · next hin =>
    split at hb
    · next hneed =>
      rw [Progress.complete.injEq] at hb
      subst hb
      have hone : p.need = 1 := by have := h.need_pos; omega
      obtain ⟨-, -, hform⟩ := h.take hin
      obtain ⟨hlt, hs, hn⟩ := hform (p.value * 64 + (b.toNat - 0x80)) (by simp [hone])
      rw [hone] at hn
      exact ⟨isSurrogate_ofNat hlt hs, hn⟩
    · cases hb
  · cases hb

theorem first_complete {b : UInt8} {c : CodePoint} (h : first false b = .complete c) :
    c.isSurrogate = false ∧ encodeOne c = [b] := by
  by_cases hb : b.toNat < 0x80
  · simp only [first, if_pos hb, Progress.complete.injEq] at h
    subst h
    refine ⟨isSurrogate_ofNat (by omega) (by omega), ?_⟩
    rw [encodeOne_one hb, toUInt8_eq_of_toNat rfl]
  -- a byte of any other kind is refused or begins a longer form
  · simp only [first, if_neg hb] at h
    grind

/-! ### Texts -/

/-- The bytes of a code point in progress. -/
def seenOf : Option Pending → Bytes
  | none => []
  | some p => p.seen.reverse

/-- **What is read further** is made of code points that are no surrogates, and the bytes of
these are what had been seen and what was still to come. -/
theorem exists_of_decodeFrom {b : Bytes} {pos : Nat} {state : Option Pending} {out t : Text}
    (hs : ∀ p, state = some p → p.Begins) (h : decodeFrom false pos state out b = .ok t) :
    ∃ u, t = out.reverse ++ u ∧ (∀ c ∈ u, c.isSurrogate = false) ∧
      u.flatMap encodeOne = seenOf state ++ b := by
  induction b generalizing pos state out with
  | nil =>
    cases state with
    | none =>
      cases h
      exact ⟨[], by simp, by simp, rfl⟩
    | some p => cases h
  | cons x rest ih =>
    have complete : ∀ c, c.isSurrogate = false → encodeOne c = seenOf state ++ [x] →
        decodeFrom false (pos + 1) none (c :: out) rest = .ok t →
        ∃ u, t = out.reverse ++ u ∧ (∀ c ∈ u, c.isSurrogate = false) ∧
          u.flatMap encodeOne = seenOf state ++ x :: rest := by
      intro c hc hform hrest
      obtain ⟨u, rfl, hu, hbytes⟩ := ih (by simp) hrest
      refine ⟨c :: u, by simp, by simpa [hc] using hu, ?_⟩
      simp [hform, hbytes, seenOf]
    have pending : ∀ q : Pending, q.Begins → q.seen.reverse = seenOf state ++ [x] →
        decodeFrom false (pos + 1) (some q) out rest = .ok t →
        ∃ u, t = out.reverse ++ u ∧ (∀ c ∈ u, c.isSurrogate = false) ∧
          u.flatMap encodeOne = seenOf state ++ x :: rest := by
      intro q hq hseen hrest
      obtain ⟨u, rfl, hu, hbytes⟩ := ih (by rintro p ⟨⟩; exact hq) hrest
      exact ⟨u, rfl, hu, by simp [hbytes, seenOf, hseen]⟩
    cases state with
    | none =>
      rw [decodeFrom] at h
      rcases hf : first false x with c | q | _
      · rw [hf] at h
        obtain ⟨hc, hform⟩ := first_complete hf
        exact complete c hc hform h
      · rw [hf] at h
        obtain ⟨hq, hseen⟩ := Pending.begins_of_first hf
        exact pending q hq (by simp [hseen, seenOf]) h
      · rw [hf] at h
        cases h
    | some p =>
      have hp := hs p rfl
      rw [decodeFrom] at h
      rcases hn : p.next x with c | q | _
      · rw [hn] at h
        obtain ⟨hc, hform⟩ := hp.next_complete hn
        exact complete c hc hform h
      · rw [hn] at h
        obtain ⟨hq, hseen⟩ := hp.next_pending hn
        exact pending q hq (by simp [hseen, seenOf]) h
      · rw [hn] at h
        cases h

/-- **Bytes that spell a text are the bytes of that text.** -/
theorem flatMap_encodeOne_of_decode {b : Bytes} {t : Text} (h : decode b = .ok t) :
    (∀ c ∈ t, c.isSurrogate = false) ∧ t.flatMap encodeOne = b := by
  obtain ⟨u, rfl, hu, hbytes⟩ := exists_of_decodeFrom (by simp) h
  exact ⟨by simpa using hu, by simpa [seenOf] using hbytes⟩

/-- A text that was read can be written, if its bytes fit into a byte string. -/
theorem encode_of_decode {b : Bytes} {t : Text} (h : decode b = .ok t)
    (hl : b.length ≤ Bytes.longest) : encode t = .ok b := by
  obtain ⟨hs, hbytes⟩ := flatMap_encodeOne_of_decode h
  exact encode_eq_ok_iff.mpr ⟨hs, hbytes.symm, hl⟩

/-- A text that was read and can be written is written as it was read. -/
theorem encode_of_isOk {b : Bytes} {t : Text} (h : decode b = .ok t) (ht : (encode t).isOk) :
    encode t = .ok b := by
  obtain ⟨-, hbytes⟩ := flatMap_encodeOne_of_decode h
  rcases he : encode t with cause | b'
  · rw [he] at ht
    cases ht
  · rw [(encode_eq_ok_iff.mp he).2.1, hbytes]

end Utf8

end RainMeta
