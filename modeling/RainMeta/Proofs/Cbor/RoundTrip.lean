import Mathlib.Algebra.Group.Nat.Defs
import RainMeta.Cbor.Reader
import RainMeta.Proofs.Text.Utf8

/-!
# Reading back what CBOR wrote

The reader of CBOR stops exactly at the end of what was written, whatever follows.

## From heads to maps

* A head has one of five forms, according to the size of its number;
  `RainMeta.Cbor.exists_head` says that the reader gets the number back from each of them,
  for every number of 64 bits.
* `RainMeta.Cbor.Item.Readable`: the item is read back from its canonical form. Numbers,
  byte strings and texts are.
* `RainMeta.Cbor.readItem?_map`: a map whose keys and values are readable comes back with its
  entries set one after another, so a key that stands twice keeps its first place and its
  last value. At the start of a document that needs no more than two levels, which every library
  has (`RainMeta.Cbor.read?_map`).
-/

namespace RainMeta

namespace Cbor

/-! ### Numbers in bytes -/

@[simp] theorem length_bigEndian (width n : Nat) : (bigEndian width n).length = width := by
  induction width with
  | zero => rfl
  | succ w ih => simp [bigEndian, ih]

/-- Reading goes on after the number that was read before, and gets back as much of the number
as was written. -/
theorem foldl_bigEndian (width n acc : Nat) :
    (bigEndian width n).foldl (fun n byte => n * 256 + byte.toNat) acc =
      acc * 256 ^ width + n % 256 ^ width := by
  induction width generalizing acc with
  | zero => simp [bigEndian, Nat.mod_one]
  | succ w ih =>
    have hpow : (2 : Nat) ^ (8 * w) = 256 ^ w := by rw [Nat.pow_mul]
    have hmod : n % 256 ^ (w + 1) = n % 256 ^ w + 256 ^ w * (n / 256 ^ w % 256) := by
      rw [Nat.pow_succ, Nat.mod_mul]
    rw [bigEndian, List.foldl_cons, ih, Utf8.toNat_toUInt8 (Nat.mod_lt _ (by omega)),
      Nat.shiftRight_eq_div_pow, hpow, hmod, Nat.add_mul, Nat.pow_succ]
    -- the leading digit and what follows it are the parts of the number below `256 ^ (w + 1)`
    rw [Nat.mul_assoc, Nat.mul_comm 256 (256 ^ w), Nat.mul_comm (n / 256 ^ w % 256)]
    omega

theorem ofBigEndian_bigEndian (width : Nat) {n : Nat} (h : n < 256 ^ width) :
    ofBigEndian (bigEndian width n) = n := by
  rw [ofBigEndian, foldl_bigEndian, Nat.zero_mul, Nat.zero_add, Nat.mod_eq_of_lt h]

theorem takeBytes?_append {n : Nat} {b : Bytes} (h : b.length = n) (rest : Bytes) :
    takeBytes? n (b ++ rest) = some (b, rest) := by
  subst h
  simp [takeBytes?]

/-! ### Heads -/

/-- What follows the first byte of a head gives the number back. -/
theorem exists_argument {n : Nat} (h : n < 2 ^ 64) (major : Nat) :
    ∃ (info : Nat) (more : Bytes), info < 32 ∧
      head major n = (major * 32 + info).toUInt8 :: more ∧
      ∀ rest, readArgument? info (more ++ rest) = some (.number n, rest) := by
  unfold head
  split
  · next h₁ => exact ⟨n, [], by omega, rfl, fun rest => by simp [readArgument?, h₁]⟩
  split
  · next h₂ =>
    refine ⟨24, bigEndian 1 n, by omega, rfl, fun rest => ?_⟩
    simp [readArgument?, takeBytes?_append, ofBigEndian_bigEndian 1 h₂]
  split
  · next h₃ =>
    refine ⟨25, bigEndian 2 n, by omega, rfl, fun rest => ?_⟩
    simp [readArgument?, takeBytes?_append, ofBigEndian_bigEndian 2 h₃]
  split
  · next h₄ =>
    refine ⟨26, bigEndian 4 n, by omega, rfl, fun rest => ?_⟩
    simp [readArgument?, takeBytes?_append, ofBigEndian_bigEndian 4 h₄]
  · refine ⟨27, bigEndian 8 n, by omega, rfl, fun rest => ?_⟩
    simp [readArgument?, takeBytes?_append, ofBigEndian_bigEndian 8 h]

/-- **A head and its number**: the first byte tells the major type and how the number is
written, and from what follows the reader gets the number back. -/
theorem exists_head (major : Nat) {n : Nat} (hm : major < 8) (h : n < 2 ^ 64) :
    ∃ (first : UInt8) (more : Bytes), head major n = first :: more ∧
      first.toNat / 32 = major ∧
      ∀ rest, readArgument? (first.toNat % 32) (more ++ rest) = some (.number n, rest) := by
  obtain ⟨info, more, hi, hhead, hread⟩ := exists_argument h major
  have hfirst : (major * 32 + info).toUInt8.toNat = major * 32 + info :=
    Utf8.toNat_toUInt8 (by omega)
  refine ⟨_, more, hhead, by omega, fun rest => ?_⟩
  rw [hfirst, show (major * 32 + info) % 32 = info by omega]
  exact hread rest

theorem length_head_append_pos {major n : Nat} (hm : major < 8) (h : n < 2 ^ 64) (b : Bytes) :
    0 < (head major n ++ b).length := by
  obtain ⟨first, more, hhead, -, -⟩ := exists_head major hm h
  rw [hhead]
  exact Nat.succ_pos _

theorem decode_of_textOfChunks? {b : Bytes} {t : Text} (h : textOfChunks? [b] = some t) :
    Utf8.decode b = .ok t := by
  rcases hd : Utf8.decode b with _ | u
  · simp [textOfChunks?, hd, Except.toOption] at h
  · simpa [textOfChunks?, hd, Except.toOption] using h

/-! ### Items -/

section Items

variable [Platform]

/-- **An item is readable** at a depth if the reader gets it back from its canonical form and
stops at its end, in whatever document it stands. -/
def Item.Readable (depth : Nat) (item : Item) : Prop :=
  ∀ document rest, readItem? document depth (item.encode ++ rest) = some (item, rest)

theorem readable_int (depth : Nat) {n : Nat} (h : n < 2 ^ 64) :
    (Item.int n).Readable (depth + 1) := by
  intro document rest
  obtain ⟨first, more, hhead, hmajor, hread⟩ := exists_head 0 (by omega) h
  have he : (Item.int n).encode = head 0 n := by
    simp [Item.encode, encodeNat, show n < 0x10000000000000000 by omega]
  rw [he, hhead, List.cons_append, readItem?]
  simp [hmajor, hread]

theorem readable_bytes (depth : Nat) {b : Bytes} (h : b.length < 2 ^ 64) :
    (Item.bytes b).Readable (depth + 1) := by
  intro document rest
  obtain ⟨first, more, hhead, hmajor, hread⟩ := exists_head 2 (by omega) h
  rw [Item.encode, hhead, List.append_assoc, List.cons_append, readItem?]
  simp [hmajor, readString?, hread, takeBytes?_append]

theorem readable_text (depth : Nat) {t : Text} (hs : ∀ c ∈ t, c.isSurrogate = false)
    (h : (t.flatMap Utf8.encodeOne).length < 2 ^ 64) : (Item.text t).Readable (depth + 1) := by
  intro document rest
  obtain ⟨first, more, hhead, hmajor, hread⟩ := exists_head 3 (by omega) h
  rw [Item.encode, hhead, List.append_assoc, List.cons_append, readItem?]
  simp [hmajor, readString?, hread, takeBytes?_append, textOfChunks?,
    Utf8.decode_flatMap_encodeOne hs, Except.toOption]

/-- Bytes in the place of a text are read as the text that they spell, if they do. -/
theorem readItem?_text (document : Bytes) (depth : Nat) {b : Bytes} (h : b.length < 2 ^ 64)
    (rest : Bytes) :
    readItem? document (depth + 1) (head 3 b.length ++ b ++ rest) =
      (textOfChunks? [b]).map fun t => (.text t, rest) := by
  obtain ⟨first, more, hhead, hmajor, hread⟩ := exists_head 3 (by omega) h
  rw [hhead, List.append_assoc, List.cons_append, readItem?]
  rcases ht : textOfChunks? [b] with _ | t
  · simp [hmajor, readString?, hread, takeBytes?_append, ht]
  · simp [hmajor, readString?, hread, takeBytes?_append, ht]

/-! ### Maps -/

/-- Entries set one after another. -/
def setAll (out : List (Item × Item)) (entries : List (Item × Item)) : List (Item × Item) :=
  entries.foldl (fun out e => setKey e.1 e.2 out) out

theorem readEntries?_encodeEntries {depth : Nat} {entries : List (Item × Item)}
    (h : ∀ e ∈ entries, e.1.Readable depth ∧ e.2.Readable depth) (document : Bytes)
    (out : List (Item × Item)) (rest : Bytes) :
    readEntries? (readItem? document depth) false out entries.length
        (encodeEntries entries ++ rest) =
      some (setAll out entries, rest) := by
  induction entries generalizing out with
  | nil => rfl
  | cons e entries ih =>
    obtain ⟨k, v⟩ := e
    obtain ⟨hk, hv⟩ := h (k, v) List.mem_cons_self
    -- the reader sets each entry as soon as it has it, so the induction is on the entries to
    -- come, for whatever has been set before
    have ih := ih (fun e he => h e (List.mem_cons_of_mem _ he)) (setKey k v out)
    rw [encodeEntries, List.length_cons, readEntries?, List.append_assoc, List.append_assoc,
      hk document (v.encode ++ (encodeEntries entries ++ rest))]
    simp [hv document (encodeEntries entries ++ rest), ih, setAll]

/-- The reader of a map goes on with as many entries as the head says. -/
theorem readItem?_head_map (document : Bytes) (depth : Nat) {n : Nat} (h : n < 2 ^ 64)
    (b : Bytes) :
    readItem? document (depth + 1) (head 5 n ++ b) =
      (readEntries? (readItem? document depth) false [] n b).map fun (entries, rest) =>
        (.map entries, rest) := by
  obtain ⟨first, more, hhead, hmajor, hread⟩ := exists_head 5 (by omega) h
  rw [hhead, List.cons_append, readItem?]
  simp [hmajor, hread]

/-- **A map comes back** with its entries set one after another. -/
theorem readItem?_map {depth : Nat} {entries : List (Item × Item)}
    (hl : entries.length < 2 ^ 64)
    (h : ∀ e ∈ entries, e.1.Readable depth ∧ e.2.Readable depth) (document rest : Bytes) :
    readItem? document (depth + 1) ((Item.map entries).encode ++ rest) =
      some (.map (setAll [] entries), rest) := by
  obtain ⟨first, more, hhead, hmajor, hread⟩ := exists_head 5 (by omega) hl
  rw [Item.encode, hhead, List.append_assoc, List.cons_append, readItem?]
  simp [hmajor, hread, readEntries?_encodeEntries h]

/-- What can be read on two levels is read at the start of a document. -/
theorem read?_of_readItem? {b rest : Bytes} {item : Item} (h : readItem? b 2 b = some (item, rest))
    (h' : readItem? b (b.length + 1) b = some (item, rest)) : read? b = some (item, rest) := by
  have hshallow : (readItem? b 2 b).isSome := by rw [h]; rfl
  rw [read?, if_pos (by rw [hshallow, Bool.or_true]), h']

/-- A map at the start of a document, if the library gets through it, has its entries read one
level further down. -/
theorem exists_read?_head_map {n : Nat} (h : n < 2 ^ 64) {b : Bytes} {x : Item × Bytes}
    (hr : read? (head 5 n ++ b) = some x) :
    ∃ depth, ((readEntries? (readItem? (head 5 n ++ b) (depth + 1)) false [] n b).map
      fun (entries, rest) => (.map entries, rest)) = some x := by
  obtain ⟨depth, hdepth⟩ :=
    Nat.exists_eq_succ_of_ne_zero (Nat.ne_of_gt (length_head_append_pos (show 5 < 8 by omega) h b))
  rw [read?] at hr
  split at hr
  · rw [readItem?_head_map _ _ h, hdepth] at hr
    exact ⟨depth, hr⟩
  · cases hr

/-- **A map of plain items is read at the start of a document**, whatever follows. -/
theorem read?_map {entries : List (Item × Item)} (hl : entries.length < 2 ^ 64)
    (h : ∀ depth, ∀ e ∈ entries, e.1.Readable (depth + 1) ∧ e.2.Readable (depth + 1))
    (rest : Bytes) :
    read? ((Item.map entries).encode ++ rest) = some (.map (setAll [] entries), rest) := by
  have hlength : 0 < ((Item.map entries).encode ++ rest).length := by
    rw [Item.encode, List.append_assoc]
    exact length_head_append_pos (show 5 < 8 by omega) hl _
  obtain ⟨n, hn⟩ := Nat.exists_eq_succ_of_ne_zero (Nat.ne_of_gt hlength)
  refine read?_of_readItem? (readItem?_map hl (h 0) _ rest) ?_
  rw [hn]
  exact readItem?_map hl (h n) _ rest

end Items

end Cbor

end RainMeta
