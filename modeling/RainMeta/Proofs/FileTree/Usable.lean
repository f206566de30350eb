import RainMeta.FileTree.Bound
import RainMeta.Proofs.Text.Utf8.Reading

/-!
# Paths that can be used

Most of what goes wrong with a path is an answer of the system: there is no such entry, it is no
directory, it is too long. Two kinds of paths never get as far as the system: those that hold a
NUL character, and those with a surrogate that stands for no byte. An access to such a path fails
*for good* (`RainMeta.FileTree.Fatal`), and so does no other: `RainMeta.FileTree.fatal_find_iff`
says this of the one function through which everything in a tree is reached.

## Names that come from the tree

Paths that are put together of names in directories need not be looked at: the text of a name
without a NUL byte can be used, whatever bytes it is made of
(`RainMeta.Utf8.usable_decodeEscaped`). So below a path that can be used there are none but such
paths, if the tree is sound (`RainMeta.FileTree.Sound`): its names hold no NUL byte.
-/

namespace RainMeta

/-- **A code point that may stand in a path**: it is not NUL, and a surrogate only if it stands
for a byte. -/
def CodePoint.Nameable (c : CodePoint) : Prop :=
  c.val ≠ 0 ∧ (c.isSurrogate → c.isEscapedByte)

instance (c : CodePoint) : Decidable c.Nameable :=
  inferInstanceAs (Decidable (_ ∧ _))

/-- **A text that can be used as a path.** -/
def Text.Usable (t : Text) : Prop :=
  ∀ c ∈ t, c.Nameable

instance (t : Text) : Decidable t.Usable :=
  inferInstanceAs (Decidable (∀ c ∈ t, c.Nameable))

@[simp] theorem Text.usable_append {t u : Text} :
    Text.Usable (t ++ u) ↔ Text.Usable t ∧ Text.Usable u :=
  List.forall_mem_append

/-! ### Names of entries -/

namespace Utf8

theorem nameable_ofEscapedByte {b : UInt8} (h : 0x80 ≤ b.toNat) :
    (CodePoint.ofEscapedByte b).Nameable := by
  have hb := b.toNat_lt
  have hval : (CodePoint.ofEscapedByte b).val = 0xDC00 + b.toNat :=
    CodePoint.val_ofNat (by omega)
  refine ⟨by omega, fun _ => ?_⟩
  simp only [CodePoint.isEscapedByte, hval, Bool.and_eq_true, decide_eq_true_eq]
  omega

/-- A code point with a form other than the one NUL byte may stand in a path. -/
theorem nameable_of_encodeOne {c : CodePoint} (hs : c.isSurrogate = false)
    (h : encodeOne c ≠ [0]) : c.Nameable := by
  refine ⟨fun h0 => h ?_, by simp [hs]⟩
  simp [encodeOne, h0]

theorem not_lt_of_first_refused {b : UInt8} (h : first false b = .refused) : 0x80 ≤ b.toNat := by
  refine Nat.le_of_not_lt fun hb => ?_
  simp [first, hb] at h

/-- **What is read further of a name** can be used if its bytes are not NUL. -/
theorem usable_decodeEscapedFrom {b : Bytes} {state : Option Pending} {out : Text}
    (hb : 0 ∉ b) (hs : ∀ p, state = some p → p.Begins) (hout : Text.Usable out) :
    Text.Usable (decodeEscapedFrom state out b) := by
  have escaped : ∀ {p : Pending} {out : Text}, p.Begins → Text.Usable out →
      Text.Usable (p.seen.map CodePoint.ofEscapedByte ++ out) := by
    intro p out hp hout
    refine Text.usable_append.mpr ⟨fun c hc => ?_, hout⟩
    obtain ⟨x, hx, rfl⟩ := List.mem_map.mp hc
    exact nameable_ofEscapedByte (hp.seen_ge x hx)
  have usable_cons : ∀ {c : CodePoint} {out : Text}, c.Nameable → Text.Usable out →
      Text.Usable (c :: out) := fun hc hout => List.forall_mem_cons.mpr ⟨hc, hout⟩
  induction b generalizing state out with
  | nil =>
    cases state with
    | none => simpa [decodeEscapedFrom, Text.Usable] using hout
    | some p =>
      have := escaped (hs p rfl) hout
      simpa only [decodeEscapedFrom, Text.Usable, List.mem_reverse] using this
  | cons x rest ih =>
    obtain ⟨hx, hrest⟩ : x ≠ 0 ∧ 0 ∉ rest := by simpa [eq_comm] using hb
    -- a byte at the start of a code point, with whatever came before
    have afresh : ∀ {out : Text}, Text.Usable out →
        Text.Usable (decodeEscapedFrom none out (x :: rest)) := by
      intro out hout
      simp only [decodeEscapedFrom]
      rcases hf : first false x with c | q | _
      · obtain ⟨hc, hform⟩ := first_complete hf
        exact ih hrest (by simp)
          (usable_cons (nameable_of_encodeOne hc (by simpa [hform] using hx)) hout)
      · exact ih hrest (by rintro p ⟨⟩; exact (Pending.begins_of_first hf).1) hout
      · exact ih hrest (by simp)
          (usable_cons (nameable_ofEscapedByte (not_lt_of_first_refused hf)) hout)
    cases state with
    | none => exact afresh hout
    | some p =>
      have hp := hs p rfl
      rcases hn : p.next x with c | q | _
      · obtain ⟨hc, hform⟩ := hp.next_complete hn
        have hne : encodeOne c ≠ [0] := by
          rw [hform]
          simp [List.append_eq_singleton_iff, hp.seen_ne_nil, hx]
        simp only [decodeEscapedFrom, hn]
        exact ih hrest (by simp) (usable_cons (nameable_of_encodeOne hc hne) hout)
      · simp only [decodeEscapedFrom, hn]
        exact ih hrest (by rintro _ ⟨⟩; exact (hp.next_pending hn).1) hout
      · have := afresh (escaped hp hout)
        simpa only [decodeEscapedFrom, hn] using this

/-- **The text of a name can be used** if none of its bytes is NUL. -/
theorem usable_decodeEscaped {b : Bytes} (h : 0 ∉ b) : Text.Usable (decodeEscaped b) :=
  usable_decodeEscapedFrom h (by simp) (by simp [Text.Usable])

/-! ### Bytes of paths -/

/-- **A name can be written** exactly when its surrogates stand for bytes. -/
theorem encodeEscaped_eq_ok_iff {t : Text} {b : Bytes} :
    encodeEscaped t = .ok b ↔
      (∀ c ∈ t, c.isSurrogate → c.isEscapedByte) ∧ b = t.flatMap encodeOneEscaped := by
  have hrefuse : (∀ c ∈ t, (c.isSurrogate && !c.isEscapedByte) = false) ↔
      ∀ c ∈ t, c.isSurrogate → c.isEscapedByte := by
    simp [Bool.and_eq_false_imp]
  rw [← hrefuse, ← refused?_eq_none_iff _ 0, encodeEscaped]
  rcases refused? _ 0 t with _ | e
  · simp [eq_comm]
  · simp

theorem zero_ne_toUInt8 {n : Nat} (h : n < 256) (h0 : n ≠ 0) : 0 ≠ n.toUInt8 := by
  intro hn
  have := toNat_toUInt8 h
  rw [← hn] at this
  exact h0 this.symm

/-- Only NUL is written with a NUL byte. -/
theorem zero_mem_encodeOneEscaped_iff (c : CodePoint) : 0 ∈ encodeOneEscaped c ↔ c.val = 0 := by
  have hc := c.isLt
  by_cases h0 : c.val = 0
  · simp [encodeOneEscaped, CodePoint.isEscapedByte, encodeOne, h0]
  refine iff_of_false ?_ h0
  by_cases he : c.isEscapedByte
  · have hrange : 0xDC80 ≤ c.val ∧ c.val < 0xDD00 := by simpa [CodePoint.isEscapedByte] using he
    simp only [encodeOneEscaped, if_pos he, List.mem_singleton]
    exact zero_ne_toUInt8 (by omega) (by omega)
  · simp only [encodeOneEscaped, if_neg he, encodeOne]
    have ne : ∀ {n : Nat}, n < 256 → n ≠ 0 → 0 ≠ n.toUInt8 := zero_ne_toUInt8
    split
    · simp only [List.mem_cons, List.not_mem_nil, or_false]
      exact ne (by omega) h0
    split
    · simp only [List.mem_cons, List.not_mem_nil, or_false, not_or]
      exact ⟨ne (by omega) (by omega), ne (by omega) (by omega)⟩
    split
    · simp only [List.mem_cons, List.not_mem_nil, or_false, not_or]
      exact ⟨ne (by omega) (by omega), ne (by omega) (by omega), ne (by omega) (by omega)⟩
    · simp only [List.mem_cons, List.not_mem_nil, or_false, not_or]
      exact ⟨ne (by omega) (by omega), ne (by omega) (by omega), ne (by omega) (by omega),
        ne (by omega) (by omega)⟩

end Utf8

/-! ### Accesses that fail for good -/

namespace FileTree

variable {α β : Type}

/-- **An access fails for good** if the system is not even asked. -/
def Fatal (a : Except AccessError α) : Prop :=
  ∃ e, a = .error e ∧ ∀ cause, e ≠ .os cause

theorem not_fatal_ok (a : α) : ¬Fatal (.ok a : Except AccessError α) := by
  rintro ⟨e, ⟨⟩, -⟩

theorem fatal_error_iff (e : AccessError) :
    Fatal (.error e : Except AccessError α) ↔ ∀ cause, e ≠ .os cause := by
  constructor
  · rintro ⟨_, ⟨⟩, h⟩
    exact h
  · exact fun h => ⟨e, rfl, h⟩

theorem not_fatal_os (cause : OsError) : ¬Fatal (.error (.os cause) : Except AccessError α) :=
  fun h => (fatal_error_iff _).mp h cause rfl

theorem fatal_embeddedNul : Fatal (.error .embeddedNul : Except AccessError α) :=
  (fatal_error_iff _).mpr (by rintro _ ⟨⟩)

theorem fatal_unencodable (cause : EncodeError) :
    Fatal (.error (.unencodable cause) : Except AccessError α) :=
  (fatal_error_iff _).mpr (by rintro _ ⟨⟩)

theorem not_fatal_mapError_os (x : Except OsError α) : ¬Fatal (x.mapError .os) := by
  rcases x with cause | a
  · exact not_fatal_os cause
  · exact not_fatal_ok a

/-- What is done with the result does not matter if it never fails for good. -/
theorem fatal_bind_iff {x : Except AccessError α} {f : α → Except AccessError β}
    (hf : ∀ a, ¬Fatal (f a)) : Fatal (x >>= f) ↔ Fatal x := by
  rcases x with e | a
  · exact (fatal_error_iff e).trans (fatal_error_iff e).symm
  · exact iff_of_false (hf a) (not_fatal_ok a)

/-- **A path can be used or fails for good.** -/
theorem fatal_pathBytes_iff (path : Text) : Fatal (pathBytes path) ↔ ¬path.Usable := by
  rcases he : Utf8.encodeEscaped path with cause | b
  · have hpath : pathBytes path = .error (.unencodable cause) := by simp [pathBytes, he]
    refine iff_of_true (hpath ▸ fatal_unencodable cause) fun h => ?_
    have hok := Utf8.encodeEscaped_eq_ok_iff.mpr ⟨fun c hc => (h c hc).2, rfl⟩
    rw [he] at hok
    cases hok
  obtain ⟨hs, rfl⟩ := Utf8.encodeEscaped_eq_ok_iff.mp he
  have hzero : path.Usable ↔ 0 ∉ path.flatMap Utf8.encodeOneEscaped := by
    simp only [List.mem_flatMap, Utf8.zero_mem_encodeOneEscaped_iff, not_exists, not_and]
    exact ⟨fun h c hc => (h c hc).1, fun h c hc => ⟨h c hc, hs c hc⟩⟩
  rw [hzero, Classical.not_not]
  simp only [pathBytes, he, List.contains_eq_mem, decide_eq_true_eq]
  split
  · next h => exact iff_of_true fatal_embeddedNul h
  · next h =>
    refine iff_of_false ?_ h
    split
    · exact not_fatal_os _
    · exact not_fatal_ok _

theorem fatal_spot_iff (t : FileTree) (path : Text) : Fatal (t.spot path) ↔ ¬path.Usable := by
  rw [spot, fatal_bind_iff fun b => not_fatal_mapError_os _, fatal_pathBytes_iff]

/-- **Nothing in a tree can be reached by a path that cannot be used**, and any other path is
answered by the system. -/
theorem fatal_find_iff (t : FileTree) (path : Text) : Fatal (t.find path) ↔ ¬path.Usable := by
  rw [find, fatal_bind_iff, fatal_spot_iff]
  rintro (location | location)
  · dsimp only
    split
    · exact not_fatal_os _
    · exact not_fatal_ok _
  · exact not_fatal_os _

theorem fatal_readFile_iff (t : FileTree) (path : Text) :
    Fatal (t.readFile path) ↔ ¬path.Usable := by
  rw [readFile, fatal_bind_iff, fatal_find_iff]
  rintro (content | target | entries)
  · exact not_fatal_ok content
  · exact not_fatal_os _
  · exact not_fatal_os _

theorem fatal_list_iff (t : FileTree) (path : Text) : Fatal (t.list path) ↔ ¬path.Usable := by
  rw [list, fatal_bind_iff, fatal_find_iff]
  rintro (content | target | entries)
  · exact not_fatal_os _
  · exact not_fatal_os _
  · exact not_fatal_ok entries

theorem fatal_kindOf_iff (t : FileTree) (path : Text) : Fatal (t.kindOf path) ↔ ¬path.Usable := by
  rw [kindOf, fatal_bind_iff, fatal_find_iff]
  rintro (content | target | entries)
  · exact not_fatal_ok _
  · exact not_fatal_ok _
  · exact not_fatal_ok _

end FileTree

/-! ### Sound trees -/

namespace Node

mutual

/-- **A sound node** is one that a system can have: the names below it hold no NUL bytes, and the
content of every file fits into a byte string. -/
def Sound : Node → Prop
  | .file content => content.length ≤ Bytes.longest
  | .link _ => True
  | .directory entries => SoundEntries entries

/-- The same for the entries of a directory. -/
def SoundEntries : List (Bytes × Node) → Prop
  | [] => True
  | (name, node) :: rest => 0 ∉ name ∧ node.Sound ∧ SoundEntries rest

end

theorem SoundEntries.of_mem {entries : List (Bytes × Node)} (h : SoundEntries entries)
    {e : Bytes × Node} (he : e ∈ entries) : 0 ∉ e.1 ∧ e.2.Sound := by
  induction entries with
  | nil => cases he
  | cons first rest ih =>
    obtain ⟨hname, hnode, hrest⟩ := h
    rcases List.mem_cons.mp he with rfl | he
    · exact ⟨hname, hnode⟩
    · exact ih hrest he

theorem Sound.at? {location : Location} {root node : Node} (h : root.Sound)
    (hn : at? location root = some node) : node.Sound := by
  induction location generalizing root with
  | nil =>
    cases hn
    exact h
  | cons name rest ih =>
    cases root with
    | file _ => cases hn
    | link _ => cases hn
    | directory entries =>
      obtain ⟨next, hnext, hrest⟩ := Option.bind_eq_some_iff.mp hn
      obtain ⟨e, he, rfl⟩ := Option.map_eq_some_iff.mp hnext
      exact ih (SoundEntries.of_mem h (List.mem_of_find?_eq_some he)).2 hrest

end Node

namespace FileTree

/-- **A sound tree** is one that a system can have. -/
def Sound (t : FileTree) : Prop :=
  t.root.Sound

variable {t : FileTree} {path : Text}

theorem Sound.of_find (ht : t.Sound) {node : Node} (h : t.find path = .ok node) : node.Sound := by
  rcases hs : t.spot path with e | location | location
  · simp [find, hs, bind, Except.bind] at h
  · rcases hn : t.root.at? location with _ | found
    · simp [find, hs, hn, bind, Except.bind] at h
    · simp only [find, hs, hn, bind, Except.bind, Except.ok.injEq] at h
      exact h ▸ Node.Sound.at? ht hn
  · simp [find, hs, bind, Except.bind] at h

/-- A file that can be read fits into a byte string. -/
theorem Sound.length_le_of_readFile (ht : t.Sound) {content : Bytes}
    (h : t.readFile path = .ok content) : content.length ≤ Bytes.longest := by
  rcases hf : t.find path with e | found | target | entries
  · simp [readFile, hf, bind, Except.bind] at h
  · simp only [readFile, hf, bind, Except.bind, Except.ok.injEq] at h
    exact h ▸ ht.of_find hf
  · simp [readFile, hf, bind, Except.bind] at h
  · simp [readFile, hf, bind, Except.bind] at h

/-- The names in a directory that can be listed can be used. -/
theorem Sound.usable_of_list (ht : t.Sound) {entries : List (Bytes × Node)}
    (h : t.list path = .ok entries) : ∀ e ∈ entries, Text.Usable (Utf8.decodeEscaped e.1) := by
  rcases hf : t.find path with e | content | target | found
  · simp [list, hf, bind, Except.bind] at h
  · simp [list, hf, bind, Except.bind] at h
  · simp [list, hf, bind, Except.bind] at h
  · simp only [list, hf, bind, Except.bind, Except.ok.injEq] at h
    have hsound : Node.SoundEntries entries := h ▸ ht.of_find hf
    exact fun e he => Utf8.usable_decodeEscaped (hsound.of_mem he).1

end FileTree

/-! ### Written paths -/

namespace Path

/-- **A path can be used** if its text can. -/
def Usable (p : Path) : Prop :=
  p.text.Usable

instance (p : Path) : Decidable p.Usable :=
  inferInstanceAs (Decidable p.text.Usable)

theorem usable_join_slash_iff (names : List Text) :
    Text.Usable (Text.join [slash] names) ↔ ∀ name ∈ names, name.Usable := by
  induction names with
  | nil => simp [Text.join, Text.Usable]
  | cons name rest ih =>
    cases rest with
    | nil => simp [Text.join]
    | cons next rest =>
      have hslash : Text.Usable [slash] := by decide
      rw [List.forall_mem_cons, ← ih]
      simp only [Text.join, List.intersperse_cons_cons, List.flatten_cons, Text.usable_append,
        hslash, true_and]

/-- **A path can be used** exactly if all its names can. -/
theorem usable_iff (p : Path) : p.Usable ↔ ∀ name ∈ p.names, Text.Usable name := by
  have hdot : Text.Usable [dot] := by decide
  have hroot : ∀ r : PathRoot, Text.Usable r.text := by
    rintro (_ | _ | _) <;> decide
  unfold Usable text
  split
  · next hn => exact iff_of_true hdot (by simp [hn])
  · rw [Text.usable_append, usable_join_slash_iff]
    exact and_iff_right (hroot _)

theorem usable_child_iff (p : Path) (name : Text) :
    (p.child name).Usable ↔ p.Usable ∧ name.Usable := by
  simp only [usable_iff, child, List.forall_mem_append, List.forall_mem_singleton]

end Path

end RainMeta
