import RainMeta.Proofs.FileTree.Usable

/-!
# Entries and the paths that lead to them

A directory is listed by one path, and its entries are reached by longer ones. That the two agree
takes three facts. The text of a name is written back as the bytes of the name, whatever these are
(`RainMeta.Utf8.encodeEscaped_decodeEscaped`), so that different names stay different. What follows
a path that leads to a directory is looked up from there
(`RainMeta.FileTree.exists_resolve_append`). And under the name of an entry stands the entry, if the
tree is well named (`RainMeta.FileTree.WellNamed`).

Together they say what `RainMeta.FileTree.find_child` says: what the path of an entry leads to. The
two ways to write that path, with a slash put behind the text of the directory or as a path of
its own, come to the same.

## Links on the way

At most forty links are followed for one path. The links on the way to a directory count against
what its entries may still follow, so a link can lead somewhere from one path to its directory and
nowhere from another. This is why the lookup of what follows starts with the links that are left.
-/

namespace RainMeta

/-! ### Texts of names -/

namespace Utf8

theorem encodeOneEscaped_of_not_surrogate {c : CodePoint} (h : c.isSurrogate = false) :
    encodeOneEscaped c = encodeOne c := by
  have hc : c.isEscapedByte = false := by
    simp only [CodePoint.isSurrogate, CodePoint.isEscapedByte, Bool.and_eq_false_iff,
      decide_eq_false_iff_not] at h ⊢
    omega
  simp [encodeOneEscaped, hc]

theorem encodeOneEscaped_ofEscapedByte {b : UInt8} (h : 0x80 ≤ b.toNat) :
    encodeOneEscaped (.ofEscapedByte b) = [b] := by
  have hb := b.toNat_lt
  have hval : (CodePoint.ofEscapedByte b).val = 0xDC00 + b.toNat := CodePoint.val_ofNat (by omega)
  have hescaped : (CodePoint.ofEscapedByte b).isEscapedByte = true := by
    simp only [CodePoint.isEscapedByte, hval, Bool.and_eq_true, decide_eq_true_eq]
    omega
  rw [encodeOneEscaped, if_pos hescaped, hval, toUInt8_eq_of_toNat (b := b) (by omega)]

theorem flatMap_encodeOneEscaped_escaped {seen : Bytes} (h : ∀ b ∈ seen, 0x80 ≤ b.toNat) :
    (seen.map CodePoint.ofEscapedByte).reverse.flatMap encodeOneEscaped = seen.reverse := by
  induction seen with
  | nil => rfl
  | cons b seen ih =>
    rw [List.forall_mem_cons] at h
    simp [ih h.2, encodeOneEscaped_ofEscapedByte h.1]

/-- **What is read further of a name** is written as it was read: code points as their forms, and
each byte that belongs to none as that byte. -/
theorem flatMap_encodeOneEscaped_decodeEscapedFrom {b : Bytes} {state : Option Pending}
    {out : Text} (hs : ∀ p, state = some p → p.Begins) :
    (decodeEscapedFrom state out b).flatMap encodeOneEscaped =
      out.reverse.flatMap encodeOneEscaped ++ seenOf state ++ b := by
  induction b generalizing state out with
  | nil =>
    cases state with
    | none => simp [decodeEscapedFrom, seenOf]
    | some p =>
      have hp := flatMap_encodeOneEscaped_escaped (hs p rfl).seen_ge
      simp [decodeEscapedFrom, seenOf, hp]
  | cons x rest ih =>
    -- a byte that completes a code point, whose form is what was seen with this byte behind
    have complete : ∀ {c : CodePoint} {out : Text} (seen : Bytes), c.isSurrogate = false →
        encodeOne c = seen ++ [x] →
        (decodeEscapedFrom none (c :: out) rest).flatMap encodeOneEscaped =
          out.reverse.flatMap encodeOneEscaped ++ seen ++ x :: rest := by
      intro c out seen hc hform
      rw [ih (by simp)]
      simp [seenOf, encodeOneEscaped_of_not_surrogate hc, hform]
    -- a byte at the start of a code point, with whatever came before
    have afresh : ∀ out : Text,
        (decodeEscapedFrom none out (x :: rest)).flatMap encodeOneEscaped =
          out.reverse.flatMap encodeOneEscaped ++ x :: rest := by
      intro out
      simp only [decodeEscapedFrom]
      rcases hf : first false x with c | q | _
      · obtain ⟨hc, hform⟩ := first_complete hf
        simpa using complete [] hc hform
      · obtain ⟨hq, hseen⟩ := Pending.begins_of_first hf
        dsimp only
        rw [ih (by rintro p ⟨⟩; exact hq)]
        simp [seenOf, hseen]
      · dsimp only
        rw [ih (by simp)]
        simp [seenOf, encodeOneEscaped_ofEscapedByte (not_lt_of_first_refused hf)]
    cases state with
    | none => simpa [seenOf] using afresh out
    | some p =>
      have hp := hs p rfl
      -- a refused byte starts afresh, behind the bytes of the code point that is given up
      rcases hn : p.next x with c | q | _
      · obtain ⟨hc, hform⟩ := hp.next_complete hn
        simp only [decodeEscapedFrom, hn]
        exact complete p.seen.reverse hc hform
      · obtain ⟨hq, hseen⟩ := hp.next_pending hn
        simp only [decodeEscapedFrom, hn]
        rw [ih (by rintro _ ⟨⟩; exact hq)]
        simp [seenOf, hseen]
      · have hescaped := flatMap_encodeOneEscaped_escaped hp.seen_ge
        have hafresh := afresh (p.seen.map CodePoint.ofEscapedByte ++ out)
        simp only [decodeEscapedFrom] at hafresh
        simp only [decodeEscapedFrom, hn]
        rw [hafresh]
        simp [seenOf, hescaped]

theorem flatMap_encodeOneEscaped_decodeEscaped (b : Bytes) :
    (decodeEscaped b).flatMap encodeOneEscaped = b := by
  have h := @flatMap_encodeOneEscaped_decodeEscapedFrom b none [] (by simp)
  simpa [decodeEscaped, seenOf] using h

/-- **The text of a name is written back as the name.** -/
theorem encodeEscaped_decodeEscaped {b : Bytes} (h : 0 ∉ b) :
    encodeEscaped (decodeEscaped b) = .ok b :=
  encodeEscaped_eq_ok_iff.mpr ⟨fun c hc => (usable_decodeEscaped h c hc).2,
    (flatMap_encodeOneEscaped_decodeEscaped b).symm⟩

/-- Different names have different texts. -/
theorem decodeEscaped_injective : Function.Injective decodeEscaped :=
  Function.LeftInverse.injective (g := List.flatMap encodeOneEscaped)
    flatMap_encodeOneEscaped_decodeEscaped

theorem encodeEscaped_append {t u : Text} {b c : Bytes} (ht : encodeEscaped t = .ok b)
    (hu : encodeEscaped u = .ok c) : encodeEscaped (t ++ u) = .ok (b ++ c) := by
  obtain ⟨hst, rfl⟩ := encodeEscaped_eq_ok_iff.mp ht
  obtain ⟨hsu, rfl⟩ := encodeEscaped_eq_ok_iff.mp hu
  exact encodeEscaped_eq_ok_iff.mpr
    ⟨List.forall_mem_append.mpr ⟨hst, hsu⟩, List.flatMap_append.symm⟩

end Utf8

/-! ### Names in a written path -/

theorem namesIn_cons (c : UInt8) (b : Bytes) :
    namesIn (c :: b) = if c = 47 then [] :: namesIn b else match namesIn b with
      | [] => [[c]]
      | n :: ns => (c :: n) :: ns :=
  rfl

theorem namesIn_ne_nil (b : Bytes) : namesIn b ≠ [] := by
  cases b with
  | nil => exact List.cons_ne_nil _ _
  | cons c b =>
    rw [namesIn_cons]
    split
    · exact List.cons_ne_nil _ _
    · split <;> exact List.cons_ne_nil _ _

/-- **A slash parts names.** -/
theorem namesIn_append (b c : Bytes) : namesIn (b ++ 47 :: c) = namesIn b ++ namesIn c := by
  induction b with
  | nil => rfl
  | cons x b ih =>
    rw [List.cons_append, namesIn_cons, namesIn_cons, ih]
    obtain ⟨n, ns, hn⟩ := List.exists_cons_of_ne_nil (namesIn_ne_nil b)
    rw [hn]
    split <;> rfl

theorem namesIn_of_not_mem {n : Bytes} (h : 47 ∉ n) : namesIn n = [n] := by
  induction n with
  | nil => rfl
  | cons x n ih =>
    rw [List.mem_cons, not_or] at h
    rw [namesIn_cons, ih h.2, if_neg (Ne.symm h.1)]

/-- **A name that an entry can have**: it is not empty, it is no dots that lead elsewhere, and no
slash parts it. -/
structure ProperName (name : Bytes) : Prop where
  ne_nil : name ≠ []
  ne_dot : name ≠ [46]
  ne_dots : name ≠ [46, 46]
  not_mem_slash : 47 ∉ name

instance (name : Bytes) : Decidable (ProperName name) :=
  decidable_of_iff (name ≠ [] ∧ name ≠ [46] ∧ name ≠ [46, 46] ∧ 47 ∉ name)
    ⟨fun ⟨h₁, h₂, h₃, h₄⟩ => ⟨h₁, h₂, h₃, h₄⟩, fun ⟨h₁, h₂, h₃, h₄⟩ => ⟨h₁, h₂, h₃, h₄⟩⟩

/-- A proper name is no name that leads nowhere else. -/
theorem ProperName.not_stays {name : Bytes} (h : ProperName name) :
    ¬(decide (name = []) || decide (name = [46])) = true := by
  simp [h.ne_nil, h.ne_dot]

namespace Node

/-! ### Well-named trees -/

mutual

/-- **A well-named node** is one below which every directory has proper names for its entries, and
no two entries of one name. -/
def WellNamed : Node → Prop
  | .file _ => True
  | .link _ => True
  | .directory entries => (entries.map Prod.fst).Nodup ∧ WellNamedEntries entries

/-- The same for all entries of a directory. -/
def WellNamedEntries : List (Bytes × Node) → Prop
  | [] => True
  | (name, node) :: rest => ProperName name ∧ node.WellNamed ∧ WellNamedEntries rest

end

theorem WellNamedEntries.of_mem {entries : List (Bytes × Node)} (h : WellNamedEntries entries)
    {e : Bytes × Node} (he : e ∈ entries) : ProperName e.1 ∧ e.2.WellNamed := by
  induction entries with
  | nil => cases he
  | cons first rest ih =>
    obtain ⟨hname, hnode, hrest⟩ := h
    rcases List.mem_cons.mp he with rfl | he
    · exact ⟨hname, hnode⟩
    · exact ih hrest he

theorem WellNamed.at? {location : Location} {root node : Node} (h : root.WellNamed)
    (hn : at? location root = some node) : node.WellNamed := by
  induction location generalizing root with
  | nil =>
    cases hn
    exact h
  | cons name rest ih =>
    cases root with
    | file _ => cases hn
    | link _ => cases hn
    | directory entries =>
      obtain ⟨next, hnext, hrest⟩ := Option.bind_eq_some_iff.mp hn
      obtain ⟨e, he, rfl⟩ := Option.map_eq_some_iff.mp hnext
      exact ih (WellNamedEntries.of_mem h.2 (List.mem_of_find?_eq_some he)).2 hrest

/-- Under the name of an entry stands the entry, if no other has the name. -/
theorem named?_of_mem {entries : List (Bytes × Node)} (h : (entries.map Prod.fst).Nodup)
    {e : Bytes × Node} (he : e ∈ entries) : named? e.1 entries = some e.2 := by
  induction entries with
  | nil => cases he
  | cons first rest ih =>
    rw [List.map_cons, List.nodup_cons] at h
    rcases List.mem_cons.mp he with rfl | he
    · simp [named?]
    · have hne : first.1 ≠ e.1 := fun heq => h.1 (heq ▸ List.mem_map_of_mem he)
      have hrest := ih h.2 he
      simpa [named?, List.find?_cons, hne] using hrest

theorem at?_append (l m : Location) (root : Node) :
    at? (l ++ m) root = (at? l root).bind (at? m) := by
  induction l generalizing root with
  | nil => rfl
  | cons name l ih =>
    cases root with
    | file _ => rfl
    | link _ => rfl
    | directory entries =>
      simp only [List.cons_append, at?, Option.bind_assoc]
      exact Option.bind_congr fun node _ => ih node

end Node

namespace FileTree

/-- **A well-named tree** is one in which every directory has proper names for its entries, and no
two entries of one name. -/
def WellNamed (t : FileTree) : Prop :=
  t.root.WellNamed

variable {t : FileTree}

/-! ### What follows a path -/

/-- A name that stays where it is can be left out. -/
theorem resolve_stay (t : FileTree) (links : Nat) (location : Location) {name : Bytes}
    (h : name = [] ∨ name = [46]) (rest : List Bytes) :
    t.resolve links location (name :: rest) = t.resolve links location rest := by
  rw [resolve, if_pos (by simpa using h)]

theorem resolve_up (t : FileTree) (links : Nat) (location : Location) (rest : List Bytes) :
    t.resolve links location ([46, 46] :: rest) = t.resolve links location.dropLast rest := by
  rw [resolve, if_neg (by decide), if_pos rfl]

/-- **What follows names that lead to a directory** is looked up from that directory, with the
links that are left. -/
theorem exists_resolve_append {links : Nat} {start location : Location} {names : List Bytes}
    {entries : List (Bytes × Node)} (h : t.resolve links start names = .ok (.node location))
    (hdir : t.root.at? location = some (.directory entries)) :
    ∃ left, ∀ rest, rest ≠ [] →
      t.resolve links start (names ++ rest) = t.resolve left location rest := by
  induction links, start, names using resolve.induct (t := t) with
  | case1 links start =>
    rw [resolve] at h
    cases h
    exact ⟨links, fun rest _ => rfl⟩
  | case2 links start name names hstay ih =>
    rw [resolve, if_pos hstay] at h
    obtain ⟨left, hleft⟩ := ih h
    refine ⟨left, fun rest hrest => ?_⟩
    rw [List.cons_append, resolve, if_pos hstay, hleft rest hrest]
  | case3 links start names _ ih =>
    rw [resolve_up] at h
    obtain ⟨left, hleft⟩ := ih h
    refine ⟨left, fun rest hrest => ?_⟩
    rw [List.cons_append, resolve_up, hleft rest hrest]
  | case7 links start name names hstay hup hshort es hnode ih =>
    rw [resolve, if_neg hstay, if_neg hup, if_neg hshort, hnode] at h
    obtain ⟨left, hleft⟩ := ih h
    refine ⟨left, fun rest hrest => ?_⟩
    rw [List.cons_append, resolve, if_neg hstay, if_neg hup, if_neg hshort, hnode]
    exact hleft rest hrest
  | case11 start name names hstay hup hshort target hnode links from' ih =>
    -- the names of the target come before those that are left
    rw [resolve, if_neg hstay, if_neg hup, if_neg hshort, hnode] at h
    obtain ⟨left, hleft⟩ := ih h
    refine ⟨left, fun rest hrest => ?_⟩
    rw [List.cons_append, resolve, if_neg hstay, if_neg hup, if_neg hshort, hnode]
    have := hleft rest hrest
    rwa [List.append_assoc] at this
  -- in all other cases the names lead to no directory
  | case4 links start name names hstay hup hlong =>
    rw [resolve, if_neg hstay, if_neg hup, if_pos hlong] at h
    cases h
  | case5 links start name names hstay hup hshort hnode hlast
  | case6 links start name names hstay hup hshort hnode hlast =>
    rw [resolve, if_neg hstay, if_neg hup, if_neg hshort, hnode] at h
    simp [hlast] at h
  | case8 links start name names hstay hup hshort content hnode hlast =>
    rw [resolve, if_neg hstay, if_neg hup, if_neg hshort, hnode] at h
    simp only [hlast, if_true, Except.ok.injEq, Spot.node.injEq] at h
    simp [← h, hnode] at hdir
  | case9 links start name names hstay hup hshort content hnode hlast =>
    rw [resolve, if_neg hstay, if_neg hup, if_neg hshort, hnode] at h
    simp [hlast] at h
  | case10 start name names hstay hup hshort target hnode =>
    rw [resolve, if_neg hstay, if_neg hup, if_neg hshort, hnode] at h
    cases h

/-- What names lead to from a location, if at most `links` links are followed. -/
def follow (t : FileTree) (links : Nat) (location : Location) (names : List Bytes) :
    Except OsError Node :=
  match t.resolve links location names with
  | .error cause => .error cause
  | .ok (.vacant _) => .error .noEntry
  | .ok (.node found) => match t.root.at? found with
    | none => .error .noEntry
    | some node => .ok node

/-- Where the names of a written path start. -/
def start (t : FileTree) (b : Bytes) : Location :=
  if b.head? = some 47 then [] else t.workingDirectory

theorem find_eq_follow {path : Text} {b : Bytes} (h : pathBytes path = .ok b) :
    t.find path = (t.follow mostLinks (t.start b) (namesIn b)).mapError .os := by
  simp only [find, spot, h, follow, start, bind, Except.bind]
  rcases t.resolve mostLinks (if b.head? = some 47 then [] else t.workingDirectory) (namesIn b)
    with cause | found | found
  · rfl
  · change (match t.root.at? found with | none => _ | some node => _) =
      Except.mapError AccessError.os (match t.root.at? found with | none => _ | some node => _)
    cases t.root.at? found <;> rfl
  · rfl

theorem find_eq_ok_iff {path : Text} {b : Bytes} (h : pathBytes path = .ok b) {node : Node} :
    t.find path = .ok node ↔ t.follow mostLinks (t.start b) (namesIn b) = .ok node := by
  rw [find_eq_follow h]
  rcases t.follow mostLinks (t.start b) (namesIn b) with cause | found
  · exact iff_of_false (by rintro ⟨⟩) (by rintro ⟨⟩)
  · exact ⟨by rintro ⟨⟩; rfl, by rintro ⟨⟩; rfl⟩

theorem exists_follow_append {links : Nat} {start : Location} {names : List Bytes}
    {entries : List (Bytes × Node)} (h : t.follow links start names = .ok (.directory entries)) :
    ∃ left location, t.root.at? location = some (.directory entries) ∧
      ∀ rest, rest ≠ [] → t.follow links start (names ++ rest) = t.follow left location rest := by
  unfold follow at h
  rcases hr : t.resolve links start names with cause | location | location
  · simp [hr] at h
  · rcases hn : t.root.at? location with _ | node
    · simp [hr, hn] at h
    · simp only [hr, hn, Except.ok.injEq] at h
      subst h
      obtain ⟨left, hleft⟩ := exists_resolve_append hr hn
      exact ⟨left, location, hn, fun rest hrest => by rw [follow, hleft rest hrest, follow]⟩
  · simp [hr] at h

/-- **The name of an entry** leads from its directory to the entry, unless it is too long or the
entry is a link. -/
theorem follow_entry (ht : t.WellNamed) {left : Nat} {location : Location}
    {entries : List (Bytes × Node)} (hdir : t.root.at? location = some (.directory entries))
    {e : Bytes × Node} (he : e ∈ entries) {node : Node}
    (h : t.follow left location [e.1] = .ok node) :
    e.1.length ≤ longestName ∧ ((∀ target, e.2 ≠ .link target) → node = e.2) := by
  obtain ⟨hnodup, hentries⟩ := Node.WellNamed.at? ht hdir
  have hname := (Node.WellNamedEntries.of_mem hentries he).1
  have hnode : t.root.at? (location ++ [e.1]) = some e.2 := by
    simp [Node.at?_append, hdir, Node.at?, Node.named?_of_mem hnodup he]
  rw [follow, resolve, if_neg hname.not_stays, if_neg hname.ne_dots, hnode] at h
  by_cases hlong : longestName < e.1.length
  · simp [hlong] at h
  refine ⟨Nat.le_of_not_lt hlong, fun hlink => ?_⟩
  rw [if_neg hlong] at h
  rcases he2 : e.2 with content | target | below
  · simpa [he2, hnode, eq_comm] using h
  · exact absurd he2 (hlink target)
  · simpa [he2, hnode, resolve, eq_comm] using h

/-! ### Names in the working directory -/

section Name

variable {path : Text} {name : Bytes} (hpath : pathBytes path = .ok name) (hname : ProperName name)
  (hlength : name.length ≤ longestName)

include hpath hname hlength

/-- **A name alone** leads to what stands under it in the working directory, if that is no link. -/
theorem find_name
    (hlink : ∀ target, t.root.at? (t.workingDirectory ++ [name]) ≠ some (.link target)) :
    t.find path = match t.root.at? (t.workingDirectory ++ [name]) with
      | none => .error (.os .noEntry)
      | some node => .ok node := by
  have hstart : t.start name = t.workingDirectory := by
    refine if_neg fun hslash => hname.not_mem_slash ?_
    exact List.mem_of_mem_head? hslash
  rw [find_eq_follow hpath, hstart, namesIn_of_not_mem hname.not_mem_slash, follow, resolve,
    if_neg hname.not_stays, if_neg hname.ne_dots, if_neg (Nat.not_lt.mpr hlength)]
  rcases hnode : t.root.at? (t.workingDirectory ++ [name]) with _ | content | target | entries
  · rfl
  · simp only [List.isEmpty_nil, if_true, hnode]
    rfl
  · exact absurd hnode (hlink target)
  · simp only [resolve, hnode]
    rfl

theorem find_name_of_none (hnode : t.root.at? (t.workingDirectory ++ [name]) = none) :
    t.find path = .error (.os .noEntry) := by
  have hlink : ∀ target, t.root.at? (t.workingDirectory ++ [name]) ≠ some (.link target) := by
    rw [hnode]
    rintro target ⟨⟩
  rw [find_name hpath hname hlength hlink, hnode]

/-- A file in the working directory is read by its name. -/
theorem readFile_name {content : Bytes}
    (hnode : t.root.at? (t.workingDirectory ++ [name]) = some (.file content)) :
    t.readFile path = .ok content := by
  have hlink : ∀ target, t.root.at? (t.workingDirectory ++ [name]) ≠ some (.link target) := by
    rw [hnode]
    rintro target ⟨⟩
  rw [readFile, find_name hpath hname hlength hlink, hnode]
  rfl

end Name

/-- A dot leads to the working directory. -/
theorem find_dot {entries : List (Bytes × Node)}
    (hdir : t.root.at? t.workingDirectory = some (.directory entries)) :
    t.find "." = .ok (.directory entries) := by
  have hpath : pathBytes "." = .ok [46] := rfl
  have hnames : namesIn [46] = [[46]] := namesIn_of_not_mem (by decide)
  have hstart : t.start [46] = t.workingDirectory := if_neg (by decide)
  rw [find_eq_ok_iff hpath, hnames, hstart, follow, resolve_stay _ _ _ (.inr rfl), resolve]
  simp [hdir]

end FileTree

/-! ### Paths of entries -/

theorem Text.join_append_singleton {mark : Text} {parts : List Text} (h : parts ≠ [])
    (last : Text) : join mark (parts ++ [last]) = join mark parts ++ mark ++ last := by
  induction parts with
  | nil => exact absurd rfl h
  | cons part parts ih =>
    cases parts with
    | nil => simp [join]
    | cons next parts =>
      have hrest := ih (List.cons_ne_nil next parts)
      simp only [join, List.cons_append, List.intersperse_cons_cons, List.flatten_cons] at hrest ⊢
      simp [hrest]

namespace Path

/-- **A path is named** if none of its names is empty, as it is for all paths that are read. -/
def Named (p : Path) : Prop :=
  ∀ name ∈ p.names, name ≠ []

theorem named_ofText (t : Text) : (ofText t).Named := by
  intro name h
  have := (List.mem_filter.mp h).2
  simp_all

theorem Named.child {p : Path} (h : p.Named) {name : Text} (hname : name ≠ []) :
    (p.child name).Named := by
  simpa [Named, Path.child, or_imp, forall_and, hname] using h

theorem text_of_names {p : Path} (h : p.names ≠ []) :
    p.text = p.root.text ++ Text.join [slash] p.names := by
  obtain ⟨root, names⟩ := p
  rcases names with _ | ⟨first, rest⟩
  · exact absurd rfl h
  · cases root <;> rfl

theorem Named.text_ne_nil {p : Path} (h : p.Named) : p.text ≠ [] := by
  obtain ⟨root, names⟩ := p
  rcases names with _ | ⟨first, rest⟩
  · cases root <;> exact List.cons_ne_nil _ _
  · have hfirst : first ≠ [] := h first List.mem_cons_self
    rw [text_of_names (List.cons_ne_nil first rest)]
    cases rest <;> simp [Text.join, hfirst]

/-- The path of an entry is written with a slash before its name. -/
theorem text_child_of_names {p : Path} (h : p.names ≠ []) (name : Text) :
    (p.child name).text = p.text ++ [slash] ++ name := by
  have hchild : (p.child name).names ≠ [] := by simp [child]
  rw [text_of_names hchild, text_of_names h, child, Text.join_append_singleton h]
  simp

end Path

namespace FileTree

variable {t : FileTree} {dir : Path} {entries : List (Bytes × Node)}

theorem pathBytes_eq_ok_iff {path : Text} {b : Bytes} :
    pathBytes path = .ok b ↔
      Utf8.encodeEscaped path = .ok b ∧ 0 ∉ b ∧ b.length ≤ longestPath := by
  unfold pathBytes
  rcases Utf8.encodeEscaped path with cause | found
  · simp
  · by_cases hzero : 0 ∈ found
    · simp [hzero]
      rintro rfl
      exact fun h => absurd hzero h
    · by_cases hlong : longestPath < found.length
      · simp [hzero, hlong]
        rintro rfl -
        exact hlong
      · simp [hzero, hlong]
        rintro rfl
        exact ⟨hzero, Nat.le_of_not_lt hlong⟩

theorem list_eq_ok_iff {path : Text} :
    t.list path = .ok entries ↔ t.find path = .ok (.directory entries) := by
  unfold list
  rcases t.find path with cause | content | target | es <;> simp [bind, Except.bind]

theorem exists_pathBytes_of_find {path : Text} {node : Node} (h : t.find path = .ok node) :
    ∃ b, pathBytes path = .ok b := by
  rcases hb : pathBytes path with cause | b
  · simp [find, spot, hb, bind, Except.bind] at h
  · exact ⟨b, rfl⟩

/-- **A directory that can be listed** stands somewhere in the tree, and what follows its path is
looked up from there. -/
theorem exists_location_of_list {path : Text} (h : t.list path = .ok entries) :
    ∃ b left location, pathBytes path = .ok b ∧
      t.root.at? location = some (.directory entries) ∧
      ∀ rest, rest ≠ [] →
        t.follow mostLinks (t.start b) (namesIn b ++ rest) = t.follow left location rest := by
  have hfind := list_eq_ok_iff.mp h
  obtain ⟨b, hb⟩ := exists_pathBytes_of_find hfind
  obtain ⟨left, location, hat, happend⟩ := exists_follow_append ((find_eq_ok_iff hb).mp hfind)
  exact ⟨b, left, location, hb, hat, happend⟩

theorem WellNamed.of_list (hw : t.WellNamed) {path : Text} (h : t.list path = .ok entries) :
    (entries.map Prod.fst).Nodup ∧ Node.WellNamedEntries entries := by
  obtain ⟨-, -, location, -, hat, -⟩ := exists_location_of_list h
  exact Node.WellNamed.at? hw hat

/-- Below a root alone, the path of an entry is not the text of the root with a slash and the name
behind, but it leads to the same. -/
theorem follow_child_of_root (t : FileTree) (root : PathRoot) {name : Text} {d b n : Bytes}
    (hd : Utf8.encodeEscaped (Path.mk root []).text = .ok d)
    (hb : Utf8.encodeEscaped ((Path.mk root []).child name).text = .ok b)
    (hn : Utf8.encodeEscaped name = .ok n) (hname : ProperName n) :
    d.length ≤ 2 ∧ ∀ links, t.follow links (t.start b) (namesIn b) =
      t.follow links (t.start (d ++ 47 :: n)) (namesIn (d ++ 47 :: n)) := by
  have stay : ∀ {links location stays} rest, stays = [] ∨ stays = [46] →
      t.follow links location (stays :: rest) = t.follow links location rest := by
    intro links location stays rest h
    rw [follow, resolve_stay t links location h, follow]
  have names : ∀ front : Bytes, namesIn (front ++ 47 :: n) = namesIn front ++ [n] := fun front => by
    rw [namesIn_append, namesIn_of_not_mem hname.not_mem_slash]
  have written : ∀ {front : Text} {f : Bytes}, Utf8.encodeEscaped front = .ok f →
      Utf8.encodeEscaped (front ++ name) = .ok (f ++ n) := fun h => Utf8.encodeEscaped_append h hn
  cases root with
  | relative =>
    obtain rfl : [46] = d := Except.ok.inj (show Except.ok [46] = .ok d from hd)
    have hchild : ((Path.mk .relative []).child name).text = name := by
      simp [Path.child, Path.text, PathRoot.text, Text.join]
    rw [hchild, hn] at hb
    obtain rfl : n = b := Except.ok.inj hb
    refine ⟨by simp, fun links => ?_⟩
    have hstart : t.start n = t.start ([46] ++ 47 :: n) := by
      rcases n with _ | ⟨c, n⟩
      · exact absurd rfl hname.ne_nil
      · have hc : c ≠ 47 := fun hc => hname.not_mem_slash (hc ▸ List.mem_cons_self)
        simp [start, hc]
    rw [names, hstart, namesIn_of_not_mem hname.not_mem_slash]
    exact (stay [n] (Or.inr rfl)).symm
  | absolute =>
    obtain rfl : [47] = d := Except.ok.inj (show Except.ok [47] = .ok d from hd)
    have hchild : ((Path.mk .absolute []).child name).text = "/" ++ name := by
      simp [Path.child, Path.text, PathRoot.text, Text.join]
    rw [hchild, written (show Utf8.encodeEscaped "/" = .ok [47] by rfl)] at hb
    obtain rfl : [47] ++ n = b := Except.ok.inj hb
    refine ⟨by simp, fun links => ?_⟩
    rw [names [47], show [47] ++ n = [] ++ 47 :: n from rfl, names []]
    exact (stay _ (Or.inl rfl)).symm
  | doubled =>
    obtain rfl : [47, 47] = d := Except.ok.inj (show Except.ok [47, 47] = .ok d from hd)
    have hchild : ((Path.mk .doubled []).child name).text = "//" ++ name := by
      simp [Path.child, Path.text, PathRoot.text, Text.join]
    rw [hchild, written (show Utf8.encodeEscaped "//" = .ok [47, 47] by rfl)] at hb
    obtain rfl : [47, 47] ++ n = b := Except.ok.inj hb
    refine ⟨by simp, fun links => ?_⟩
    rw [names [47, 47], show [47, 47] ++ n = [47] ++ 47 :: n from rfl, names [47]]
    exact (stay _ (Or.inl rfl)).symm

/-- **What the path of an entry leads to.** It is the entry itself, if that is no link, and the same
is found when the path is written as the text of the directory with a slash and the name behind. -/
theorem find_child (ht : t.Sound) (hw : t.WellNamed) (hdir : dir.Named)
    (hlist : t.list dir.text = .ok entries) {e : Bytes × Node} (he : e ∈ entries) {node : Node}
    (h : t.find (dir.child (Utf8.decodeEscaped e.1)).text = .ok node) :
    t.find (dir.text ++ "/" ++ Utf8.decodeEscaped e.1) = .ok node ∧
      ((∀ target, e.2 ≠ .link target) → node = e.2) := by
  obtain ⟨d, left, location, hd, hat, hbelow⟩ := exists_location_of_list hlist
  obtain ⟨b, hb⟩ := exists_pathBytes_of_find h
  obtain ⟨hdtext, hdzero, -⟩ := pathBytes_eq_ok_iff.mp hd
  obtain ⟨hbtext, -, hblong⟩ := pathBytes_eq_ok_iff.mp hb
  have hname := (Node.WellNamedEntries.of_mem (hw.of_list hlist).2 he).1
  have hzero : 0 ∉ e.1 := by
    have hentries : Node.SoundEntries entries := Node.Sound.at? ht hat
    exact (hentries.of_mem he).1
  have hn := Utf8.encodeEscaped_decodeEscaped hzero
  -- the bytes of the path with the slash
  have hslash : Utf8.encodeEscaped (dir.text ++ [Path.slash] ++ Utf8.decodeEscaped e.1) =
      .ok (d ++ 47 :: e.1) := by
    have hfront := Utf8.encodeEscaped_append hdtext
      (show Utf8.encodeEscaped [Path.slash] = .ok [47] by rfl)
    simpa using Utf8.encodeEscaped_append hfront hn
  -- with the slash, the path leads to where the name of the entry leads from the directory
  have hentry : t.follow mostLinks (t.start (d ++ 47 :: e.1)) (namesIn (d ++ 47 :: e.1)) =
      t.follow left location [e.1] := by
    have hd_ne : d ≠ [] := by
      rintro rfl
      have := Utf8.length_le_of_encodeEscaped hdtext
      exact hdir.text_ne_nil (List.length_eq_zero_iff.mp (Nat.le_zero.mp this))
    have hstart : t.start (d ++ 47 :: e.1) = t.start d := by
      obtain ⟨c, d', rfl⟩ := List.exists_cons_of_ne_nil hd_ne
      rfl
    rw [hstart, namesIn_append, namesIn_of_not_mem hname.not_mem_slash,
      hbelow [e.1] (List.cons_ne_nil _ _)]
  -- the path of the entry leads to the same, and the one with the slash is not too long either
  have hsame : t.follow mostLinks (t.start b) (namesIn b) =
      t.follow mostLinks (t.start (d ++ 47 :: e.1)) (namesIn (d ++ 47 :: e.1)) ∧
      (e.1.length ≤ longestName → (d ++ 47 :: e.1).length ≤ longestPath) := by
    by_cases hroot : dir.names = []
    · obtain ⟨root, names⟩ := dir
      subst hroot
      obtain ⟨hlen, hfollow⟩ := follow_child_of_root t root hdtext hbtext hn hname
      refine ⟨hfollow mostLinks, fun hle => ?_⟩
      simp only [List.length_append, List.length_cons, longestName, longestPath] at hle ⊢
      omega
    · rw [Path.text_child_of_names hroot, hslash] at hbtext
      obtain rfl : d ++ 47 :: e.1 = b := Except.ok.inj hbtext
      exact ⟨rfl, fun _ => hblong⟩
  have hfound := (find_eq_ok_iff hb).mp h
  rw [hsame.1] at hfound
  obtain ⟨hshort, hlink⟩ := follow_entry hw hat he (hentry ▸ hfound)
  have hpath : pathBytes (dir.text ++ [Path.slash] ++ Utf8.decodeEscaped e.1) =
      .ok (d ++ 47 :: e.1) :=
    pathBytes_eq_ok_iff.mpr ⟨hslash, by simp [hdzero, hzero], hsame.2 hshort⟩
  exact ⟨(find_eq_ok_iff hpath).mpr hfound, hlink⟩

end FileTree

end RainMeta
