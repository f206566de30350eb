import Mathlib.Data.List.TakeWhile
import RainMeta.Path

/-!
# Seeing paths from other paths

`RainMeta.Path.join` puts one path below another one, unless it has a root of its own. Under it
paths are a monoid: the order in which several are put together does not matter
(`RainMeta.Path.join_assoc`), and the path that is where one is changes nothing. A path with a root
of its own absorbs whatever it is seen from, and so does every path seen from it
(`RainMeta.Path.join_join_of_isAbsolute`).

That this is how the *texts* of paths are put together takes an argument about slashes, as
reading a path drops empty names and single dots but counts the slashes in front.
`RainMeta.Path.joinText` puts two texts together without reading them: it looks only for a slash at
the end of the first and at the start of the second. The path that it spells is the second path
seen from the first (`RainMeta.Path.ofText_joinText`).
-/

namespace RainMeta

/-! ### Pieces of a text -/

namespace Text

/-- **The pieces between marks.** A mark that is put between two texts only separates their
pieces. -/
theorem splitOn_append_cons (mark : CodePoint) (s t : Text) :
    splitOn mark (s ++ mark :: t) = splitOn mark s ++ splitOn mark t := by
  have hne : ∀ u : Text, splitOn mark u ≠ [] := by
    intro u
    cases u with
    | nil => simp [splitOn]
    | cons c u =>
      simp only [splitOn, List.foldr_cons]
      split
      · exact List.cons_ne_nil _ _
      · split <;> exact List.cons_ne_nil _ _
  induction s with
  | nil => simp [splitOn]
  | cons c s ih =>
    obtain ⟨piece, pieces, hs⟩ := List.exists_cons_of_ne_nil (hne s)
    simp only [splitOn, List.cons_append, List.foldr_cons] at ih hs ⊢
    rw [ih, hs]
    by_cases hc : c = mark <;> simp [hc]

end Text

namespace Path

variable {a b p : Path} {s t : Text}

/-! ### The monoid of paths -/

theorem join_of_isAbsolute (h : p.isAbsolute = true) : a.join p = p := by
  simp [join, h]

theorem join_of_relative (h : p.isAbsolute = false) :
    a.join p = { a with names := a.names ++ p.names } := by
  simp [join, h]

/-- A path seen from another one has a root if one of the two has. -/
@[simp]
theorem isAbsolute_join (a p : Path) : (a.join p).isAbsolute = (a.isAbsolute || p.isAbsolute) := by
  cases h : p.isAbsolute with
  | true => simp [join_of_isAbsolute h, h]
  | false => simp [join_of_relative h, isAbsolute]

/-- The path that is where one is sees every path as it is. -/
@[simp]
theorem here_join (p : Path) : here.join p = p := by
  obtain ⟨root, names⟩ := p
  cases root <;> simp [join, here, isAbsolute]

@[simp]
theorem join_here (p : Path) : p.join here = p := by
  simp [join, here, isAbsolute]

/-- **What is seen from a path that is itself seen from another one.** -/
theorem join_assoc (a b p : Path) : (a.join b).join p = a.join (b.join p) := by
  cases hp : p.isAbsolute with
  | true => rw [join_of_isAbsolute hp, join_of_isAbsolute hp, join_of_isAbsolute hp]
  | false =>
    rw [join_of_relative hp, join_of_relative hp]
    cases hb : b.isAbsolute with
    | true =>
      -- a root is kept by what is put behind it
      rw [join_of_isAbsolute hb, join_of_isAbsolute (by simpa [isAbsolute] using hb)]
    | false =>
      rw [join_of_relative hb, join_of_relative (by simpa [isAbsolute] using hb)]
      simp [List.append_assoc]

/-- **A root absorbs what it is seen from.** -/
theorem join_join_of_isAbsolute (b : Path) (h : a.isAbsolute = true) (p : Path) :
    b.join (a.join p) = a.join p :=
  join_of_isAbsolute (by simp [h])

/-! ### The texts of paths -/

/-- The text `t` of a path seen from the path with the text `s`: alone if it starts with a slash,
else behind `s`, with a slash between them unless there is one at the end of `s` or `s` is
empty. -/
def joinText (s t : Text) : Text :=
  if t.head? = some slash then t
  else if s = [] ∨ s.getLast? = some slash then s ++ t
  else s ++ slash :: t

theorem takeWhile_slash_eq_nil (h : t.head? ≠ some slash) :
    t.takeWhile (· = slash) = [] := by
  cases t with
  | nil => rfl
  | cons c t => simpa using h

theorem isAbsolute_ofText (t : Text) : (ofText t).isAbsolute = true ↔ t.head? = some slash := by
  by_cases h : t.head? = some slash
  · obtain ⟨rest, rfl⟩ := List.head?_eq_some_iff.mp h
    have hne : rootOf (slash :: rest) ≠ .relative := by
      have hlength : ((slash :: rest).takeWhile (· = slash)).length =
          (rest.takeWhile (· = slash)).length + 1 := by
        rw [List.takeWhile_cons_of_pos (by simp), List.length_cons]
      rw [rootOf, hlength]
      split <;> simp_all
    simp [isAbsolute, ofText, hne]
  · simp [isAbsolute, ofText, rootOf, takeWhile_slash_eq_nil h, h]

/-- What stands behind a text does not change its start, unless it goes on with slashes. -/
theorem rootOf_append (h : t.head? ≠ some slash) : rootOf (s ++ t) = rootOf s := by
  have htake : (s ++ t).takeWhile (· = slash) = s.takeWhile (· = slash) := by
    rw [List.takeWhile_append, takeWhile_slash_eq_nil h, List.append_nil]
    split
    next hall => rw [(List.takeWhile_prefix _).eq_of_length hall]
    next => rfl
  rw [rootOf, htake, rootOf]

theorem rootOf_append_of_getLast? (hs : s ≠ []) (h : s.getLast? ≠ some slash) :
    rootOf (s ++ t) = rootOf s := by
  have hlength : (s.takeWhile (· = slash)).length ≠ s.length := by
    intro hall
    have heq := (List.takeWhile_prefix _).eq_of_length hall
    have hlast : s.getLast hs ∈ s.takeWhile (· = slash) := heq.symm ▸ List.getLast_mem hs
    rw [List.getLast?_eq_some_getLast hs] at h
    exact h (congrArg some (by simpa using List.mem_takeWhile_imp hlast))
  have htake : (s ++ t).takeWhile (· = slash) = s.takeWhile (· = slash) := by
    rw [List.takeWhile_append, if_neg hlength]
  rw [rootOf, htake, rootOf]

/-- **A slash between two texts** separates their names. -/
theorem names_ofText_append_slash (s t : Text) :
    (ofText (s ++ slash :: t)).names = (ofText s).names ++ (ofText t).names := by
  simp only [ofText, Text.splitOn_append_cons, List.filter_append]

theorem names_ofText_append (h : s = [] ∨ s.getLast? = some slash) (t : Text) :
    (ofText (s ++ t)).names = (ofText s).names ++ (ofText t).names := by
  rcases h with rfl | h
  · rfl
  · obtain ⟨front, rfl⟩ := List.getLast?_eq_some_iff.mp h
    have hnil : (ofText []).names = [] := by rfl
    rw [List.append_assoc, List.singleton_append, names_ofText_append_slash,
      names_ofText_append_slash, hnil, List.append_nil]

/-- **Texts of paths are put together as the paths are**, whatever is spelled: empty texts,
dots, doubled slashes in front and between, slashes at the end. -/
theorem ofText_joinText (s t : Text) : ofText (joinText s t) = (ofText s).join (ofText t) := by
  rw [joinText]
  split
  case isTrue h => rw [join_of_isAbsolute ((isAbsolute_ofText t).mpr h)]
  case isFalse h =>
  rw [join_of_relative (by simpa using mt (isAbsolute_ofText t).mp h)]
  split
  case isTrue hend =>
    rw [← names_ofText_append hend]
    exact congrArg (Path.mk · _) (rootOf_append h)
  case isFalse hend =>
    rw [not_or] at hend
    rw [← names_ofText_append_slash]
    exact congrArg (Path.mk · _) (rootOf_append_of_getLast? hend.1 hend.2)

end Path

end RainMeta
