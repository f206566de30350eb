import Mathlib.Data.List.TakeWhile
import RainMeta.Text.Blank

/-!
# Blanks around a text

A text is stripped by dropping the blanks at its start and at its end. What is left stands between
blanks in the text (`RainMeta.Text.exists_strip`), and if nothing of it is blank then there was no
other choice (`RainMeta.Text.strip_surrounded`).

Line ends are blanks, and so is what they are unified to. Whatever is done to the line ends around
a text without any therefore leaves this text between blanks
(`RainMeta.Text.exists_unifyLineEnds_surrounded`).
-/

namespace RainMeta

/-- **A text of blanks only.** -/
def Text.Blank (t : Text) : Prop :=
  ∀ c ∈ t, c.isBlank = true

namespace Text

theorem blank_nil : Blank [] := by
  intro c hc
  cases hc

theorem blank_append {s t : Text} (hs : Blank s) (ht : Blank t) : Blank (s ++ t) := by
  intro c hc
  rcases List.mem_append.mp hc with hc | hc
  · exact hs c hc
  · exact ht c hc

/-! ### Stripping -/

/-- **What is left of a text** stands between the blanks that were dropped. -/
theorem exists_strip (t : Text) :
    ∃ before after, Blank before ∧ Blank after ∧ t = before ++ t.strip ++ after := by
  let front := t.takeWhile CodePoint.isBlank
  let rest := t.dropWhile CodePoint.isBlank
  have ht : t = front ++ rest := List.takeWhile_append_dropWhile.symm
  let back := rest.reverse.takeWhile CodePoint.isBlank
  have hrest : rest = t.strip ++ back.reverse := by
    have hparts : back ++ rest.reverse.dropWhile CodePoint.isBlank = rest.reverse :=
      List.takeWhile_append_dropWhile
    rw [← List.reverse_reverse rest, ← hparts, List.reverse_append]
    rfl
  refine ⟨front, back.reverse, fun c hc => List.mem_takeWhile_imp hc, fun c hc => ?_, ?_⟩
  · exact List.mem_takeWhile_imp (List.mem_reverse.mp hc)
  · rw [List.append_assoc, ← hrest, ← ht]

theorem dropWhile_of_blank {s : Text} (hs : Blank s) (t : Text) :
    (s ++ t).dropWhile CodePoint.isBlank = t.dropWhile CodePoint.isBlank :=
  List.dropWhile_append_of_pos hs

theorem dropWhile_of_not_blank {t : Text} (h : ∀ c ∈ t, c.isBlank = false) (ht : t ≠ [])
    (rest : Text) : (t ++ rest).dropWhile CodePoint.isBlank = t ++ rest := by
  obtain ⟨c, t, rfl⟩ := List.exists_cons_of_ne_nil ht
  exact List.dropWhile_cons_of_neg (by simp [h c])

/-- **A text without blanks between blanks** is what is left of the whole. -/
theorem strip_surrounded {before t after : Text} (hbefore : Blank before) (hafter : Blank after)
    (h : ∀ c ∈ t, c.isBlank = false) : (before ++ t ++ after).strip = t := by
  rw [strip, trimBy, List.append_assoc, dropWhile_of_blank hbefore]
  by_cases ht : t = []
  · subst ht
    have hnil : after.dropWhile CodePoint.isBlank = [] := List.dropWhile_eq_nil_iff.mpr hafter
    rw [List.nil_append, hnil]
    rfl
  · rw [dropWhile_of_not_blank h ht, List.reverse_append,
      dropWhile_of_blank fun c hc => hafter c (List.mem_reverse.mp hc)]
    have hback : ∀ c ∈ t.reverse, c.isBlank = false := fun c hc => h c (List.mem_reverse.mp hc)
    have hdrop := dropWhile_of_not_blank hback (by simpa using ht) []
    rw [List.append_nil] at hdrop
    rw [hdrop, List.reverse_reverse]

/-! ### Line ends -/

/-- What is written for a code point when `rest` follows it: nothing for a carriage return before
a line feed, a line feed for any other one, and all else as it is. -/
def lineEnd (c : CodePoint) (rest : Text) : Text :=
  if c.val = 13 then
    if rest.head?.map CodePoint.val = some 10 then [] else [.ofNat 10]
  else [c]

theorem unifyLineEnds_go_of_ne {c : CodePoint} (hc : c.val ≠ 13) (out t : Text) :
    unifyLineEnds.go out (c :: t) = unifyLineEnds.go (c :: out) t := by
  cases t <;> simp [unifyLineEnds.go, hc]

theorem unifyLineEnds_go (out t : Text) :
    unifyLineEnds.go out t = out.reverse ++ unifyLineEnds.go [] t := by
  induction t generalizing out with
  | nil => simp [unifyLineEnds.go]
  | cons c t ih =>
    by_cases hc : c.val = 13
    · cases t with
      | nil => simp [unifyLineEnds.go, hc]
      | cons d t =>
        by_cases hd : d.val = 10
        · rw [unifyLineEnds.go, unifyLineEnds.go, if_pos hc, if_pos hc, if_pos hd, if_pos hd]
          exact ih out
        · rw [unifyLineEnds.go, unifyLineEnds.go, if_pos hc, if_pos hc, if_neg hd, if_neg hd,
            ih (.ofNat 10 :: out), ih [.ofNat 10], List.reverse_cons, List.append_assoc]
          rfl
    · rw [unifyLineEnds_go_of_ne hc, unifyLineEnds_go_of_ne hc, ih (c :: out), ih [c],
        List.reverse_cons, List.append_assoc]
      rfl

/-- **Line ends are unified one code point at a time.** -/
theorem unifyLineEnds_cons (c : CodePoint) (t : Text) :
    unifyLineEnds (c :: t) = lineEnd c t ++ unifyLineEnds t := by
  rw [unifyLineEnds, unifyLineEnds]
  by_cases hc : c.val = 13
  · cases t with
    | nil => simp [unifyLineEnds.go, lineEnd, hc]
    | cons d t =>
      by_cases hd : d.val = 10
      · simp [unifyLineEnds.go, lineEnd, hc, hd]
      · rw [unifyLineEnds.go, if_pos hc, if_neg hd, unifyLineEnds_go]
        simp [lineEnd, hc, hd]
  · rw [unifyLineEnds_go_of_ne hc, unifyLineEnds_go]
    simp [lineEnd, hc]

theorem blank_lineEnd {c : CodePoint} (hc : c.isBlank = true) (rest : Text) :
    Blank (lineEnd c rest) := by
  intro d hd
  unfold lineEnd at hd
  split at hd
  · split at hd
    · cases hd
    · rw [List.mem_singleton.mp hd]
      rfl
  · rw [List.mem_singleton.mp hd]
    exact hc

/-- Blanks in front of a text are unified to blanks. -/
theorem exists_unifyLineEnds_blank {before : Text} (h : Blank before) (t : Text) :
    ∃ before', Blank before' ∧ unifyLineEnds (before ++ t) = before' ++ unifyLineEnds t := by
  induction before with
  | nil => exact ⟨[], blank_nil, rfl⟩
  | cons c before ih =>
    obtain ⟨hc, hrest⟩ := List.forall_mem_cons.mp h
    obtain ⟨before', hblank, heq⟩ := ih hrest
    refine ⟨lineEnd c (before ++ t) ++ before', blank_append (blank_lineEnd hc _) hblank, ?_⟩
    rw [List.cons_append, unifyLineEnds_cons, heq, List.append_assoc]

/-- A text without carriage returns stays. -/
theorem unifyLineEnds_append_of_ne {t : Text} (h : ∀ c ∈ t, c.val ≠ 13) (rest : Text) :
    unifyLineEnds (t ++ rest) = t ++ unifyLineEnds rest := by
  induction t with
  | nil => rfl
  | cons c t ih =>
    obtain ⟨hc, hrest⟩ := List.forall_mem_cons.mp h
    rw [List.cons_append, unifyLineEnds_cons, ih hrest, lineEnd, if_neg hc]
    rfl

/-- **A text without carriage returns between blanks** is still between blanks when the line ends
are unified. -/
theorem exists_unifyLineEnds_surrounded {before t after : Text} (hbefore : Blank before)
    (hafter : Blank after) (h : ∀ c ∈ t, c.val ≠ 13) :
    ∃ before' after', Blank before' ∧ Blank after' ∧
      unifyLineEnds (before ++ t ++ after) = before' ++ t ++ after' := by
  obtain ⟨before', hbefore', heq⟩ := exists_unifyLineEnds_blank hbefore (t ++ after)
  obtain ⟨after', hafter', heq'⟩ := exists_unifyLineEnds_blank hafter []
  rw [List.append_nil] at heq'
  refine ⟨before', after' ++ unifyLineEnds [], hbefore', blank_append hafter' blank_nil, ?_⟩
  rw [List.append_assoc, heq, unifyLineEnds_append_of_ne h, heq', List.append_assoc]

end Text

end RainMeta
