import Mathlib.Data.List.TakeWhile
import RainMeta.Config.Expansion

/-!
# Reading a text with references

A text is read from left to right. Where a reference starts it is read up to its closing brace,
and reading goes on behind it; where none starts, one code point is read as it is. Here this is
said by a relation (`RainMeta.Segment.Reading`) that knows references only by how they are
spelled: `${`, a body that is not empty and has no closing brace, and `}`. Every text has exactly
one reading, and it is the one that the text is split into (`RainMeta.Segment.reading_iff`).

So in `$${A}` a dollar sign stands before a reference, in `${${A}}` there is one reference with
the body `${A` and a brace behind it, and `${}` and what is not closed are no references.

The body of a reference is cut at the first mark `:-` (`RainMeta.Text.cutAt_eq_some_iff`). What
stands before it is the name of a variable, and what stands behind it the default
(`RainMeta.Expansion.Names`).
-/

namespace RainMeta

theorem CodePoint.eq_ofChar {c : CodePoint} {d : Char} (h : c.val = d.toNat) : c = .ofChar d := by
  obtain ⟨c, hc⟩ := c
  cases h
  rfl

/-! ### Cutting at a mark -/

namespace Text

theorem cutAt_eq_none_iff {mark t : Text} : cutAt mark t = none ↔ ¬mark <:+: t := by
  induction t with
  | nil => simp [cutAt]
  | cons c t ih =>
    rw [cutAt, List.infix_cons_iff]
    by_cases h : mark <+: c :: t
    · simp [h]
    · simp [h, ih]

/-- **A text is cut where the mark stands first.** -/
theorem cutAt_eq_some_iff {mark t before after : Text} :
    cutAt mark t = some (before, after) ↔ t = before ++ mark ++ after ∧
      ∀ b a, t = b ++ mark ++ a → before.length ≤ b.length := by
  induction t generalizing before with
  | nil =>
    by_cases h : mark = []
    · simp +contextual [cutAt, h, eq_comm]
    · simp [cutAt, h]
  | cons c t ih =>
    rw [cutAt]
    by_cases h : mark <+: c :: t
    · -- no place is before the start
      obtain ⟨rest, hrest⟩ := h
      rw [← hrest]
      simp only [List.isPrefixOf_iff_prefix, List.prefix_append, if_true, List.drop_left,
        Option.some.injEq, Prod.mk.injEq]
      constructor
      · rintro ⟨rfl, rfl⟩
        simp
      · rintro ⟨heq, hfirst⟩
        obtain rfl : before = [] := List.length_eq_zero_iff.mp
          (Nat.le_zero.mp (hfirst [] rest (by simp)))
        exact ⟨rfl, by simpa using heq⟩
    · rw [if_neg (by simpa using h), Option.map_eq_some_iff]
      constructor
      · rintro ⟨⟨b', a'⟩, hcut, heq⟩
        obtain ⟨rfl, rfl⟩ := Prod.mk.inj heq
        obtain ⟨ht, hfirst⟩ := ih.mp hcut
        refine ⟨by rw [ht]; rfl, fun b a hb => ?_⟩
        rcases b with _ | ⟨d, b⟩
        · exact absurd ⟨a, hb.symm⟩ h
        · simp only [List.cons_append, List.cons.injEq] at hb
          exact Nat.succ_le_succ (hfirst b a hb.2)
      · rintro ⟨heq, hfirst⟩
        rcases before with _ | ⟨d, before⟩
        · exact absurd ⟨after, heq.symm⟩ h
        · simp only [List.cons_append, List.cons.injEq] at heq
          obtain ⟨rfl, ht⟩ := heq
          refine ⟨(before, after), ih.mpr ⟨ht, fun b a hb => ?_⟩, rfl⟩
          exact Nat.le_of_succ_le_succ (hfirst (c :: b) a (by rw [hb]; rfl))

end Text

namespace Segment

/-! ### How references are spelled -/

/-- The spelling of the reference with a body. -/
def spelled (body : Text) : Text :=
  "$\x7b" ++ body ++ "\x7d"

/-- **The body of a reference** is not empty and has no closing brace. -/
def IsBody (body : Text) : Prop :=
  body ≠ [] ∧ ∀ c ∈ body, c.val ≠ 125

/-- **A reference starts** a text. -/
def Starts (t : Text) : Prop :=
  ∃ body rest, IsBody body ∧ t = spelled body ++ rest

theorem spelled_append (body rest : Text) :
    spelled body ++ rest =
      .ofChar '$' :: .ofChar '{' :: (body ++ .ofChar '}' :: rest) := by
  simp [spelled, Text.ofString]

theorem referenceAt?_spelled_append {body : Text} (h : IsBody body) (rest : Text) :
    referenceAt? (spelled body ++ rest) = some (body, rest) := by
  have hpos : ∀ c ∈ body, decide (c.val ≠ 125) = true := fun c hc => decide_eq_true (h.2 c hc)
  have htake : (body ++ .ofChar '}' :: rest).takeWhile (fun c => c.val ≠ 125) = body :=
    (List.takeWhile_append_of_pos hpos).trans (List.append_nil body)
  have hdrop : (body ++ .ofChar '}' :: rest).dropWhile (fun c => c.val ≠ 125) =
      .ofChar '}' :: rest := List.dropWhile_append_of_pos hpos
  rw [spelled_append, referenceAt?, if_pos (by decide), htake, hdrop]
  simp [h.1]

/-- What is read up to a closing brace, with the brace and what follows it. -/
theorem eq_takeWhile_append {inside after : Text} {closing : CodePoint}
    (h : inside.dropWhile (fun c => c.val ≠ 125) = closing :: after) :
    inside = inside.takeWhile (fun c => c.val ≠ 125) ++ .ofChar '}' :: after := by
  have hne : inside.dropWhile (fun c => c.val ≠ 125) ≠ [] := by
    rw [h]
    exact List.cons_ne_nil _ _
  have hnot := List.head_dropWhile_not _ hne
  simp only [h, List.head_cons] at hnot
  rw [← CodePoint.eq_ofChar (show closing.val = '}'.toNat by simpa using hnot), ← h,
    List.takeWhile_append_dropWhile]

/-- **Where a reference is found, one starts.** -/
theorem referenceAt?_eq_some_iff {t body rest : Text} :
    referenceAt? t = some (body, rest) ↔ IsBody body ∧ t = spelled body ++ rest := by
  constructor
  · intro h
    unfold referenceAt? at h
    split at h
    case h_2 => cases h
    next dollar brace inside =>
    split at h
    case isFalse => cases h
    next hopen =>
    dsimp only at h
    split at h
    case h_2 => cases h
    next closing after hclose =>
    split at h
    case isTrue => cases h
    next hbody =>
    cases h
    rw [Bool.and_eq_true, decide_eq_true_iff, decide_eq_true_iff] at hopen
    refine ⟨⟨by simpa using hbody, fun c hc => by simpa using List.mem_takeWhile_imp hc⟩, ?_⟩
    rw [spelled_append, ← CodePoint.eq_ofChar hopen.1, ← CodePoint.eq_ofChar hopen.2,
      ← eq_takeWhile_append hclose]
  · rintro ⟨hbody, rfl⟩
    exact referenceAt?_spelled_append hbody rest

theorem referenceAt?_eq_none_iff {t : Text} : referenceAt? t = none ↔ ¬Starts t := by
  rw [Option.eq_none_iff_forall_ne_some, Starts]
  simp only [ne_eq, Prod.forall, referenceAt?_eq_some_iff, not_exists]

/-! ### Readings -/

/-- **A text is read** as segments, from left to right. -/
inductive Reading : Text → List Segment → Prop
  | nil : Reading [] []
  /-- What starts a reference is read as one. -/
  | reference {body rest : Text} {segments : List Segment} (hbody : IsBody body)
      (hrest : Reading rest segments) :
      Reading (spelled body ++ rest) (.reference body :: segments)
  /-- Anything else is read as it is. -/
  | plain {c : CodePoint} {rest : Text} {segments : List Segment} (h : ¬Starts (c :: rest))
      (hrest : Reading rest segments) : Reading (c :: rest) (.plain c :: segments)

theorem split_spelled_append {body : Text} (h : IsBody body) (rest : Text) :
    split (spelled body ++ rest) = .reference body :: split rest := by
  have hat := referenceAt?_spelled_append h rest
  rw [spelled_append] at hat ⊢
  rw [split]
  split
  · next hsome =>
    rw [hat] at hsome
    cases hsome
    rfl
  · next hnone =>
    rw [hat] at hnone
    cases hnone

theorem split_cons {c : CodePoint} {rest : Text} (h : ¬Starts (c :: rest)) :
    split (c :: rest) = .plain c :: split rest := by
  rw [split]
  split
  · next hsome =>
    rw [referenceAt?_eq_none_iff.mpr h] at hsome
    cases hsome
  · rfl

/-- **A text has one reading**: the one that it is split into. -/
theorem reading_iff {t : Text} {segments : List Segment} :
    Reading t segments ↔ segments = split t := by
  constructor
  · intro h
    induction h with
    | nil => rw [split]
    | reference hbody _ ih => rw [split_spelled_append hbody, ih]
    | plain h _ ih => rw [split_cons h, ih]
  · rintro rfl
    induction t using split.induct with
    | case1 =>
      rw [split]
      exact .nil
    | case2 c rest body after hat ih =>
      obtain ⟨hbody, heq⟩ := referenceAt?_eq_some_iff.mp hat
      rw [heq, split_spelled_append hbody]
      exact .reference hbody ih
    | case3 c rest hat ih =>
      have hstarts := referenceAt?_eq_none_iff.mp hat
      rw [split_cons hstarts]
      exact .plain hstarts ih

/-- The code points of a body stand in the text. -/
theorem Reading.mem_of_mem_body {t : Text} {segments : List Segment} (h : Reading t segments)
    {body : Text} (hbody : .reference body ∈ segments) {c : CodePoint} (hc : c ∈ body) : c ∈ t := by
  induction h with
  | nil => cases hbody
  | reference _ _ ih =>
    rw [spelled_append]
    rcases List.mem_cons.mp hbody with heq | hmem
    · cases heq
      simp [hc]
    · simp [ih hmem]
  | plain _ _ ih =>
    rcases List.mem_cons.mp hbody with heq | hmem
    · cases heq
    · exact List.mem_cons_of_mem _ (ih hmem)

/-- The body of a reference. -/
def body? : Segment → Option Text
  | .plain _ => none
  | .reference body => some body

/-- The bodies of the references in a text, from left to right. -/
def bodies (t : Text) : List Text :=
  (split t).filterMap body?

theorem mem_of_mem_bodies {t body : Text} (h : body ∈ bodies t) {c : CodePoint} (hc : c ∈ body) :
    c ∈ t := by
  obtain ⟨segment, hmem, hsome⟩ := List.mem_filterMap.mp h
  cases segment with
  | plain d => cases hsome
  | reference b =>
    cases hsome
    exact (reading_iff.mpr rfl).mem_of_mem_body hmem hc

end Segment

namespace Expansion

/-! ### Names and defaults -/

/-- **The body of a reference names a variable**, and gives a default for it if a mark stands in
it: what stands behind the first one. -/
def Names (body name : Text) : Option Text → Prop
  | none => name = body ∧ ¬defaultMark <:+: body
  | some default => body = name ++ defaultMark ++ default ∧
      ∀ n d, body = n ++ defaultMark ++ d → name.length ≤ n.length

theorem names_none_iff {body name : Text} :
    Names body name none ↔ name = body ∧ Text.cutAt defaultMark body = none := by
  rw [Names, Text.cutAt_eq_none_iff]

theorem names_some_iff {body name default : Text} :
    Names body name (some default) ↔ Text.cutAt defaultMark body = some (name, default) := by
  rw [Names, Text.cutAt_eq_some_iff]

/-- The name of the variable in the body of a reference. -/
def nameIn (body : Text) : Text :=
  match Text.cutAt defaultMark body with
  | some (name, _) => name
  | none => body

/-- **Every reference names one variable.** -/
theorem exists_names_iff {body name : Text} :
    (∃ default?, Names body name default?) ↔ name = nameIn body := by
  rw [Option.exists, names_none_iff, nameIn]
  simp only [names_some_iff]
  rcases Text.cutAt defaultMark body with _ | ⟨n, d⟩
  · simp
  · simp [eq_comm]

end Expansion

end RainMeta
