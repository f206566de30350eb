import Mathlib.Data.List.Forall2

/-!
# Results that go by a list

What is made of a tree often fails only where one of its leaves does, and then with the error of
the first of them. So the leaves are written down as a list, in the order in which they are come to,
and a result is judged by going through that list alone (`RainMeta.GoesBy`): it is there if
something can be made of each member of the list, and else it is the first error. Results that go by
lists are put together along with the lists (`RainMeta.GoesBy.mapM`), and the induction over
the tree has nothing else to do.
-/

namespace RainMeta

/-- **A result that goes by a list**: it is as said if something can be made of every member, or it
is the error of the first of which nothing can be made. -/
inductive GoesBy {ε σ τ α : Type} (make : σ → Except ε τ) (l : List σ) (P : α → Prop) :
    Except ε α → Prop
  | ok {made : List τ} {a : α} (hmade : l.mapM make = .ok made) (h : P a) : GoesBy make l P (.ok a)
  | error {e : ε} (hmade : l.mapM make = .error e) : GoesBy make l P (.error e)

namespace GoesBy

variable {ε σ τ α β γ : Type} {make : σ → Except ε τ} {l : List σ} {P : α → Prop}
  {x : Except ε α}

theorem of_eq_ok {a : α} (h : GoesBy make l P x) (hx : x = .ok a) : P a := by
  cases h with
  | ok _ h =>
    cases hx
    exact h
  | error _ => cases hx

theorem error_iff (h : GoesBy make l P x) (e : ε) : x = .error e ↔ l.mapM make = .error e := by
  cases h with
  | ok hmade _ =>
    rw [hmade]
    constructor <;> rintro ⟨⟩
  | error hmade => rw [hmade, Except.error.injEq, Except.error.injEq]

/-- If something can be made of every member, the result is there. -/
theorem exists_ok (h : GoesBy make l P x) (hmake : ∀ s ∈ l, ∃ t, make s = .ok t) :
    ∃ a, x = .ok a ∧ P a := by
  have hall : ∃ made, l.mapM make = .ok made := by
    clear h
    induction l with
    | nil => exact ⟨[], rfl⟩
    | cons s l ih =>
      rw [List.forall_mem_cons] at hmake
      obtain ⟨⟨t, ht⟩, hrest⟩ := hmake
      obtain ⟨ts, hts⟩ := ih hrest
      exact ⟨t :: ts, by rw [List.mapM_cons, ht, hts]; rfl⟩
  obtain ⟨made, hmade⟩ := hall
  cases h with
  | ok _ h => exact ⟨_, rfl, h⟩
  | error he => cases hmade.symm.trans he

/-- What is made of a member goes by the list of this one. -/
theorem single (make : σ → Except ε τ) (s : σ) :
    GoesBy make [s] (fun t => make s = .ok t) (make s) := by
  have hone : [s].mapM make = (make s).map fun t => [t] := by
    rw [List.mapM_cons, List.mapM_nil]
    cases make s <;> rfl
  rcases hs : make s with e | t
  · exact .error (by rw [hone, hs]; rfl)
  · exact .ok (by rw [hone, hs]; rfl) rfl

theorem map {Q : β → Prop} (h : GoesBy make l P x) {f : α → β} (hf : ∀ a, P a → Q (f a)) :
    GoesBy make l Q (x.map f) := by
  cases h with
  | ok hmade h => exact .ok hmade (hf _ h)
  | error hmade => exact .error hmade

theorem imp {Q : α → Prop} (h : GoesBy make l P x) (hPQ : ∀ a, P a → Q a) :
    GoesBy make l Q x := by
  cases h with
  | ok hmade h => exact .ok hmade (hPQ _ h)
  | error hmade => exact .error hmade

/-- **Results of a list**, from left to right, go by the lists of its members joined in that
order. -/
theorem mapM {as : List α} {bs : List β} {R : α → γ → Prop} {leaves : β → List σ}
    {f : β → Except ε γ}
    (h : List.Forall₂ (fun a b => GoesBy make (leaves b) (R a) (f b)) as bs) :
    GoesBy make (bs.flatMap leaves) (List.Forall₂ R as) (bs.mapM f) := by
  induction h with
  | nil => exact .ok rfl .nil
  | @cons a b as bs hfirst _ hrest =>
    have hleaves : (leaves b ++ bs.flatMap leaves).mapM make = do
        return (← (leaves b).mapM make) ++ (← (bs.flatMap leaves).mapM make) := List.mapM_append
    rw [List.flatMap_cons, List.mapM_cons]
    generalize f b = first at hfirst ⊢
    generalize bs.mapM f = rest at hrest ⊢
    cases hfirst with
    | error he => exact .error (by rw [hleaves, he]; rfl)
    | ok hok hc =>
      cases hrest with
      | error he => exact .error (by rw [hleaves, hok, he]; rfl)
      | ok hoks hcs => exact .ok (by rw [hleaves, hok, hoks]; rfl) (.cons hc hcs)

end GoesBy

end RainMeta
