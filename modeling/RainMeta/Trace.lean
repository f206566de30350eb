/-!
# Traces

What a system does, step after step, with the event of every step. The steps are any relation
between a state, an event and the state after it.

* `Trace`: the states that events lead to, one after another.
* `Trace.invariant`: what every step preserves holds at the end if it held at the start.
* `Trace.exists_first`: what led to an event and what came of it, for its first time.
-/

namespace RainMeta

/-- Steps one after another: the state at the start, the events, and a state at the end. -/
inductive Trace {State Event : Type} (step : State → Event → State → Prop) (s : State) :
    List Event → State → Prop
  /-- Nothing has happened. -/
  | nil : Trace step s [] s
  /-- After all else, one more event. -/
  | concat {s' s'' : State} {es : List Event} {e : Event} (h : Trace step s es s')
      (hs : step s' e s'') : Trace step s (es ++ [e]) s''

namespace Trace

variable {State Event : Type} {step : State → Event → State → Prop} {s s' s'' : State}
  {es es' : List Event}

theorem invariant {P : State → Prop} (hstep : ∀ {s e s'}, step s e s' → P s → P s')
    (h : Trace step s es s') (hs : P s) : P s' := by
  induction h with
  | nil => exact hs
  | concat _ hs' ih => exact hstep hs' ih

theorem append (h : Trace step s es s') (h' : Trace step s' es' s'') :
    Trace step s (es ++ es') s'' := by
  induction h' with
  | nil => simpa using h
  | concat _ hs ih =>
    rw [← List.append_assoc]
    exact .concat ih hs

theorem cons {e : Event} (hs : step s e s') (h : Trace step s' es s'') :
    Trace step s (e :: es) s'' :=
  append (.concat .nil hs) h

/-- A trace can be split where an event happens for the first time. -/
theorem exists_first {e : Event} (h : Trace step s es s') (he : e ∈ es) :
    ∃ us vs s₁ s₂, es = us ++ e :: vs ∧ e ∉ us ∧
      Trace step s us s₁ ∧ step s₁ e s₂ ∧ Trace step s₂ vs s' := by
  induction h with
  | nil => cases he
  | @concat s₃ s₄ es e' h hs ih =>
    by_cases hold : e ∈ es
    · obtain ⟨us, vs, s₁, s₂, rfl, hfirst, hus, hstep, hvs⟩ := ih hold
      exact ⟨us, vs ++ [e'], s₁, s₂, by simp, hfirst, hus, hstep, .concat hvs hs⟩
    · have hnew : e = e' := by simpa [hold] using he
      rw [hnew] at hold ⊢
      exact ⟨es, [], s₃, s₄, rfl, hold, h, hs, .nil⟩

end Trace

end RainMeta
