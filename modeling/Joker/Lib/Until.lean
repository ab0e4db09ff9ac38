/-
What is begun in a run and comes to its goal.

A state may be *armed*: events of one kind arm it, events of another lose
what was armed, and a third kind fires it. Whether something has fired
after a run is then a matter of the events and of their order: something
was armed by one of them, and an event that fires came before any that
loses (`exec_iff_until`; `since_iff` cuts the run at the event that arms).
-/
import Joker.Lib.Transition

namespace Transition

variable {σ ε : Type*} (step : σ → ε → σ)

/-- There is an event that fires, and no event before it that loses. -/
def Until (lost fires : σ → ε → Prop) : σ → List ε → Prop
  | _, [] => False
  | s, e :: es => fires s e ∨ ¬ lost s e ∧ Until lost fires (step s e) es

/-- There is an event that arms, and after it one that fires before any
that loses. -/
def Since (arms lost fires : σ → ε → Prop) : σ → List ε → Prop
  | _, [] => False
  | s, e :: es => (arms s e ∧ Until step lost fires (step s e) es)
      ∨ Since arms lost fires (step s e) es

variable {step}

/-- If an event arms a state, loses what was armed or fires it, and what
has fired stays so, then after a run something has fired exactly if it
had before, or what was armed has, or what an event of the run armed. -/
theorem exec_iff_until {armed fired : σ → Prop}
    {arms lost fires : σ → ε → Prop}
    (harmed : ∀ s e, armed (step s e)
      ↔ arms s e ∨ armed s ∧ ¬ lost s e ∧ ¬ fires s e)
    (hfired : ∀ s e, fired (step s e) ↔ fired s ∨ armed s ∧ fires s e) :
    ∀ (es : List ε) (s : σ), fired (exec step s es) ↔ fired s
      ∨ armed s ∧ Until step lost fires s es
      ∨ Since step arms lost fires s es := by
  intro es
  induction es with
  | nil => intro s; simp [Until, Since]
  | cons e es ih =>
      intro s
      rw [exec_cons, ih, hfired, harmed]
      simp only [Until, Since]
      by_cases hfires : fires s e
      · tauto
      · tauto

/-- The event that arms, and the events before and after it. -/
theorem since_iff {arms lost fires : σ → ε → Prop} :
    ∀ {es : List ε} {s : σ}, Since step arms lost fires s es
      ↔ ∃ pre e post, es = pre ++ e :: post ∧ arms (exec step s pre) e
        ∧ Until step lost fires (step (exec step s pre) e) post := by
  intro es
  induction es with
  | nil => intro s; simp [Since]
  | cons e es ih =>
      intro s
      constructor
      · rintro (⟨harms, huntil⟩ | hsince)
        · exact ⟨[], e, es, rfl, harms, huntil⟩
        · obtain ⟨pre, e', post, rfl, harms, huntil⟩ := ih.mp hsince
          exact ⟨e :: pre, e', post, rfl, harms, huntil⟩
      · rintro ⟨pre, e', post, heq, harms, huntil⟩
        cases pre with
        | nil =>
            obtain ⟨rfl, rfl⟩ := List.cons.inj heq
            exact Or.inl ⟨harms, huntil⟩
        | cons e'' pre =>
            obtain ⟨rfl, rfl⟩ := List.cons.inj heq
            exact Or.inr (ih.mpr ⟨pre, e', post, rfl, harms, huntil⟩)

end Transition
