/-
Runs of a deterministic labelled system: a state type, an event type
and a total step function. An event the state does not enable is a
step that changes nothing, so every list of events is a run and the
reachable states are exactly the values of `exec`.

# What the module packages

- the run lemmas (`exec_append`, `exec_concat`), used to cut a run at
  the step a property is about;
- what a run gives out (`outputs`), step by step;
- the invariant rule (`exec_invariant`) and its conditional form
  (`exec_invariant_along`): what every step preserves — or every step
  that meets a condition — holds of every state a run reaches.
-/
import Mathlib.Data.List.Basic

namespace Transition

variable {σ ε : Type*} (step : σ → ε → σ)

-- ============================================================ the runs

/-- The state a run of events ends in. -/
def exec (s : σ) (es : List ε) : σ := es.foldl step s

@[simp] theorem exec_nil (s : σ) : exec step s [] = s := rfl

@[simp] theorem exec_cons (s : σ) (e : ε) (es : List ε) :
    exec step s (e :: es) = exec step (step s e) es := rfl

theorem exec_append (s : σ) (es fs : List ε) :
    exec step s (es ++ fs) = exec step (exec step s es) fs :=
  List.foldl_append

theorem exec_concat (s : σ) (es : List ε) (e : ε) :
    exec step s (es ++ [e]) = step (exec step s es) e := by
  rw [exec_append]
  rfl

/-- What the steps of a run give out, in order. -/
def outputs {β : Type*} (out : σ → ε → List β) : σ → List ε → List β
  | _, [] => []
  | s, e :: es => out s e ++ outputs out (step s e) es

@[simp] theorem outputs_nil {β : Type*} (out : σ → ε → List β) (s : σ) :
    outputs step out s [] = [] := rfl

@[simp] theorem outputs_cons {β : Type*} (out : σ → ε → List β) (s : σ)
    (e : ε) (es : List ε) : outputs step out s (e :: es)
      = out s e ++ outputs step out (step s e) es := rfl

theorem outputs_append {β : Type*} (out : σ → ε → List β) (s : σ)
    (es fs : List ε) : outputs step out s (es ++ fs)
      = outputs step out s es ++ outputs step out (exec step s es) fs := by
  induction es generalizing s with
  | nil => rfl
  | cons e es ih =>
      simp only [List.cons_append, outputs_cons, ih, exec_cons,
        List.append_assoc]

theorem outputs_concat {β : Type*} (out : σ → ε → List β) (s : σ)
    (es : List ε) (e : ε) : outputs step out s (es ++ [e])
      = outputs step out s es ++ out (exec step s es) e := by
  rw [outputs_append]
  simp

/-- What a run gives out, it gives out at one of its steps. -/
theorem mem_outputs {β : Type*} {out : σ → ε → List β} {b : β} :
    ∀ {es : List ε} {s : σ}, b ∈ outputs step out s es →
      ∃ pre e post, es = pre ++ e :: post ∧ b ∈ out (exec step s pre) e := by
  intro es
  induction es with
  | nil => intro s h; cases h
  | cons e es ih =>
      intro s h
      rcases List.mem_append.mp h with hnow | hlater
      · exact ⟨[], e, es, rfl, hnow⟩
      · obtain ⟨pre, e', post, rfl, hb⟩ := ih hlater
        exact ⟨e :: pre, e', post, rfl, hb⟩

-- ================================================== the invariant rules

variable {step}

/-- What every step preserves holds of every state a run reaches. -/
theorem exec_invariant (Inv : σ → Prop)
    (hstep : ∀ s e, Inv s → Inv (step s e)) :
    ∀ (es : List ε) {s : σ}, Inv s → Inv (exec step s es) := by
  intro es
  induction es with
  | nil => intro s h; exact h
  | cons e es ih => intro s h; exact ih (hstep s e h)

variable (step) in
/-- Every step of the run meets `P`, read at the state before it. -/
def Along (P : σ → ε → Prop) : σ → List ε → Prop
  | _, [] => True
  | s, e :: es => P s e ∧ Along P (step s e) es

theorem along_append {P : σ → ε → Prop} {s : σ} {es fs : List ε} :
    Along step P s (es ++ fs) ↔
      Along step P s es ∧ Along step P (exec step s es) fs := by
  induction es generalizing s with
  | nil => simp [Along]
  | cons e es ih =>
      simp only [List.cons_append, Along, ih, exec_cons]
      exact and_assoc.symm

instance decidableAlong {P : σ → ε → Prop} [∀ s, DecidablePred (P s)] :
    ∀ (s : σ) (es : List ε), Decidable (Along step P s es)
  | _, [] => isTrue trivial
  | s, e :: es =>
      @instDecidableAnd _ _ inferInstance (decidableAlong (step s e) es)

/-- What every step that meets `P` preserves holds of every state
reached by a run all of whose steps meet `P`. -/
theorem exec_invariant_along {P : σ → ε → Prop} (Inv : σ → Prop)
    (hstep : ∀ s e, P s e → Inv s → Inv (step s e)) :
    ∀ (es : List ε) {s : σ}, Along step P s es → Inv s →
      Inv (exec step s es) := by
  intro es
  induction es with
  | nil => intro s _ h; exact h
  | cons e es ih => intro s hP h; exact ih hP.2 (hstep s e hP.1 h)

end Transition
