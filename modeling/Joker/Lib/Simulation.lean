/-
Forward simulation between two labelled systems (Lib/Transition.lean).

One event of the concrete system may take any number of events of the
abstract one, none included. `Reaches` says that some run of abstract
events, each meeting a condition, leads to a state with a property; it
composes (`Reaches.trans`, `Reaches.foldl`), so a concrete step that is
itself a loop is matched turn by turn. `Simulates.exec` is the rule: a
relation every concrete step keeps in this sense carries every concrete
run over to an abstract one.
-/
import Joker.Lib.Transition

namespace Transition

variable {σ ε τ δ : Type*}

-- ============================================================== reaching

/-- A run from `t`, each step of which meets `Q`, ends in a state with
property `P`. -/
def Reaches (step : τ → δ → τ) (Q : τ → δ → Prop) (t : τ) (P : τ → Prop) :
    Prop :=
  ∃ ds, Along step Q t ds ∧ P (exec step t ds)

namespace Reaches

variable {step : τ → δ → τ} {Q : τ → δ → Prop} {t : τ} {P : τ → Prop}

/-- By no event. -/
theorem here (h : P t) : Reaches step Q t P := ⟨[], trivial, h⟩

/-- By one event. -/
theorem one {d : δ} (hQ : Q t d) (h : P (step t d)) : Reaches step Q t P :=
  ⟨[d], ⟨hQ, trivial⟩, h⟩

/-- One run after another. -/
theorem trans {P' : τ → Prop} (h : Reaches step Q t P)
    (h' : ∀ t', P t' → Reaches step Q t' P') : Reaches step Q t P' := by
  obtain ⟨ds, hds, hP⟩ := h
  obtain ⟨ds', hds', hP'⟩ := h' _ hP
  refine ⟨ds ++ ds', along_append.mpr ⟨hds, hds'⟩, ?_⟩
  rw [exec_append]
  exact hP'

/-- A loop is matched when each of its turns is. -/
theorem foldl {α : Type*} {R : σ → τ → Prop} {f : σ → α → σ} :
    ∀ (l : List α) {s : σ} {t : τ},
      (∀ x ∈ l, ∀ s t, R s t → Reaches step Q t (R (f s x))) →
      R s t → Reaches step Q t (R (l.foldl f s)) := by
  intro l
  induction l with
  | nil => intro s t _ h; exact here h
  | cons x l ih =>
      intro s t hturn h
      apply (hturn x List.mem_cons_self s t h).trans
      intro t' h'
      exact ih (fun y hy => hturn y (List.mem_cons_of_mem x hy)) h'

end Reaches

-- ============================================================ simulation

/-- Whatever concrete event meets `P`, abstract events that meet `Q` bring
the relation back. -/
def Simulates (stepC : σ → ε → σ) (stepA : τ → δ → τ) (P : σ → ε → Prop)
    (Q : τ → δ → Prop) (R : σ → τ → Prop) : Prop :=
  ∀ s t e, P s e → R s t → Reaches stepA Q t (R (stepC s e))

/-- Every run of the concrete system is matched by one of the abstract
system. -/
theorem Simulates.exec {stepC : σ → ε → σ} {stepA : τ → δ → τ}
    {P : σ → ε → Prop} {Q : τ → δ → Prop} {R : σ → τ → Prop}
    (h : Simulates stepC stepA P Q R) : ∀ (es : List ε) {s : σ} {t : τ},
      Along stepC P s es → R s t →
      Reaches stepA Q t (R (Transition.exec stepC s es)) := by
  intro es
  induction es with
  | nil => intro s t _ hR; exact Reaches.here hR
  | cons e es ih =>
      intro s t hP hR
      apply (h s t e hP.1 hR).trans
      intro t' hR'
      exact ih hP.2 hR'

end Transition
