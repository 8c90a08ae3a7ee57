-- Runs on given events. A step may refuse its event, and `List.foldlM` stops there.
import Mathlib.Logic.Relation

namespace Runs

variable {σ ε : Type} {step : σ → ε → Option σ} {s s' : σ} {es : List ε}

/-- A run on given events is a chain of steps. -/
theorem steps_of_run {R : σ → σ → Prop} (hstep : ∀ s e s', step s e = some s' → R s s')
    (h : es.foldlM step s = some s') : Relation.ReflTransGen R s s' := by
  induction es generalizing s with
  | nil =>
    cases h
    exact .refl
  | cons e es ih =>
    obtain ⟨s1, h1, h2⟩ := Option.bind_eq_some_iff.mp h
    exact .head (hstep s e s1 h1) (ih h2)

variable {ok : σ → ε → Prop} [∀ s e, Decidable (ok s e)]

/-- The step refuses the events that are not `ok`. -/
def guarded (ok : σ → ε → Prop) [∀ s e, Decidable (ok s e)] (step : σ → ε → Option σ) (s : σ)
    (e : ε) : Option σ :=
  if ok s e then step s e else none

theorem steps_of_guarded (h : es.foldlM (guarded ok step) s = some s') :
    Relation.ReflTransGen (fun s s' => ∃ e, ok s e ∧ step s e = some s') s s' :=
  steps_of_run (fun _ e _ h => ⟨e, Option.ite_none_right_eq_some.mp h⟩) h

end Runs
