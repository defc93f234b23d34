/-
  Runs of a machine given by a partial step function, and their invariants.

  The step function takes an event that resolves every choice of the
  environment; it is undefined on events that cannot happen in a state.
-/
import Mathlib.Data.List.Basic

namespace StepMachine

universe u v
variable {σ : Type u} {ε : Type v}

/-- The state after the events `es`, if each of them can happen. -/
def run (step : σ → ε → Option σ) : σ → List ε → Option σ
  | s, [] => some s
  | s, e :: es => (step s e).bind fun s' => run step s' es

/-- Every step of the run of `es` meets the condition `ok`. -/
def Meets (step : σ → ε → Option σ) (ok : σ → ε → Prop) : σ → List ε → Prop
  | _, [] => True
  | s, e :: es => ok s e ∧ match step s e with
    | some s' => Meets step ok s' es
    | none => True

variable {step : σ → ε → Option σ} {ok : σ → ε → Prop}

theorem run_cons {s s' : σ} {e : ε} {es : List ε} (h : run step s (e :: es) = some s') :
    ∃ t, step s e = some t ∧ run step t es = some s' := by
  simpa [run, Option.bind_eq_some_iff] using h

theorem run_append {s t : σ} {es : List ε} (h : run step s es = some t) (more : List ε) :
    run step s (es ++ more) = run step t more := by
  induction es generalizing s with
  | nil =>
    cases h
    rfl
  | cons e es ih =>
    obtain ⟨u, hu, hr⟩ := run_cons h
    rw [List.cons_append, run, hu]
    exact ih hr

instance decidableMeets [∀ s e, Decidable (ok s e)] :
    ∀ (s : σ) (es : List ε), Decidable (Meets step ok s es)
  | _, [] => inferInstanceAs (Decidable True)
  | s, e :: es =>
    have : Decidable (match step s e with
        | some s' => Meets step ok s' es
        | none => True) :=
      match step s e with
      | some s' => decidableMeets s' es
      | none => inferInstanceAs (Decidable True)
    inferInstanceAs (Decidable (_ ∧ _))

/-- **Invariant rule.**  What the steps that meet `ok` preserve holds after every run whose
steps all meet `ok`. -/
theorem run_invariant {I : σ → Prop}
    (hstep : ∀ s e s', I s → ok s e → step s e = some s' → I s') {s s' : σ} {es : List ε}
    (hI : I s) (hm : Meets step ok s es) (hr : run step s es = some s') : I s' := by
  induction es generalizing s with
  | nil =>
    cases hr
    exact hI
  | cons e es ih =>
    obtain ⟨t, ht, hr⟩ := run_cons hr
    obtain ⟨hok, hm⟩ := hm
    rw [ht] at hm
    exact ih (hstep s e t hI hok ht) hm hr

theorem meets_true : ∀ (s : σ) (es : List ε), Meets step (fun _ _ => True) s es
  | _, [] => trivial
  | s, e :: es => by
    refine ⟨trivial, ?_⟩
    cases step s e with
    | none => trivial
    | some s' => exact meets_true s' es

/-- Where the invariant holds, a step that meets `ok` meets `ok'`. -/
theorem Meets.imp {I : σ → Prop} {ok' : σ → ε → Prop}
    (hstep : ∀ s e s', I s → ok s e → step s e = some s' → I s')
    (h : ∀ s e, I s → ok s e → ok' s e) {s : σ} {es : List ε} (hI : I s)
    (hm : Meets step ok s es) : Meets step ok' s es := by
  induction es generalizing s with
  | nil => trivial
  | cons e es ih =>
    obtain ⟨hok, hm⟩ := hm
    refine ⟨h s e hI hok, ?_⟩
    cases hs : step s e with
    | none => trivial
    | some s' =>
      rw [hs] at hm
      exact ih (hstep s e s' hI hok hs) hm

/-- What every step preserves holds after every run. -/
theorem run_preserves {I : σ → Prop} (hstep : ∀ s e s', I s → step s e = some s' → I s')
    {s s' : σ} {es : List ε} (hI : I s) (hr : run step s es = some s') : I s' := by
  refine run_invariant ?_ hI (meets_true s es) hr
  intro s e s' hI _ h
  exact hstep s e s' hI h

theorem Meets.of_append {s : σ} {es more : List ε} (h : Meets step ok s (es ++ more)) :
    Meets step ok s es := by
  induction es generalizing s with
  | nil => trivial
  | cons e es ih =>
    obtain ⟨hok, h⟩ := h
    refine ⟨hok, ?_⟩
    cases hs : step s e with
    | none => trivial
    | some s' =>
      rw [hs] at h
      exact ih h

/-- `P` holds in every state of the run. -/
def Always (step : σ → ε → Option σ) (P : σ → Prop) (s : σ) (es : List ε) : Prop :=
  ∀ es₁, es₁ <+: es → ∀ t, run step s es₁ = some t → P t

/-- **Exact invariant rule.**  If `P` holds wherever the invariant `I` does, the steps that meet
`ok` preserve `I`, and `P` fails behind every other step, then `P` holds all along a run exactly
if every step of the run meets `ok`. -/
theorem always_iff_meets {I P : σ → Prop} (hP : ∀ s, I s → P s)
    (hstep : ∀ s e s', I s → ok s e → step s e = some s' → I s')
    (hbad : ∀ s e s', I s → ¬ ok s e → step s e = some s' → ¬ P s') {s s' : σ} {es : List ε}
    (hI : I s) (hr : run step s es = some s') :
    Always step P s es ↔ Meets step ok s es := by
  constructor
  · intro h
    induction es generalizing s with
    | nil => trivial
    | cons e es ih =>
      obtain ⟨t, ht, hr⟩ := run_cons hr
      have hok : ok s e := by
        by_contra hok
        refine hbad s e t hI hok ht (h [e] ⟨es, rfl⟩ t ?_)
        rw [run, ht]
        rfl
      refine ⟨hok, ?_⟩
      rw [ht]
      refine ih (hstep s e t hI hok ht) hr ?_
      intro es₁ hes₁ u hu
      refine h (e :: es₁) (List.cons_prefix_cons.2 ⟨rfl, hes₁⟩) u ?_
      rw [run, ht]
      exact hu
  · intro hm
    rintro es₁ ⟨more, rfl⟩ t ht
    exact hP t (run_invariant hstep hI hm.of_append ht)

end StepMachine
