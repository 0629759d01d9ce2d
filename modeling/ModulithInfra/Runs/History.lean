import Mathlib.Data.List.Infix

/-!
# Histories of a partial step function

A system is a function `step` that gives the state after an event, or `none` where the event is not
possible. A list of events is a run as far as every event is possible where it comes.

`Always` says that a fact holds in every state of a run, `EachStep` that one holds of every step of
it. A fact that is preserved by every step of a run holds in all its states
(`always_of_eachStep`); an invariant is preserved by every step of every run (`always_of_invariant`).
-/

namespace Runs

variable {σ ε : Type} (step : σ → ε → Option σ) (s : σ)

/-- The state after some events, if all of them were possible. -/
def exec : σ → List ε → Option σ
  | s, [] => some s
  | s, e :: es => (step s e).bind fun s' => exec s' es

/-- `P` holds in every state of the run. -/
def Always (es : List ε) (P : σ → Prop) : Prop :=
  ∀ past t, past <+: es → exec step s past = some t → P t

/-- `Q` holds of every step of the run: the state before it, the event, the state after it. -/
def EachStep (es : List ε) (Q : σ → ε → σ → Prop) : Prop :=
  ∀ past e t t', past ++ [e] <+: es → exec step s past = some t → step t e = some t' → Q t e t'

variable {step s} {es es' : List ε} {P P' : σ → Prop} {Q Q' : σ → ε → σ → Prop}

@[simp] theorem exec_nil : exec step s [] = some s := rfl

theorem exec_append : exec step s (es ++ es') = (exec step s es).bind fun t => exec step t es' := by
  induction es generalizing s with
  | nil => rfl
  | cons e es ih =>
    simp only [List.cons_append, exec]
    cases step s e with
    | none => rfl
    | some t => exact ih

theorem exec_concat {e : ε} :
    exec step s (es ++ [e]) = (exec step s es).bind fun t => step t e := by
  rw [exec_append]
  cases exec step s es with
  | none => rfl
  | some t =>
    simp only [Option.bind_some, exec]
    cases step t e <;> rfl

/-- The last step of a run. -/
theorem exec_concat_eq_some {e : ε} {t' : σ} (h : exec step s (es ++ [e]) = some t') :
    ∃ t, exec step s es = some t ∧ step t e = some t' := by
  rw [exec_concat] at h
  exact Option.bind_eq_some_iff.mp h

theorem Always.mono (hP : ∀ t, P t → P' t) (h : Always step s es P) : Always step s es P' :=
  fun past t hpast ht => hP t (h past t hpast ht)

theorem Always.and (h : Always step s es P) (h' : Always step s es P') :
    Always step s es fun t => P t ∧ P' t :=
  fun past t hpast ht => ⟨h past t hpast ht, h' past t hpast ht⟩

theorem EachStep.mono (hQ : ∀ t e t', Q t e t' → Q' t e t') (h : EachStep step s es Q) :
    EachStep step s es Q' :=
  fun past e t t' hpast ht ht' => hQ t e t' (h past e t t' hpast ht ht')

/-- What always holds, holds before and after every step. -/
theorem Always.eachStep (h : Always step s es P) : EachStep step s es fun t _ t' => P t ∧ P t' := by
  intro past e t t' hpast ht ht'
  refine ⟨h past t ((List.prefix_append _ _).trans hpast) ht, h (past ++ [e]) t' hpast ?_⟩
  rw [exec_concat, ht, Option.bind_some, ht']

theorem EachStep.and (h : EachStep step s es Q) (h' : EachStep step s es Q') :
    EachStep step s es fun t e t' => Q t e t' ∧ Q' t e t' :=
  fun past e t t' hpast ht ht' => ⟨h past e t t' hpast ht ht', h' past e t t' hpast ht ht'⟩

/-- A fact that every step of the run preserves holds in every state of it. -/
theorem always_of_eachStep (h0 : P s) (h : EachStep step s es fun t _ t' => P t → P t') :
    Always step s es P := by
  intro past
  induction past using List.reverseRecOn with
  | nil =>
    intro t _ ht
    obtain rfl := Option.some.inj ht
    exact h0
  | append_singleton past e ih =>
    intro t' hpast ht'
    obtain ⟨t, ht, hstep⟩ := exec_concat_eq_some ht'
    exact h past e t t' hpast ht hstep (ih t ((List.prefix_append _ _).trans hpast) ht)

/-- An invariant of the step function holds in every state of every run. -/
theorem always_of_invariant (h0 : P s) (h : ∀ t e t', step t e = some t' → P t → P t')
    (es : List ε) : Always step s es P :=
  always_of_eachStep h0 fun _ e t t' _ _ hstep => h t e t' hstep

end Runs
