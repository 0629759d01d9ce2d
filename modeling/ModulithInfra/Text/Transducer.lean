import Mathlib.Data.List.Basic

/-!
# Transducers

A scanner that goes through its input symbol by symbol: `step` takes a state and a symbol to the next
state and what is complete with that symbol, or refuses. `accept` adds what is complete at the end of
the input.

An input in parts is scanned part by part (`run_append`, `accept_append`), so that what a part does is
stated once, for every state it can meet, and used wherever the part stands.
-/

namespace Transducer

variable {σ α τ : Type} (step : σ → α → Option (σ × List τ)) (finish : σ → Option (List τ))

/-- The state after some symbols, and the outputs complete by then. -/
def run : σ → List α → Option (σ × List τ)
  | s, [] => some (s, [])
  | s, a :: rest => (step s a).bind fun r => (run r.1 rest).map fun r' => (r'.1, r.2 ++ r'.2)

/-- The outputs of a whole input. -/
def accept (s : σ) (input : List α) : Option (List τ) :=
  (run step s input).bind fun r => (finish r.1).map (r.2 ++ ·)

variable {step finish}

@[simp] theorem run_nil (s : σ) : run step s [] = some (s, []) := rfl

theorem run_cons {s s' : σ} {a : α} {out : List τ} (h : step s a = some (s', out)) (rest : List α) :
    run step s (a :: rest) = (run step s' rest).map fun r => (r.1, out ++ r.2) := by
  rw [run, h, Option.bind_some]

@[simp] theorem run_singleton (s : σ) (a : α) : run step s [a] = step s a := by
  cases h : step s a with
  | none => simp [run, h]
  | some r => simp [run, h]

@[simp] theorem accept_nil (s : σ) : accept step finish s [] = finish s := by
  simp [accept]

theorem run_append {s s' : σ} {input : List α} {out : List τ}
    (h : run step s input = some (s', out)) (rest : List α) :
    run step s (input ++ rest) = (run step s' rest).map fun r => (r.1, out ++ r.2) := by
  induction input generalizing s out with
  | nil =>
    obtain ⟨rfl, rfl⟩ := Prod.mk.inj (Option.some.inj h)
    simp
  | cons a input ih =>
    rw [run, Option.bind_eq_some_iff] at h
    obtain ⟨⟨s₁, out₁⟩, hstep, hrest⟩ := h
    obtain ⟨⟨s₂, out₂⟩, hrun, heq⟩ := Option.map_eq_some_iff.mp hrest
    obtain ⟨rfl, rfl⟩ := Prod.mk.inj heq
    rw [List.cons_append, run_cons hstep, ih hrun, Option.map_map]
    simp [Function.comp_def]

theorem accept_append {s s' : σ} {input : List α} {out : List τ}
    (h : run step s input = some (s', out)) (rest : List α) :
    accept step finish s (input ++ rest) = (accept step finish s' rest).map (out ++ ·) := by
  rw [accept, accept, run_append h]
  cases run step s' rest with
  | none => rfl
  | some r =>
    simp [Function.comp_def]

theorem accept_cons {s s' : σ} {a : α} {out : List τ} (h : step s a = some (s', out))
    (rest : List α) :
    accept step finish s (a :: rest) = (accept step finish s' rest).map (out ++ ·) :=
  accept_append ((run_singleton s a).trans h) rest

theorem accept_refused {s : σ} {a : α} (h : step s a = none) (rest : List α) :
    accept step finish s (a :: rest) = none := by
  rw [accept, run, h, Option.bind_none, Option.bind_none]

end Transducer
