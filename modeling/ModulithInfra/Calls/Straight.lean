import ModulithInfra.Calls.Program

/-!
# Programs that pass their exceptions on

A program built from single calls, local computations and sequencing, without a `try` of its own, is
`Straight`: a call that raises ends it in that exception. `EndsIn` is such a program with one last
call after the others. Run alone in any world it completes, the last call made, or it raises before
that call (`EndsIn.eval_cases`), which is what a `try` around it has to know.

Nothing is assumed of the world: which calls raise, and what the others answer, may depend on
everything before.
-/

namespace Calls

variable {Op : Type} {Ans : Op → Type} {Exn State α β : Type}

/-! ### Completion -/

section Completes

variable (exec : (op : Op) → State → Except Exn (Ans op) × State)

/-- Run alone, every call of the program answers, and it does not raise. -/
def Prog.Completes : Prog Ans Exn α → State → Prop
  | .ret _, _ => True
  | .raise _, _ => False
  | .call op next, σ => ∃ a, (exec op σ).1 = .ok a ∧ (next (.ok a)).Completes (exec op σ).2

/-- The outcome of a `try`: that of its body, or of the handler after the body's calls. -/
def Outcome.orElse (o : Outcome Op Exn State α) (h : Exn → Prog Ans Exn α) :
    Outcome Op Exn State α :=
  match o.result with
  | .ok a => ⟨.ok a, o.state, o.calls⟩
  | .error e =>
      let rest := (h e).eval exec o.state
      ⟨rest.result, rest.state, o.calls ++ rest.calls⟩

theorem eval_tryCatch (p : Prog Ans Exn α) (h : Exn → Prog Ans Exn α) (σ : State) :
    (p.tryCatch h).eval exec σ = (p.eval exec σ).orElse exec h := by
  induction p generalizing σ with
  | ret a => rfl
  | raise e => simp [Outcome.orElse]
  | call op next ih =>
    rw [Prog.call_tryCatch, eval_call, eval_call, ih]
    unfold Outcome.orElse
    dsimp only
    cases ((next (exec op σ).1).eval exec (exec op σ).2).result <;> rfl

end Completes

/-! ### Straight programs -/

/-- The program only makes calls with `P`, and a call that raises ends it in that exception. -/
def Prog.Straight (P : Op → Prop) : Prog Ans Exn α → Prop
  | .ret _ => True
  | .raise _ => True
  | .call op next => P op ∧ (∀ e, next (.error e) = .raise e) ∧ ∀ a, (next (.ok a)).Straight P

/-- A straight program, unless it raises, followed by one call of `last`. -/
def Prog.EndsIn (P : Op → Prop) (last : Op) : Prog Ans Exn α → Prop
  | .ret _ => False
  | .raise _ => True
  | .call op next => (∀ e, next (.error e) = .raise e) ∧
      (P op ∧ (∀ a, (next (.ok a)).EndsIn P last) ∨ op = last ∧ ∀ a, ∃ b, next (.ok a) = .ret b)

variable {P : Op → Prop} {last : Op} {p : Prog Ans Exn α} {f : α → Prog Ans Exn β}

namespace Prog.Straight

theorem issue {op : Op} (h : P op) : (Prog.issue op : Prog Ans Exn (Ans op)).Straight P :=
  ⟨h, fun _ => rfl, fun _ => trivial⟩

theorem ofExcept (x : Except Exn α) : (Prog.ofExcept x : Prog Ans Exn α).Straight P := by
  cases x with
  | ok a => trivial
  | error e => trivial

theorem bind (hp : p.Straight P) (hf : ∀ a, (f a).Straight P) : (p >>= f).Straight P := by
  induction p with
  | ret a => exact hf a
  | raise e => trivial
  | call op next ih =>
    obtain ⟨hop, hraise, hnext⟩ := hp
    refine ⟨hop, fun e => ?_, fun a => ih (.ok a) (hnext a)⟩
    show (next (.error e)).bind f = .raise e
    rw [hraise, Prog.raise_bind]

/-- A straight program followed by one that ends in a call. -/
theorem endsIn (hp : p.Straight P) (hf : ∀ a, (f a).EndsIn P last) : (p >>= f).EndsIn P last := by
  induction p with
  | ret a => exact hf a
  | raise e => trivial
  | call op next ih =>
    obtain ⟨hop, hraise, hnext⟩ := hp
    refine ⟨fun e => ?_, .inl ⟨hop, fun a => ih (.ok a) (hnext a)⟩⟩
    show (next (.error e)).bind f = .raise e
    rw [hraise, Prog.raise_bind]

end Prog.Straight

namespace Prog.EndsIn

theorem issue : (Prog.issue last : Prog Ans Exn (Ans last)).EndsIn P last :=
  ⟨fun _ => rfl, .inr ⟨rfl, fun a => ⟨a, rfl⟩⟩⟩

/-- Where the last call cannot raise, the program completes and has made it after the others, or it
raises and has only made some of the others. -/
theorem eval_cases {exec : (op : Op) → State → Except Exn (Ans op) × State}
    (hlast : ∀ σ, ∃ a, (exec last σ).1 = .ok a) (hp : p.EndsIn P last) (σ : State) :
    (p.Completes exec σ ∧ (∃ a, (p.eval exec σ).result = .ok a) ∧
      ∃ ops, (p.eval exec σ).calls = ops ++ [last] ∧ ∀ op ∈ ops, P op) ∨
    (¬ p.Completes exec σ ∧ (∃ e, (p.eval exec σ).result = .error e) ∧
      ∀ op ∈ (p.eval exec σ).calls, P op) := by
  induction p generalizing σ with
  | ret a => exact hp.elim
  | raise e => exact .inr ⟨id, ⟨e, rfl⟩, by simp⟩
  | call op next ih =>
    obtain ⟨hraise, ⟨hop, hnext⟩ | ⟨rfl, hret⟩⟩ := hp
    · rw [eval_call]
      cases hr : (exec op σ).1 with
      | ok a =>
        have hcompletes : (Prog.call op next).Completes exec σ ↔
            (next (.ok a)).Completes exec (exec op σ).2 := by
          simp [Prog.Completes, hr]
        rw [hcompletes]
        rcases ih (.ok a) (hnext a) (exec op σ).2 with
          ⟨hdone, hresult, ops, hcalls, hops⟩ | ⟨hnot, hresult, hcalls⟩
        · refine .inl ⟨hdone, hresult, op :: ops, by simp [hcalls], ?_⟩
          simpa [hop] using hops
        · exact .inr ⟨hnot, hresult, by simpa [hop] using hcalls⟩
      | error e =>
        refine .inr ⟨fun h => ?_, ⟨e, by simp [hraise]⟩, by simp [hraise, hop]⟩
        obtain ⟨a, ha, -⟩ := h
        rw [hr] at ha
        cases ha
    · obtain ⟨a, ha⟩ := hlast σ
      obtain ⟨b, hb⟩ := hret a
      rw [eval_call, ha, hb]
      exact .inl ⟨⟨a, ha, by rw [hb]; trivial⟩, ⟨b, rfl⟩, [], rfl, by simp⟩

end Prog.EndsIn

end Calls
