import Mathlib.Logic.Function.Basic

/-!
# Programs of external calls

A client program whose only contact with the outside world is a sequence of calls that answer or
raise. `Prog` is the tree of such a program: it returns, raises, or makes a call and goes on from
the call's result. The world is a function `exec`, what a call answers and how it changes the state.

* `Prog.eval` runs a program alone, every call doing what `exec` says (`Outcome`: result, final
  state, calls made).
* `Thread.step` runs one call under a scheduler's decision `Act`: the call goes through, it raises
  before or after taking effect (`Fault`), or the thread is killed.

Nothing here depends on what the calls are.
-/

namespace Calls

universe u v

/-- A program over calls `Op` with answers `Ans`, raising exceptions `Exn`. -/
inductive Prog {Op : Type} (Ans : Op → Type) (Exn : Type) (α : Type) : Type where
  | ret (a : α)
  | raise (e : Exn)
  | call (op : Op) (next : Except Exn (Ans op) → Prog Ans Exn α)

namespace Prog

variable {Op : Type} {Ans : Op → Type} {Exn State α β : Type}

def bind : Prog Ans Exn α → (α → Prog Ans Exn β) → Prog Ans Exn β
  | .ret a, f => f a
  | .raise e, _ => .raise e
  | .call op next, f => .call op fun r => (next r).bind f

/-- `try p except e: h e`. -/
def tryCatch : Prog Ans Exn α → (Exn → Prog Ans Exn α) → Prog Ans Exn α
  | .ret a, _ => .ret a
  | .raise e, h => h e
  | .call op next, h => .call op fun r => (next r).tryCatch h

instance : Monad (Prog Ans Exn) where
  pure := .ret
  bind := Prog.bind

/-- One call, its exception raised in the program. -/
def issue (op : Op) : Prog Ans Exn (Ans op) :=
  .call op fun
    | .ok a => .ret a
    | .error e => .raise e

/-- A local computation that may raise. -/
def ofExcept : Except Exn α → Prog Ans Exn α
  | .ok a => .ret a
  | .error e => .raise e

@[simp] theorem pure_eq (a : α) : (pure a : Prog Ans Exn α) = .ret a := rfl

@[simp] theorem bind_eq (p : Prog Ans Exn α) (f : α → Prog Ans Exn β) : p >>= f = p.bind f := rfl

@[simp] theorem map_eq (f : α → β) (p : Prog Ans Exn α) : f <$> p = p.bind fun a => .ret (f a) :=
  rfl

@[simp] theorem ret_bind (a : α) (f : α → Prog Ans Exn β) : (Prog.ret a).bind f = f a := rfl

@[simp] theorem raise_bind (e : Exn) (f : α → Prog Ans Exn β) :
    (Prog.raise e : Prog Ans Exn α).bind f = .raise e := rfl

@[simp] theorem call_bind (op : Op) (next : Except Exn (Ans op) → Prog Ans Exn α)
    (f : α → Prog Ans Exn β) :
    (Prog.call op next).bind f = .call op fun r => (next r).bind f := rfl

@[simp] theorem ret_tryCatch (a : α) (h : Exn → Prog Ans Exn α) :
    (Prog.ret a : Prog Ans Exn α).tryCatch h = .ret a := rfl

@[simp] theorem raise_tryCatch (e : Exn) (h : Exn → Prog Ans Exn α) :
    (Prog.raise e).tryCatch h = h e := rfl

@[simp] theorem call_tryCatch (op : Op) (next : Except Exn (Ans op) → Prog Ans Exn α)
    (h : Exn → Prog Ans Exn α) :
    (Prog.call op next).tryCatch h = .call op fun r => (next r).tryCatch h := rfl

/-- The program has returned or raised: no call is pending. -/
def finished : Prog Ans Exn α → Bool
  | .call _ _ => false
  | _ => true

end Prog

/-! ### Running a program alone -/

/-- What a run leaves: its result, the world after it, and the calls it made, in order. -/
structure Outcome (Op Exn State α : Type) where
  result : Except Exn α
  state : State
  calls : List Op

section Eval

variable {Op : Type} {Ans : Op → Type} {Exn State α β : Type}
variable (exec : (op : Op) → State → Except Exn (Ans op) × State)

/-- Run to the end in a world where every call does what `exec` says. -/
def Prog.eval : Prog Ans Exn α → State → Outcome Op Exn State α
  | .ret a, σ => ⟨.ok a, σ, []⟩
  | .raise e, σ => ⟨.error e, σ, []⟩
  | .call op next, σ =>
      let rest := (next (exec op σ).1).eval (exec op σ).2
      ⟨rest.result, rest.state, op :: rest.calls⟩

@[simp] theorem eval_ret (a : α) (σ : State) :
    (Prog.ret a : Prog Ans Exn α).eval exec σ = ⟨.ok a, σ, []⟩ := rfl

@[simp] theorem eval_raise (e : Exn) (σ : State) :
    (Prog.raise e : Prog Ans Exn α).eval exec σ = ⟨.error e, σ, []⟩ := rfl

theorem eval_call (op : Op) (next : Except Exn (Ans op) → Prog Ans Exn α) (σ : State) :
    (Prog.call op next).eval exec σ =
      ⟨((next (exec op σ).1).eval exec (exec op σ).2).result,
        ((next (exec op σ).1).eval exec (exec op σ).2).state,
        op :: ((next (exec op σ).1).eval exec (exec op σ).2).calls⟩ := rfl

/-- The program reaches `q` by making the calls `ops`, each doing what `exec` says. -/
inductive Steps : Prog Ans Exn α → State → List Op → Prog Ans Exn α → State → Prop
  | refl (p : Prog Ans Exn α) (σ : State) : Steps p σ [] p σ
  | call {op : Op} {next : Except Exn (Ans op) → Prog Ans Exn α} {σ σ' : State} {ops : List Op}
      {q : Prog Ans Exn α} (h : Steps (next (exec op σ).1) (exec op σ).2 ops q σ') :
      Steps (.call op next) σ (op :: ops) q σ'

variable {exec}

theorem Steps.trans {p q r : Prog Ans Exn α} {σ σ' σ'' : State} {ops ops' : List Op}
    (h : Steps exec p σ ops q σ') (h' : Steps exec q σ' ops' r σ'') :
    Steps exec p σ (ops ++ ops') r σ'' := by
  induction h with
  | refl => exact h'
  | call _ ih => exact .call (ih h')

theorem Steps.bind {p q : Prog Ans Exn α} {σ σ' : State} {ops : List Op}
    (h : Steps exec p σ ops q σ') (f : α → Prog Ans Exn β) :
    Steps exec (p.bind f) σ ops (q.bind f) σ' := by
  induction h with
  | refl => exact .refl _ _
  | call _ ih => exact .call ih

theorem Steps.tryCatch {p q : Prog Ans Exn α} {σ σ' : State} {ops : List Op}
    (h : Steps exec p σ ops q σ') (g : Exn → Prog Ans Exn α) :
    Steps exec (p.tryCatch g) σ ops (q.tryCatch g) σ' := by
  induction h with
  | refl => exact .refl _ _
  | call _ ih => exact .call ih

theorem eval_of_steps {p q : Prog Ans Exn α} {σ σ' : State} {ops : List Op}
    (h : Steps exec p σ ops q σ') :
    p.eval exec σ =
      ⟨(q.eval exec σ').result, (q.eval exec σ').state, ops ++ (q.eval exec σ').calls⟩ := by
  induction h with
  | refl => rfl
  | call _ ih => rw [eval_call, ih]; rfl

variable (exec) in
/-- Running alone reaches the outcome of `eval`. -/
theorem steps_eval (p : Prog Ans Exn α) (σ : State) :
    Steps exec p σ (p.eval exec σ).calls (.ofExcept (p.eval exec σ).result)
      (p.eval exec σ).state := by
  induction p generalizing σ with
  | ret a => exact .refl _ _
  | raise e => exact .refl _ _
  | call op next ih => exact .call (ih _ _)

end Eval

/-! ### One call under a scheduler -/

/-- What goes wrong with one call: nothing, it raises without taking effect, or it takes effect and
raises all the same. -/
inductive Fault (Exn : Type) : Type where
  | none
  | before (e : Exn)
  | after (e : Exn)
  deriving DecidableEq

/-- A scheduler's decision for one thread: let its pending call go through, or kill it. -/
inductive Act (Exn : Type) : Type where
  | call (f : Fault Exn)
  | kill
  deriving DecidableEq

/-- The calls of a trace that took effect, in order. -/
def delivered {Op Exn : Type} (trace : List (Op × Fault Exn)) : List Op :=
  trace.filterMap fun
    | (_, .before _) => none
    | (op, _) => some op

theorem delivered_append {Op Exn : Type} (trace trace' : List (Op × Fault Exn)) :
    delivered (trace ++ trace') = delivered trace ++ delivered trace' :=
  List.filterMap_append

@[simp] theorem delivered_map_none {Op Exn : Type} (ops : List Op) :
    delivered (ops.map (·, (Fault.none : Fault Exn))) = ops := by
  induction ops with
  | nil => rfl
  | cons op ops ih =>
    show op :: delivered (ops.map (·, (Fault.none : Fault Exn))) = op :: ops
    rw [ih]

theorem mem_delivered_concat {Op Exn : Type} {trace : List (Op × Fault Exn)} {op op' : Op}
    {f : Fault Exn} (h : op' ∈ delivered (trace ++ [(op, f)])) :
    op' ∈ delivered trace ∨ op' = op := by
  rw [delivered_append, List.mem_append] at h
  refine h.imp_right fun h => ?_
  cases f <;> simp [delivered] at h <;> exact h

/-- The part of a program still to run (`none` once killed) and the calls issued so far. -/
structure Thread {Op : Type} (Ans : Op → Type) (Exn α : Type) where
  prog : Option (Prog Ans Exn α)
  trace : List (Op × Fault Exn)

section Step

variable {Op : Type} {Ans : Op → Type} {Exn State α : Type}
variable (exec : (op : Op) → State → Except Exn (Ans op) × State)

/-- A call and its effect under a fault. -/
def perform (op : Op) (f : Fault Exn) (σ : State) : Except Exn (Ans op) × State :=
  match f with
  | .none => exec op σ
  | .before e => (.error e, σ)
  | .after e => (.error e, (exec op σ).2)

@[simp] theorem perform_none (op : Op) (σ : State) : perform exec op .none σ = exec op σ := rfl

@[simp] theorem perform_before (op : Op) (e : Exn) (σ : State) :
    perform exec op (.before e) σ = (.error e, σ) := rfl

@[simp] theorem perform_after (op : Op) (e : Exn) (σ : State) :
    perform exec op (.after e) σ = (.error e, (exec op σ).2) := rfl

namespace Thread

/-- A thread about to run `p`. -/
def start (p : Prog Ans Exn α) : Thread Ans Exn α := ⟨some p, []⟩

/-- No call of the thread is pending: it returned, raised or was killed. -/
def finished (t : Thread Ans Exn α) : Bool :=
  match t.prog with
  | some p => p.finished
  | none => true

def step (a : Act Exn) (t : Thread Ans Exn α) (σ : State) : Thread Ans Exn α × State :=
  match t.prog, a with
  | some (.call op next), .call f =>
      (⟨some (next (perform exec op f σ).1), t.trace ++ [(op, f)]⟩, (perform exec op f σ).2)
  | some (.call _ _), .kill => (⟨none, t.trace⟩, σ)
  | _, _ => (t, σ)

theorem step_call {t : Thread Ans Exn α} {op : Op} {next : Except Exn (Ans op) → Prog Ans Exn α}
    (h : t.prog = some (.call op next)) (f : Fault Exn) (σ : State) :
    step exec (.call f) t σ =
      (⟨some (next (perform exec op f σ).1), t.trace ++ [(op, f)]⟩, (perform exec op f σ).2) := by
  obtain ⟨prog, trace⟩ := t
  simp only at h
  subst h
  rfl

theorem step_finished {t : Thread Ans Exn α} (h : t.finished = true) (a : Act Exn) (σ : State) :
    step exec a t σ = (t, σ) := by
  obtain ⟨_ | p, trace⟩ := t
  · rfl
  · cases p with
    | ret x => rfl
    | raise e => rfl
    | call op next => simp [finished, Prog.finished] at h

/-- The three things a scheduled step can be. -/
theorem step_cases (a : Act Exn) (t : Thread Ans Exn α) (σ : State) :
    (∃ op next f, t.prog = some (.call op next) ∧ a = .call f ∧
      step exec a t σ = (⟨some (next (perform exec op f σ).1), t.trace ++ [(op, f)]⟩,
        (perform exec op f σ).2)) ∨
    step exec a t σ = (⟨none, t.trace⟩, σ) ∨ step exec a t σ = (t, σ) := by
  cases hfin : t.finished with
  | true => exact .inr (.inr (step_finished exec hfin a σ))
  | false =>
    obtain ⟨_ | p, trace⟩ := t
    · simp [finished] at hfin
    · cases p with
      | ret x => simp [finished, Prog.finished] at hfin
      | raise e => simp [finished, Prog.finished] at hfin
      | call op next =>
        cases a with
        | call f => exact .inl ⟨op, next, f, rfl, rfl, rfl⟩
        | kill => exact .inr (.inl rfl)

/-- The call a decision issues, and what goes wrong with it. -/
def issued (a : Act Exn) (t : Thread Ans Exn α) : List (Op × Fault Exn) :=
  match t.prog, a with
  | some (.call op _), .call f => [(op, f)]
  | _, _ => []

/-- A decision issues the pending call, or nothing and leaves the state alone. -/
theorem issued_cases (a : Act Exn) (t : Thread Ans Exn α) (σ : State) :
    (∃ op next f, t.prog = some (.call op next) ∧ a = .call f ∧ t.issued a = [(op, f)] ∧
      (step exec a t σ).2 = (perform exec op f σ).2) ∨
    t.issued a = [] ∧ (step exec a t σ).2 = σ := by
  obtain ⟨_ | p, trace⟩ := t
  · exact .inr ⟨rfl, rfl⟩
  · cases p with
    | ret x => exact .inr ⟨rfl, rfl⟩
    | raise e => exact .inr ⟨rfl, rfl⟩
    | call op next =>
      cases a with
      | call f => exact .inl ⟨op, next, f, rfl, rfl, rfl, rfl⟩
      | kill => exact .inr ⟨rfl, rfl⟩

end Thread

end Step

end Calls
