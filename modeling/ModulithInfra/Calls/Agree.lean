import ModulithInfra.Calls.Pool

/-!
# Worlds that agree

Two worlds may answer the calls of a program alike without being alike: it is enough that they agree
on the calls the program makes. `Prog.Asks` bounds these calls, given what the answers can be, by a
rule for each way to build a program, and `Agree` compares two worlds on them. Then a pool of such
programs runs alike in both under every schedule (`Pool.Asks.run_eq`).
-/

namespace Calls

variable {ι Op : Type} {Ans : Op → Type} {Exn State α β : Type}

/-! ### The calls of a program -/

/-- Given answers among `answers`, every call of the program is among `calls`, and it returns one of
`results`. -/
def Prog.Asks (calls : Op → Prop) (answers : (op : Op) → Ans op → Prop) (results : α → Prop) :
    Prog Ans Exn α → Prop
  | .ret a => results a
  | .raise _ => True
  | .call op next => calls op ∧ (∀ a, answers op a → (next (.ok a)).Asks calls answers results) ∧
      ∀ e, (next (.error e)).Asks calls answers results

namespace Prog.Asks

variable {calls : Op → Prop} {answers : (op : Op) → Ans op → Prop} {results : α → Prop}
  {results' : β → Prop}

theorem issue {op : Op} (h : calls op) :
    (Prog.issue op : Prog Ans Exn (Ans op)).Asks calls answers (answers op) :=
  ⟨h, fun _ ha => ha, fun _ => trivial⟩

theorem ofExcept {x : Except Exn α} (h : ∀ a, x = .ok a → results a) :
    (Prog.ofExcept x : Prog Ans Exn α).Asks calls answers results := by
  cases x with
  | ok a => exact h a rfl
  | error e => trivial

theorem mono {results' : α → Prop} {p : Prog Ans Exn α} (hp : p.Asks calls answers results)
    (h : ∀ a, results a → results' a) : p.Asks calls answers results' := by
  induction p with
  | ret a => exact h a hp
  | raise e => trivial
  | call op next ih =>
    obtain ⟨hop, hnext, hraise⟩ := hp
    exact ⟨hop, fun a ha => ih (.ok a) (hnext a ha), fun e => ih (.error e) (hraise e)⟩

theorem bind {p : Prog Ans Exn α} {f : α → Prog Ans Exn β} (hp : p.Asks calls answers results)
    (hf : ∀ a, results a → (f a).Asks calls answers results') :
    (p >>= f).Asks calls answers results' := by
  induction p with
  | ret a => exact hf a hp
  | raise e => trivial
  | call op next ih =>
    obtain ⟨hop, hnext, hraise⟩ := hp
    exact ⟨hop, fun a ha => ih (.ok a) (hnext a ha), fun e => ih (.error e) (hraise e)⟩

theorem tryCatch {p : Prog Ans Exn α} {h : Exn → Prog Ans Exn α} (hp : p.Asks calls answers results)
    (hh : ∀ e, (h e).Asks calls answers results) : (p.tryCatch h).Asks calls answers results := by
  induction p with
  | ret a => exact hp
  | raise e => exact hh e
  | call op next ih =>
    obtain ⟨hop, hnext, hraise⟩ := hp
    exact ⟨hop, fun a ha => ih (.ok a) (hnext a ha), fun e => ih (.error e) (hraise e)⟩

end Prog.Asks

/-! ### Agreement -/

section Agreement

variable {exec exec' : (op : Op) → State → Except Exn (Ans op) × State}
variable {I : State → Prop} {calls : Op → Prop} {answers : (op : Op) → Ans op → Prop}
variable {results : α → Prop}

/-- From the states of `I`, the worlds do the same with the calls among `calls`, and only give answers
among `answers`. -/
structure Agree (exec exec' : (op : Op) → State → Except Exn (Ans op) × State) (I : State → Prop)
    (calls : Op → Prop) (answers : (op : Op) → Ans op → Prop) : Prop where
  same : ∀ op σ, I σ → calls op → exec' op σ = exec op σ
  answer : ∀ op σ a, I σ → calls op → (exec op σ).1 = .ok a → answers op a
  keep : ∀ op σ, I σ → calls op → I (exec op σ).2

theorem Agree.perform_same (h : Agree exec exec' I calls answers) {op : Op} {σ : State} (hσ : I σ)
    (hop : calls op) (f : Fault Exn) : perform exec' op f σ = perform exec op f σ := by
  cases f with
  | none => exact h.same op σ hσ hop
  | before e => rfl
  | after e => rw [perform_after, perform_after, h.same op σ hσ hop]

theorem Agree.perform_keep (h : Agree exec exec' I calls answers) {op : Op} {σ : State} (hσ : I σ)
    (hop : calls op) (f : Fault Exn) : I (perform exec op f σ).2 := by
  cases f with
  | none => exact h.keep op σ hσ hop
  | before e => exact hσ
  | after e => exact h.keep op σ hσ hop

/-- What the program does next asks for nothing else. -/
theorem Agree.next_asks (h : Agree exec exec' I calls answers) {op : Op} {σ : State} (hσ : I σ)
    {next : Except Exn (Ans op) → Prog Ans Exn α}
    (hp : (Prog.call op next).Asks calls answers results) (f : Fault Exn) :
    (next (perform exec op f σ).1).Asks calls answers results := by
  obtain ⟨hop, hnext, hraise⟩ := hp
  cases f with
  | none =>
    cases hr : (exec op σ).1 with
    | ok a => rw [perform_none, hr]; exact hnext a (h.answer op σ a hσ hop hr)
    | error e => rw [perform_none, hr]; exact hraise e
  | before e => exact hraise e
  | after e => exact hraise e

/-- The threads of a pool only ask what the worlds agree on. -/
structure Pool.Asks (I : State → Prop) (calls : Op → Prop) (answers : (op : Op) → Ans op → Prop)
    (p : Pool ι Ans Exn State α) : Prop where
  state : I p.state
  prog : ∀ i prog, (p.thread i).prog = some prog → prog.Asks calls answers fun _ => True

/-- A decision about one thread. -/
theorem Agree.step (h : Agree exec exec' I calls answers) {t : Thread Ans Exn α} {σ : State}
    (hσ : I σ) (ht : ∀ prog, t.prog = some prog → prog.Asks calls answers results) (a : Act Exn) :
    t.step exec' a σ = t.step exec a σ ∧ I (t.step exec a σ).2 ∧
      ∀ prog, (t.step exec a σ).1.prog = some prog → prog.Asks calls answers results := by
  cases hfin : t.finished with
  | true =>
    rw [Thread.step_finished exec' hfin, Thread.step_finished exec hfin]
    exact ⟨rfl, hσ, ht⟩
  | false =>
    obtain ⟨_ | prog, trace⟩ := t
    · simp [Thread.finished] at hfin
    cases prog with
    | ret x => simp [Thread.finished, Prog.finished] at hfin
    | raise e => simp [Thread.finished, Prog.finished] at hfin
    | call op next =>
      cases a with
      | kill => exact ⟨rfl, hσ, fun prog hprog => by cases hprog⟩
      | call f =>
        have hasks := ht _ rfl
        rw [Thread.step_call exec' rfl, Thread.step_call exec rfl, h.perform_same hσ hasks.1]
        refine ⟨rfl, h.perform_keep hσ hasks.1 f, fun prog hprog => ?_⟩
        obtain rfl := Option.some.inj hprog
        exact h.next_asks hσ hasks f

theorem Pool.Asks.step [DecidableEq ι] (h : Agree exec exec' I calls answers)
    {p : Pool ι Ans Exn State α} (hp : p.Asks I calls answers) (a : ι × Act Exn) :
    p.step exec' a = p.step exec a ∧ (p.step exec a).Asks I calls answers := by
  obtain ⟨i, a⟩ := a
  obtain ⟨hsame, hstate, hprog⟩ := h.step hp.state (hp.prog i) a
  refine ⟨?_, hstate, fun j prog hj => ?_⟩
  · simp only [Pool.step, hsame]
  · by_cases hij : j = i
    · subst hij
      rw [step_thread_self] at hj
      exact hprog prog hj
    · rw [step_thread_ne exec p _ hij] at hj
      exact hp.prog j prog hj

/-- A pool of such programs runs alike under every schedule. -/
theorem Pool.Asks.run_eq [DecidableEq ι] (h : Agree exec exec' I calls answers)
    {p : Pool ι Ans Exn State α} (hp : p.Asks I calls answers) (schedule : List (ι × Act Exn)) :
    p.run exec' schedule = p.run exec schedule := by
  induction schedule generalizing p with
  | nil => rfl
  | cons a schedule ih =>
    obtain ⟨heq, hp'⟩ := hp.step h a
    rw [run_cons, run_cons, heq, ih hp']

end Agreement

end Calls
