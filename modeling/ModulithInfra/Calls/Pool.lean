import ModulithInfra.Calls.Program
import Mathlib.Data.List.Basic
import Mathlib.Data.Fintype.Card

/-!
# Interleaved programs over one state

A `Pool` is a family of threads over one shared state; `Pool.run` lets a schedule pick, step by
step, which thread makes its pending call and what goes wrong with it. Every interleaving, fault
and kill is some schedule.

A `Contract` is a rely-guarantee specification of one thread: what the other threads may do to the
state between two of its calls, and what each of its own calls does. `Meets` is the weakest
precondition of a program for a contract, and `Pool.Meets.run` its soundness: threads whose
guarantees respect each other's relies meet their contracts in every run. `Pool.run_induction`
turns that into an induction rule for facts about whole runs, `Pool.run_log_induction` for facts about
the state and the calls that were made (`Pool.log`).
-/

namespace Calls

variable {ι Op : Type} {Ans : Op → Type} {Exn State α β : Type}

structure Pool (ι : Type) {Op : Type} (Ans : Op → Type) (Exn State α : Type) where
  thread : ι → Thread Ans Exn α
  state : State

section Run

variable [DecidableEq ι] (exec : (op : Op) → State → Except Exn (Ans op) × State)

namespace Pool

def step (p : Pool ι Ans Exn State α) (a : ι × Act Exn) : Pool ι Ans Exn State α where
  thread := Function.update p.thread a.1 ((p.thread a.1).step exec a.2 p.state).1
  state := ((p.thread a.1).step exec a.2 p.state).2

/-- The pool after a schedule. -/
def run (p : Pool ι Ans Exn State α) (schedule : List (ι × Act Exn)) : Pool ι Ans Exn State α :=
  schedule.foldl (step exec) p

/-- The calls of all threads under a schedule, in order. -/
def log (p : Pool ι Ans Exn State α) : List (ι × Act Exn) → List (ι × Op × Fault Exn)
  | [] => []
  | a :: schedule =>
      ((p.thread a.1).issued a.2).map (a.1, ·) ++ (p.step exec a).log schedule

/-- No thread has a call pending. -/
def Finished (p : Pool ι Ans Exn State α) : Prop := ∀ i, (p.thread i).finished = true

@[simp] theorem run_nil (p : Pool ι Ans Exn State α) : p.run exec [] = p := rfl

@[simp] theorem run_cons (p : Pool ι Ans Exn State α) (a : ι × Act Exn)
    (s : List (ι × Act Exn)) : p.run exec (a :: s) = (p.step exec a).run exec s := rfl

theorem run_append (p : Pool ι Ans Exn State α) (s s' : List (ι × Act Exn)) :
    p.run exec (s ++ s') = (p.run exec s).run exec s' :=
  List.foldl_append

theorem step_thread_ne (p : Pool ι Ans Exn State α) (a : ι × Act Exn) {j : ι} (h : j ≠ a.1) :
    (p.step exec a).thread j = p.thread j :=
  Function.update_of_ne h _ _

theorem step_thread_self (p : Pool ι Ans Exn State α) (i : ι) (a : Act Exn) :
    (p.step exec (i, a)).thread i = ((p.thread i).step exec a p.state).1 :=
  Function.update_self _ _ _

/-- A step that changes nothing. -/
theorem step_eq_self {p : Pool ι Ans Exn State α} {i : ι} {a : Act Exn}
    (h : (p.thread i).step exec a p.state = (p.thread i, p.state)) : p.step exec (i, a) = p := by
  obtain ⟨thread, state⟩ := p
  simp only at h
  simp only [step, h, Function.update_eq_self]

/-- A thread's trace only grows. -/
theorem trace_prefix_step (p : Pool ι Ans Exn State α) (a : ι × Act Exn) (i : ι) :
    (p.thread i).trace <+: ((p.step exec a).thread i).trace := by
  obtain ⟨j, a⟩ := a
  by_cases hij : i = j
  · subst hij
    rw [step_thread_self]
    rcases Thread.step_cases exec a (p.thread i) p.state with
      ⟨op, next, f, -, -, hstep⟩ | hstep | hstep
    · rw [hstep]
      exact List.prefix_append _ _
    · rw [hstep]
    · rw [hstep]
  · rw [step_thread_ne exec p (j, a) hij]

theorem trace_prefix_run (p : Pool ι Ans Exn State α) (s : List (ι × Act Exn)) (i : ι) :
    (p.thread i).trace <+: ((p.run exec s).thread i).trace := by
  induction s generalizing p with
  | nil => exact List.prefix_refl _
  | cons a s ih => exact (trace_prefix_step exec p a i).trans (ih _)

/-- A finished thread is left as it is. -/
theorem thread_of_finished_run (p : Pool ι Ans Exn State α) (s : List (ι × Act Exn)) {i : ι}
    (h : (p.thread i).finished = true) : (p.run exec s).thread i = p.thread i := by
  induction s generalizing p with
  | nil => rfl
  | cons a s ih =>
    have hstep : (p.step exec a).thread i = p.thread i := by
      obtain ⟨j, a⟩ := a
      by_cases hij : i = j
      · subst hij
        rw [step_thread_self, Thread.step_finished exec h]
      · exact step_thread_ne exec p (j, a) hij
    rw [run_cons, ih _ (by rw [hstep]; exact h), hstep]

/-- A thread that the schedule leaves out stays as it is. -/
theorem thread_run_of_forall_ne (p : Pool ι Ans Exn State α) {s : List (ι × Act Exn)} {i : ι}
    (h : ∀ a ∈ s, a.1 ≠ i) : (p.run exec s).thread i = p.thread i := by
  induction s generalizing p with
  | nil => rfl
  | cons a s ih =>
    have hstep := step_thread_ne exec p a (h a List.mem_cons_self).symm
    rw [run_cons, ih _ fun b hb => h b (List.mem_cons_of_mem _ hb), hstep]

/-- A finished pool stays as it is. -/
theorem run_of_finished {p : Pool ι Ans Exn State α} (h : p.Finished) (s : List (ι × Act Exn)) :
    p.run exec s = p := by
  induction s with
  | nil => rfl
  | cons a s ih =>
    obtain ⟨i, a⟩ := a
    rw [run_cons, step_eq_self exec (Thread.step_finished exec (h i) a p.state), ih]

/-- Without kills a thread keeps its program. -/
theorem prog_isSome_run (p : Pool ι Ans Exn State α) (s : List ι) {i : ι}
    (h : (p.thread i).prog.isSome = true) :
    ((p.run exec (s.map (·, .call .none))).thread i).prog.isSome = true := by
  induction s generalizing p with
  | nil => exact h
  | cons j s ih =>
    refine ih (p.step exec (j, .call .none)) ?_
    by_cases hij : i = j
    · subst hij
      rw [step_thread_self]
      cases hfin : (p.thread i).finished with
      | true => rwa [Thread.step_finished exec hfin]
      | false =>
        obtain ⟨prog, hprog⟩ := Option.isSome_iff_exists.mp h
        cases prog with
        | ret a => simp [Thread.finished, hprog, Prog.finished] at hfin
        | raise e => simp [Thread.finished, hprog, Prog.finished] at hfin
        | call op next => rw [Thread.step_call exec hprog]; rfl
    · rwa [step_thread_ne exec p _ hij]

/-- Letting one thread run alone, without faults. -/
def alone (i : ι) (n : Nat) : List (ι × Act Exn) := List.replicate n (i, .call .none)

theorem run_alone {p : Pool ι Ans Exn State α} {i : ι} {prog q : Prog Ans Exn α} {σ : State}
    {ops : List Op} (hprog : (p.thread i).prog = some prog)
    (h : Steps exec prog p.state ops q σ) :
    p.run exec (alone i ops.length) =
      { thread := Function.update p.thread i
          ⟨some q, (p.thread i).trace ++ ops.map (·, .none)⟩
        state := σ } := by
  generalize hσ : p.state = σ₀ at h
  induction h generalizing p with
  | refl =>
    obtain ⟨thread, state⟩ := p
    simp only at hprog hσ
    subst hσ
    simp [alone, ← hprog]
  | @call op next _ _ ops q h ih =>
    subst hσ
    have hstep := Thread.step_call exec hprog .none p.state
    simp only [alone, List.length_cons, List.replicate_succ, run_cons]
    have hthread : (p.step exec (i, .call .none)).thread i =
        ⟨some (next (exec op p.state).1), (p.thread i).trace ++ [(op, .none)]⟩ := by
      rw [step_thread_self, hstep, perform_none]
    refine (ih (p := p.step exec (i, .call .none)) (by rw [hthread]) ?_).trans ?_
    · simp [step, hstep]
    · simp only [hthread, List.map_cons, List.append_assoc, List.singleton_append]
      simp only [step, hstep, Function.update_idem]

/-- A thread can be brought along its own steps while the others wait. -/
theorem exists_alone {p : Pool ι Ans Exn State α} {i : ι} {prog q : Prog Ans Exn α} {σ : State}
    {ops : List Op} (hprog : (p.thread i).prog = some prog)
    (h : Steps exec prog p.state ops q σ) :
    ∃ s : List ι,
      let p' := p.run exec (s.map (·, .call .none))
      p'.thread i = ⟨some q, (p.thread i).trace ++ ops.map (·, .none)⟩ ∧
        (∀ j, j ≠ i → p'.thread j = p.thread j) ∧ p'.state = σ := by
  refine ⟨List.replicate ops.length i, ?_⟩
  rw [List.map_replicate, ← alone, run_alone exec hprog h]
  refine ⟨Function.update_self .., fun j hij => ?_, rfl⟩
  exact Function.update_of_ne hij _ _

/-- Two fault-free schedules of a single thread that both finish it end alike. -/
theorem alone_unique {p : Pool ι Ans Exn State α} {i : ι} {m n : Nat}
    (hm : (p.run exec (alone i m)).Finished) (hn : (p.run exec (alone i n)).Finished) :
    p.run exec (alone i m) = p.run exec (alone i n) := by
  have key : ∀ m n, m ≤ n → (p.run exec (alone i m)).Finished →
      p.run exec (alone i n) = p.run exec (alone i m) := by
    intro m n hmn hm
    obtain ⟨k, rfl⟩ := Nat.exists_eq_add_of_le hmn
    rw [alone, List.replicate_add, run_append]
    exact run_of_finished exec hm _
  rcases Nat.le_total m n with hmn | hnm
  · exact (key m n hmn hm).symm
  · exact key n m hnm hn

/-- A pool of finitely many threads can always be run to the end without faults. -/
theorem exists_finished [Finite ι] (p : Pool ι Ans Exn State α) :
    ∃ s : List ι, (p.run exec (s.map (·, .call .none))).Finished := by
  have key : ∀ l : List ι, ∃ s : List ι,
      ∀ i ∈ l, ((p.run exec (s.map (·, .call .none))).thread i).finished = true := by
    intro l
    induction l with
    | nil => exact ⟨[], by simp⟩
    | cons i l ih =>
      obtain ⟨s, hs⟩ := ih
      generalize hq : p.run exec (s.map (·, .call .none)) = q at hs
      -- finishing `i` leaves the threads that are done alone
      cases hprog : (q.thread i).prog with
      | none =>
        refine ⟨s, fun j hj => ?_⟩
        rcases List.mem_cons.mp hj with rfl | hj
        · simp [hq, Thread.finished, hprog]
        · rw [hq]; exact hs j hj
      | some prog =>
        have hrun := run_alone exec hprog (steps_eval exec prog q.state)
        refine ⟨s ++ List.replicate (prog.eval exec q.state).calls.length i, fun j hj => ?_⟩
        rw [List.map_append, List.map_replicate, run_append, hq]
        rcases List.mem_cons.mp hj with rfl | hj
        · rw [← alone, hrun]
          simp only [Function.update_self, Thread.finished]
          cases (prog.eval exec q.state).result <;> rfl
        · rw [thread_of_finished_run exec q _ (hs j hj)]
          exact hs j hj
  obtain ⟨l, hl⟩ := Finite.exists_univ_list ι
  obtain ⟨s, hs⟩ := key l
  exact ⟨s, fun i => hs i (hl.2 i)⟩

end Pool

end Run

/-! ### Contracts -/

/-- A rely-guarantee specification of one thread. -/
structure Contract (Op Exn State : Type) where
  /-- the faults that may happen to its calls -/
  faults : Fault Exn → Prop
  /-- what the others may do between two of its calls -/
  rely : State → State → Prop
  /-- what one of its calls does -/
  guar : Op → Fault Exn → State → State → Prop
  rely_refl : ∀ σ, rely σ σ
  rely_trans : ∀ {σ σ' σ''}, rely σ σ' → rely σ' σ'' → rely σ σ''

section Meets

variable (exec : (op : Op) → State → Except Exn (Ans op) × State)
variable (c : Contract Op Exn State)

/-- From state `σ` and trace `tr`, whatever the others do within `rely` and whatever faults happen,
every call of the program respects `guar` and it ends, if it does, in `post`. -/
def Meets (post : Except Exn α → State → List (Op × Fault Exn) → Prop) :
    Prog Ans Exn α → State → List (Op × Fault Exn) → Prop
  | .ret a, σ, tr => post (.ok a) σ tr
  | .raise e, σ, tr => post (.error e) σ tr
  | .call op next, σ, tr => ∀ σ', c.rely σ σ' → ∀ f, c.faults f →
      c.guar op f σ' (perform exec op f σ').2 ∧
        Meets post (next (perform exec op f σ').1) (perform exec op f σ').2 (tr ++ [(op, f)])

variable {exec c}
variable {post post' : Except Exn α → State → List (Op × Fault Exn) → Prop}

theorem Meets.mono (hpost : ∀ r σ tr, post r σ tr → post' r σ tr) {p : Prog Ans Exn α} {σ : State}
    {tr : List (Op × Fault Exn)} (h : Meets exec c post p σ tr) : Meets exec c post' p σ tr := by
  induction p generalizing σ tr with
  | ret a => exact hpost _ _ _ h
  | raise e => exact hpost _ _ _ h
  | call op next ih =>
    intro σ' hrely f hf
    exact ⟨(h σ' hrely f hf).1, ih _ (h σ' hrely f hf).2⟩

/-- A postcondition that the others cannot break is still met after they have moved. -/
theorem Meets.rely (hpost : ∀ r σ σ' tr, c.rely σ σ' → post r σ tr → post r σ' tr)
    {p : Prog Ans Exn α} {σ σ' : State} {tr : List (Op × Fault Exn)} (hrely : c.rely σ σ')
    (h : Meets exec c post p σ tr) : Meets exec c post p σ' tr := by
  cases p with
  | ret a => exact hpost _ _ _ _ hrely h
  | raise e => exact hpost _ _ _ _ hrely h
  | call op next => exact fun σ'' hrely' f hf => h σ'' (c.rely_trans hrely hrely') f hf

theorem Meets.bind {post : Except Exn β → State → List (Op × Fault Exn) → Prop}
    {p : Prog Ans Exn α} {f : α → Prog Ans Exn β} {σ : State} {tr : List (Op × Fault Exn)}
    (h : Meets exec c (fun r σ tr => match r with
      | .ok a => Meets exec c post (f a) σ tr
      | .error e => post (.error e) σ tr) p σ tr) : Meets exec c post (p.bind f) σ tr := by
  induction p generalizing σ tr with
  | ret a => exact h
  | raise e => exact h
  | call op next ih =>
    intro σ' hrely g hg
    exact ⟨(h σ' hrely g hg).1, ih _ (h σ' hrely g hg).2⟩

theorem Meets.tryCatch {p : Prog Ans Exn α} {g : Exn → Prog Ans Exn α} {σ : State}
    {tr : List (Op × Fault Exn)}
    (h : Meets exec c (fun r σ tr => match r with
      | .ok a => post (.ok a) σ tr
      | .error e => Meets exec c post (g e) σ tr) p σ tr) :
    Meets exec c post (p.tryCatch g) σ tr := by
  induction p generalizing σ tr with
  | ret a => exact h
  | raise e => exact h
  | call op next ih =>
    intro σ' hrely f hf
    exact ⟨(h σ' hrely f hf).1, ih _ (h σ' hrely f hf).2⟩

theorem Meets.issue {op : Op} {post : Except Exn (Ans op) → State → List (Op × Fault Exn) → Prop}
    {σ : State} {tr : List (Op × Fault Exn)}
    (h : ∀ σ', c.rely σ σ' → ∀ f, c.faults f →
      c.guar op f σ' (perform exec op f σ').2 ∧
        post (perform exec op f σ').1 (perform exec op f σ').2 (tr ++ [(op, f)])) :
    Meets exec c post (.issue op) σ tr := by
  intro σ' hrely f hf
  refine ⟨(h σ' hrely f hf).1, ?_⟩
  have hpost := (h σ' hrely f hf).2
  cases hr : (perform exec op f σ').1 with
  | ok a => rw [hr] at hpost; exact hpost
  | error e => rw [hr] at hpost; exact hpost

/-- A fact about the state that neither the others nor the thread itself can break holds at the end. -/
theorem Meets.keep {K : State → Prop} (hrely : ∀ σ σ', c.rely σ σ' → K σ → K σ')
    (hguar : ∀ op f σ σ', c.guar op f σ σ' → K σ → K σ') {p : Prog Ans Exn α} {σ : State}
    {tr : List (Op × Fault Exn)} (hK : K σ) (h : Meets exec c post p σ tr) :
    Meets exec c (fun r σ tr => post r σ tr ∧ K σ) p σ tr := by
  induction p generalizing σ tr with
  | ret a => exact ⟨h, hK⟩
  | raise e => exact ⟨h, hK⟩
  | call op next ih =>
    intro σ' hσ f hf
    have hcall := h σ' hσ f hf
    exact ⟨hcall.1, ih _ (hguar _ _ _ _ hcall.1 (hrely _ _ hσ hK)) hcall.2⟩

end Meets

section Soundness

variable [DecidableEq ι] (exec : (op : Op) → State → Except Exn (Ans op) × State)
variable (c : ι → Contract Op Exn State)

/-- No thread does to another what that one does not rely on. -/
def Compatible : Prop :=
  ∀ i j, i ≠ j → ∀ op f σ σ', (c i).guar op f σ σ' → (c j).rely σ σ'

/-- Every thread meets its contract from the pool's state. -/
def Pool.Meets (post : ι → Except Exn α → State → List (Op × Fault Exn) → Prop)
    (p : Pool ι Ans Exn State α) : Prop :=
  ∀ i prog, (p.thread i).prog = some prog →
    Calls.Meets exec (c i) (post i) prog p.state (p.thread i).trace

/-- The schedule only uses faults the contracts allow. -/
def Allowed (schedule : List (ι × Act Exn)) : Prop :=
  ∀ i f, (i, Act.call f) ∈ schedule → (c i).faults f

variable {exec c}
variable {post : ι → Except Exn α → State → List (Op × Fault Exn) → Prop}
variable {p : Pool ι Ans Exn State α}

theorem Pool.Meets.step (hc : Compatible c)
    (hpost : ∀ i r σ σ' tr, (c i).rely σ σ' → post i r σ tr → post i r σ' tr)
    (h : p.Meets exec c post) {i : ι} {a : Act Exn} (ha : ∀ f, a = .call f → (c i).faults f) :
    (p.step exec (i, a)).Meets exec c post := by
  intro j prog hj
  rcases Thread.step_cases exec a (p.thread i) p.state with
    ⟨op, next, f, hprog, rfl, hstep⟩ | hstep | hstep
  · have hmeets := h i _ hprog p.state ((c i).rely_refl _) f (ha f rfl)
    have hstate : (p.step exec (i, .call f)).state = (perform exec op f p.state).2 := by
      simp [Pool.step, hstep]
    by_cases hij : j = i
    · subst hij
      rw [step_thread_self, hstep] at hj ⊢
      obtain rfl := Option.some.inj hj
      rw [hstate]
      exact hmeets.2
    · rw [step_thread_ne exec p _ hij] at hj ⊢
      rw [hstate]
      exact (h j prog hj).rely (hpost j) (hc i j (Ne.symm hij) _ _ _ _ hmeets.1)
  · have hstate : (p.step exec (i, a)).state = p.state := by simp [Pool.step, hstep]
    by_cases hij : j = i
    · subst hij
      rw [step_thread_self, hstep] at hj
      cases hj
    · rw [step_thread_ne exec p _ hij] at hj ⊢
      rw [hstate]
      exact h j prog hj
  · rw [step_eq_self exec hstep] at hj ⊢
    exact h j prog hj

/-- Threads with compatible contracts meet them after every allowed schedule. -/
theorem Pool.Meets.run (hc : Compatible c)
    (hpost : ∀ i r σ σ' tr, (c i).rely σ σ' → post i r σ tr → post i r σ' tr)
    (h : p.Meets exec c post) {s : List (ι × Act Exn)} (hs : Allowed c s) :
    (p.run exec s).Meets exec c post := by
  induction s generalizing p with
  | nil => exact h
  | cons a s ih =>
    obtain ⟨i, a⟩ := a
    refine ih (h.step hc hpost fun f hf => ?_) fun j f hj => hs j f (List.mem_cons_of_mem _ hj)
    subst hf
    exact hs i f (by simp)

/-- A fact about pools that every guaranteed call and every kill preserves holds after every allowed
schedule. -/
theorem Pool.run_induction {I : Pool ι Ans Exn State α → Prop} (hc : Compatible c)
    (hpost : ∀ i r σ σ' tr, (c i).rely σ σ' → post i r σ tr → post i r σ' tr)
    (h : p.Meets exec c post) {s : List (ι × Act Exn)} (hs : Allowed c s) (h0 : I p)
    (hcall : ∀ (q : Pool ι Ans Exn State α) i op next f, I q →
      (q.thread i).prog = some (.call op next) → (c i).faults f →
      (c i).guar op f q.state (perform exec op f q.state).2 →
      I { thread := Function.update q.thread i
            ⟨some (next (perform exec op f q.state).1), (q.thread i).trace ++ [(op, f)]⟩
          state := (perform exec op f q.state).2 })
    (hkill : ∀ (q : Pool ι Ans Exn State α) i, I q →
      I { q with thread := Function.update q.thread i ⟨none, (q.thread i).trace⟩ }) :
    I (p.run exec s) := by
  induction s generalizing p with
  | nil => exact h0
  | cons a s ih =>
    obtain ⟨i, a⟩ := a
    have ha : ∀ f, a = .call f → (c i).faults f := by
      rintro f rfl
      exact hs i f (by simp)
    refine ih (h.step hc hpost ha) (fun j f hj => hs j f (List.mem_cons_of_mem _ hj)) ?_
    rcases Thread.step_cases exec a (p.thread i) p.state with
      ⟨op, next, f, hprog, rfl, hstep⟩ | hstep | hstep
    · have hguar := (h i _ hprog p.state ((c i).rely_refl _) f (ha f rfl)).1
      have hI := hcall p i op next f h0 hprog (ha f rfl) hguar
      simpa [Pool.step, hstep] using hI
    · have hI := hkill p i h0
      simpa [Pool.step, hstep] using hI
    · rw [step_eq_self exec hstep]
      exact h0

/-- A fact about the state and the calls so far that every guaranteed call preserves holds after every
allowed schedule. -/
theorem Pool.run_log_induction {I : List (ι × Op × Fault Exn) → State → Prop} (hc : Compatible c)
    (hpost : ∀ i r σ σ' tr, (c i).rely σ σ' → post i r σ tr → post i r σ' tr)
    (h : p.Meets exec c post) {s : List (ι × Act Exn)} (hs : Allowed c s) (h0 : I [] p.state)
    (hcall : ∀ calls σ i op f, I calls σ → (c i).faults f →
      (c i).guar op f σ (perform exec op f σ).2 →
      I (calls ++ [(i, op, f)]) (perform exec op f σ).2) :
    I (p.log exec s) (p.run exec s).state := by
  suffices hlog : ∀ calls, I calls p.state → I (calls ++ p.log exec s) (p.run exec s).state from
    hlog [] h0
  clear h0
  induction s generalizing p with
  | nil =>
    intro calls hI
    simpa [log] using hI
  | cons a s ih =>
    obtain ⟨i, a⟩ := a
    intro calls hI
    have ha : ∀ f, a = .call f → (c i).faults f := by
      rintro f rfl
      exact hs i f (by simp)
    have hrest := ih (h.step hc hpost ha) (fun j f hj => hs j f (List.mem_cons_of_mem _ hj))
    rw [run_cons, log]
    rcases Thread.issued_cases exec a (p.thread i) p.state with
      ⟨op, next, f, hprog, rfl, hissued, hstate⟩ | ⟨hissued, hstate⟩
    · have hguar := (h i _ hprog p.state ((c i).rely_refl _) f (ha f rfl)).1
      have hI' := hcall calls p.state i op f hI (ha f rfl) hguar
      rw [← hstate] at hI'
      rw [hissued, ← List.append_assoc]
      exact hrest _ hI'
    · rw [← hstate] at hI
      rw [hissued, List.map_nil, List.nil_append]
      exact hrest calls hI

end Soundness

end Calls
