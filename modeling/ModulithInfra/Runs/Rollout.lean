import ModulithInfra.Runs.History
import Mathlib.Logic.Function.Basic
import Mathlib.Logic.Relation

/-!
# Rolling out a dependency graph

Items are brought up in any order that a dependency graph allows, several at once, each of them
possibly failing and being retried. An item starts only when everything it depends on is complete.

A system `Follows` a graph if its steps either leave the phases of the items alone or move them as
the graph allows; what else its state holds does not matter. In such a system whatever an item
depends on, directly or not, is complete once the item has started
(`Follows.always_complete_of_transGen`). Between two items that the graph does not relate, the order
is kept in a run exactly when no step of it breaks the order (`Follows.always_ordered_iff`).
-/

namespace Rollout

open Runs

inductive Phase : Type where
  | waiting
  | running
  | failed
  | complete
  deriving DecidableEq

/-- The item was started at some time. -/
def Phase.Started (p : Phase) : Prop := p ≠ .waiting

instance (p : Phase) : Decidable p.Started := inferInstanceAs (Decidable (_ ≠ _))

inductive Event (ι : Type) : Type where
  | start (i : ι)
  | finish (i : ι)
  | fail (i : ι)
  deriving DecidableEq

section Step

variable {ι : Type} [DecidableEq ι] (dependencies : ι → List ι)

def step (phase : ι → Phase) : Event ι → Option (ι → Phase)
  | .start i =>
    if (phase i = .waiting ∨ phase i = .failed) ∧ ∀ j ∈ dependencies i, phase j = .complete then
      some (Function.update phase i .running)
    else none
  | .finish i =>
    if phase i = .running then some (Function.update phase i .complete) else none
  | .fail i => if phase i = .running then some (Function.update phase i .failed) else none

variable {dependencies} {phase phase' : ι → Phase} {i j : ι} {e : Event ι}

/-- A step moves one item. -/
theorem step_cases (h : step dependencies phase e = some phase') :
    ∃ i, (∀ j, j ≠ i → phase' j = phase j) ∧
      (e = .start i ∧ phase i ≠ .complete ∧ (∀ j ∈ dependencies i, phase j = .complete) ∧
          phase' i = .running ∨
        e = .finish i ∧ phase i = .running ∧ phase' i = .complete ∨
        e = .fail i ∧ phase i = .running ∧ phase' i = .failed) := by
  have hmove : ∀ i p, Function.update phase i p = phase' →
      (∀ j, j ≠ i → phase' j = phase j) ∧ phase' i = p := by
    rintro i p rfl
    exact ⟨fun j hji => Function.update_of_ne hji p phase, Function.update_self i p phase⟩
  cases e with
  | start i =>
    simp only [step] at h
    split_ifs at h with hguard
    have hphase : phase i ≠ .complete := by
      rcases hguard.1 with hi | hi <;> simp [hi]
    obtain ⟨hframe, hi⟩ := hmove i .running (Option.some.inj h)
    exact ⟨i, hframe, .inl ⟨rfl, hphase, hguard.2, hi⟩⟩
  | finish i =>
    simp only [step] at h
    split_ifs at h with hrunning
    obtain ⟨hframe, hi⟩ := hmove i .complete (Option.some.inj h)
    exact ⟨i, hframe, .inr (.inl ⟨rfl, hrunning, hi⟩)⟩
  | fail i =>
    simp only [step] at h
    split_ifs at h with hrunning
    obtain ⟨hframe, hi⟩ := hmove i .failed (Option.some.inj h)
    exact ⟨i, hframe, .inr (.inr ⟨rfl, hrunning, hi⟩)⟩

/-- What is complete stays complete. -/
theorem complete_step (h : step dependencies phase e = some phase') (hj : phase j = .complete) :
    phase' j = .complete := by
  obtain ⟨i, hframe, hcases⟩ := step_cases h
  by_cases hji : j = i
  · subst hji
    rcases hcases with ⟨-, hphase, -⟩ | ⟨-, -, hfinish⟩ | ⟨-, hphase, -⟩
    · exact absurd hj hphase
    · exact hfinish
    · simp [hj] at hphase
  · rw [hframe j hji, hj]

/-- What is complete was complete before, or is completed by this very event. -/
theorem complete_cases (h : step dependencies phase e = some phase') (hj : phase' j = .complete) :
    phase j = .complete ∨ e = .finish j := by
  obtain ⟨i, hframe, hcases⟩ := step_cases h
  by_cases hji : j = i
  · subst hji
    rcases hcases with ⟨-, -, -, hphase⟩ | ⟨he, -⟩ | ⟨-, -, hphase⟩
    · simp [hj] at hphase
    · exact .inr he
    · simp [hj] at hphase
  · rw [hframe j hji] at hj
    exact .inl hj

/-- An item that has started was started before, or is started by this very event. -/
theorem started_step (h : step dependencies phase e = some phase') (hi : (phase' i).Started) :
    (phase i).Started ∨ e = .start i ∧ ∀ j ∈ dependencies i, phase j = .complete := by
  obtain ⟨k, hframe, hcases⟩ := step_cases h
  by_cases hik : i = k
  · subst hik
    rcases hcases with ⟨he, -, hdeps, -⟩ | ⟨-, hphase, -⟩ | ⟨-, hphase, -⟩
    · exact .inr ⟨he, hdeps⟩
    · exact .inl (by simp [Phase.Started, hphase])
    · exact .inl (by simp [Phase.Started, hphase])
  · rw [hframe i hik] at hi
    exact .inl hi

/-- An item that has started stays so. -/
theorem started_of_started (h : step dependencies phase e = some phase') (hi : (phase i).Started) :
    (phase' i).Started := by
  obtain ⟨k, hframe, hcases⟩ := step_cases h
  by_cases hik : i = k
  · subst hik
    rcases hcases with ⟨-, -, -, hphase⟩ | ⟨-, -, hphase⟩ | ⟨-, -, hphase⟩ <;>
      simp [Phase.Started, hphase]
  · rwa [hframe i hik]

end Step

/-- The phases of the system move as the graph allows: an event labelled with one of the rollout
does that, any other leaves them alone. -/
structure Follows {ι σ ε : Type} [DecidableEq ι] (dependencies : ι → List ι)
    (sys : σ → ε → Option σ) (phase : σ → ι → Phase) (label : ε → Option (Event ι)) : Prop where
  move : ∀ s e s' a, sys s e = some s' → label e = some a →
    step dependencies (phase s) a = some (phase s')
  stay : ∀ s e s', sys s e = some s' → label e = none → phase s' = phase s

namespace Follows

variable {ι σ ε : Type} [DecidableEq ι] {dependencies : ι → List ι}
variable {sys : σ → ε → Option σ} {phase : σ → ι → Phase} {label : ε → Option (Event ι)}

theorem complete (h : Follows dependencies sys phase label) {s s' : σ} {e : ε} {j : ι}
    (hstep : sys s e = some s') (hj : phase s j = .complete) : phase s' j = .complete := by
  cases he : label e with
  | none => rw [h.stay s e s' hstep he, hj]
  | some a => exact complete_step (h.move s e s' a hstep he) hj

theorem started (h : Follows dependencies sys phase label) {s s' : σ} {e : ε} {i : ι}
    (hstep : sys s e = some s') (hi : (phase s' i).Started) :
    (phase s i).Started ∨
      label e = some (.start i) ∧ ∀ j ∈ dependencies i, phase s j = .complete := by
  cases he : label e with
  | none =>
    rw [h.stay s e s' hstep he] at hi
    exact .inl hi
  | some a =>
    refine (started_step (h.move s e s' a hstep he) hi).imp_right fun ⟨ha, hdeps⟩ => ?_
    rw [ha]
    exact ⟨rfl, hdeps⟩

theorem waiting_of_waiting (h : Follows dependencies sys phase label) {s s' : σ} {e : ε} {i : ι}
    (hstep : sys s e = some s') (hi : phase s' i = .waiting) : phase s i = .waiting := by
  cases he : label e with
  | none => rwa [← h.stay s e s' hstep he]
  | some a =>
    by_contra hstarted
    exact started_of_started (h.move s e s' a hstep he) hstarted hi

variable {s : σ}

/-- What an item depends on is complete once the item has started. -/
theorem always_dependencies (h : Follows dependencies sys phase label)
    (hstart : ∀ i, phase s i = .waiting) (es : List ε) :
    Always sys s es fun t =>
      ∀ i, (phase t i).Started → ∀ j ∈ dependencies i, phase t j = .complete := by
  refine always_of_invariant (fun i hi => absurd (hstart i) hi) ?_ es
  intro t e t' hstep ht i hi j hj
  refine h.complete hstep ?_
  rcases h.started hstep hi with hi | ⟨-, hdeps⟩
  · exact ht i hi j hj
  · exact hdeps j hj

/-- So is what it depends on through other items. -/
theorem always_complete_of_transGen (h : Follows dependencies sys phase label)
    (hstart : ∀ i, phase s i = .waiting) (es : List ε) {i j : ι}
    (hij : Relation.TransGen (fun i j => j ∈ dependencies i) i j) :
    Always sys s es fun t => (phase t i).Started → phase t j = .complete := by
  refine (h.always_dependencies hstart es).mono fun t ht hi => ?_
  induction hij with
  | single hj => exact ht i hi _ hj
  | tail _ hk ih => exact ht _ (by rw [ih]; decide) _ hk

/-- `j` is complete whenever `i` has started, if and only if no step starts `i` before that. -/
theorem always_ordered_iff (h : Follows dependencies sys phase label)
    (hstart : ∀ i, phase s i = .waiting) (es : List ε) (i j : ι) :
    (Always sys s es fun t => (phase t i).Started → phase t j = .complete) ↔
      EachStep sys s es fun t e _ => label e = some (.start i) → phase t j = .complete := by
  constructor
  · intro halways past e t t' hpast ht ht' he
    have hafter : (phase t' i).Started → phase t' j = .complete :=
      (halways.eachStep past e t t' hpast ht ht').2
    obtain ⟨k, hframe, ⟨hk, -, -, hphase⟩ | ⟨hk, -⟩ | ⟨hk, -⟩⟩ := step_cases (h.move t e t' _ ht' he)
    · obtain rfl := Event.start.inj hk
      have hj := hafter (by simp [Phase.Started, hphase])
      have hji : j ≠ i := by
        rintro rfl
        simp [hphase] at hj
      rw [← hframe j hji, hj]
    · cases hk
    · cases hk
  · intro heach
    refine always_of_eachStep (fun hi => absurd (hstart i) hi) ?_
    intro past e t t' hpast ht ht' hbefore hi
    refine h.complete ht' ?_
    rcases h.started ht' hi with hi | ⟨he, -⟩
    · exact hbefore hi
    · exact heach past e t t' hpast ht ht' he

end Follows

end Rollout
