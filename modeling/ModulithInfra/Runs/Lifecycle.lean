import ModulithInfra.Runs.Bringup
import Mathlib.Data.Fintype.Basic
import Mathlib.Data.Fintype.Pi

/-!
# Creating and deleting over a dependency graph

Items are created and deleted again, any number of times and several at once. The creation of an item
starts only while everything it depends on stands, its deletion only while nothing that depends on it
is there. A creation that fails is rolled back; a deletion that fails is gone on with later.

In a system that `Follows` a graph so, an item is only ever there while all it depends on, directly or
not, stands (`Follows.always_standing_of_transGen`). Between two items that the graph does not relate,
that is so in a history exactly when no step of it starts to create the one or to delete the other too
early (`Follows.always_ordered_iff`).

Where each item can be brought to some phase once those it waits for have got there, a list of items
can be, in an order of the graph (`exists_settled`): the dependencies first to create them, the
dependents first to delete them.
-/

namespace Lifecycle

open Runs

inductive Phase : Type where
  | absent
  | creating
  | standing
  | deleting
  deriving DecidableEq

inductive Event (ι : Type) : Type where
  | create (i : ι)
  | created (i : ι)
  | rolledBack (i : ι)
  | delete (i : ι)
  | deleted (i : ι)
  deriving DecidableEq

section Step

variable {ι : Type} [DecidableEq ι] [Fintype ι] (dependencies : ι → List ι)

/-- The items that depend on one. -/
def Dependent (i j : ι) : Prop := i ∈ dependencies j

instance (i : ι) : DecidablePred (Dependent dependencies i) :=
  fun j => inferInstanceAs (Decidable (i ∈ dependencies j))

def step (phase : ι → Phase) : Event ι → Option (ι → Phase)
  | .create i =>
    if phase i = .absent ∧ ∀ j ∈ dependencies i, phase j = .standing then
      some (Function.update phase i .creating)
    else none
  | .created i =>
    if phase i = .creating then some (Function.update phase i .standing) else none
  | .rolledBack i =>
    if phase i = .creating then some (Function.update phase i .absent) else none
  | .delete i =>
    if phase i = .standing ∧ ∀ j, Dependent dependencies i j → phase j = .absent then
      some (Function.update phase i .deleting)
    else none
  | .deleted i =>
    if phase i = .deleting then some (Function.update phase i .absent) else none

variable {dependencies} {phase phase' : ι → Phase} {i j : ι} {e : Event ι}

/-- A step moves one item. -/
theorem step_cases (h : step dependencies phase e = some phase') :
    ∃ i p, phase' = Function.update phase i p ∧
      (e = .create i ∧ phase i = .absent ∧ p = .creating ∧
          (∀ j ∈ dependencies i, phase j = .standing) ∨
        e = .created i ∧ phase i = .creating ∧ p = .standing ∨
        e = .rolledBack i ∧ phase i = .creating ∧ p = .absent ∨
        e = .delete i ∧ phase i = .standing ∧ p = .deleting ∧
          (∀ j, Dependent dependencies i j → phase j = .absent) ∨
        e = .deleted i ∧ phase i = .deleting ∧ p = .absent) := by
  cases e with
  | create i =>
    simp only [step] at h
    split_ifs at h with hguard
    exact ⟨i, .creating, (Option.some.inj h).symm, .inl ⟨rfl, hguard.1, rfl, hguard.2⟩⟩
  | created i =>
    simp only [step] at h
    split_ifs at h with hcreating
    exact ⟨i, .standing, (Option.some.inj h).symm, .inr (.inl ⟨rfl, hcreating, rfl⟩)⟩
  | rolledBack i =>
    simp only [step] at h
    split_ifs at h with hcreating
    exact ⟨i, .absent, (Option.some.inj h).symm, .inr (.inr (.inl ⟨rfl, hcreating, rfl⟩))⟩
  | delete i =>
    simp only [step] at h
    split_ifs at h with hguard
    refine ⟨i, .deleting, (Option.some.inj h).symm, .inr (.inr (.inr (.inl ?_)))⟩
    exact ⟨rfl, hguard.1, rfl, hguard.2⟩
  | deleted i =>
    simp only [step] at h
    split_ifs at h with hdeleting
    exact ⟨i, .absent, (Option.some.inj h).symm, .inr (.inr (.inr (.inr ⟨rfl, hdeleting, rfl⟩)))⟩

/-- Whatever is there, is so while all it depends on stands. -/
def Supported (dependencies : ι → List ι) (phase : ι → Phase) : Prop :=
  ∀ i, phase i ≠ .absent → ∀ j ∈ dependencies i, phase j = .standing

theorem supported_step (h : step dependencies phase e = some phase')
    (hphase : Supported dependencies phase) : Supported dependencies phase' := by
  obtain ⟨k, p, rfl, hcases⟩ := step_cases h
  -- nothing that depends on the item that moves is there, unless the item comes to stand
  have hmoved : ∀ i, k ∈ dependencies i → phase i ≠ .absent → p = .standing := by
    intro i hik hi
    have hk := hphase i hi k hik
    rcases hcases with ⟨-, hk', -⟩ | ⟨-, hk', -⟩ | ⟨-, hk', -⟩ | ⟨-, -, -, hdependents⟩ | ⟨-, hk', -⟩
    · simp [hk] at hk'
    · simp [hk] at hk'
    · simp [hk] at hk'
    · exact absurd (hdependents i hik) hi
    · simp [hk] at hk'
  intro i hi j hij
  by_cases hik : i = k
  · subst hik
    rw [Function.update_self] at hi
    have hdeps : ∀ j ∈ dependencies i, phase j = .standing := by
      rcases hcases with ⟨-, -, -, hdeps⟩ | ⟨-, hk, -⟩ | ⟨-, -, hp⟩ | ⟨-, hk, -⟩ | ⟨-, -, hp⟩
      · exact hdeps
      · exact hphase i (by rw [hk]; decide)
      · exact absurd hp hi
      · exact hphase i (by rw [hk]; decide)
      · exact absurd hp hi
    by_cases hji : j = i
    · -- an item that depends on itself would have had to stand before it was created
      subst hji
      have hstanding := hdeps j hij
      rw [Function.update_self]
      exact hmoved j hij (by rw [hstanding]; decide)
    · rw [Function.update_of_ne hji]
      exact hdeps j hij
  · rw [Function.update_of_ne hik] at hi
    by_cases hjk : j = k
    · subst hjk
      rw [Function.update_self]
      exact hmoved i hij hi
    · rw [Function.update_of_ne hjk]
      exact hphase i hi j hij

theorem create_eq_some (h : step dependencies phase (.create i) = some phase') :
    phase i = .absent ∧ phase' = Function.update phase i .creating := by
  simp only [step] at h
  split_ifs at h with hguard
  exact ⟨hguard.1, (Option.some.inj h).symm⟩

theorem delete_eq_some (h : step dependencies phase (.delete i) = some phase') :
    phase i = .standing ∧ phase' = Function.update phase i .deleting := by
  simp only [step] at h
  split_ifs at h with hguard
  exact ⟨hguard.1, (Option.some.inj h).symm⟩

/-- A step that neither creates `i` nor deletes `j` too early keeps `j` standing while `i` is there. -/
theorem ordered_step (h : step dependencies phase e = some phase')
    (hphase : phase i ≠ .absent → phase j = .standing)
    (hcreate : e = .create i → phase j = .standing) (hdelete : e = .delete j → phase i = .absent)
    (hi : phase' i ≠ .absent) : phase' j = .standing := by
  obtain ⟨k, p, rfl, hcases⟩ := step_cases h
  have hj : phase j = .standing := by
    by_cases hik : i = k
    · subst hik
      rw [Function.update_self] at hi
      rcases hcases with ⟨he, -⟩ | ⟨-, hk, -⟩ | ⟨-, -, hp⟩ | ⟨-, hk, -⟩ | ⟨-, -, hp⟩
      · exact hcreate he
      · exact hphase (by rw [hk]; decide)
      · exact absurd hp hi
      · exact hphase (by rw [hk]; decide)
      · exact absurd hp hi
    · rw [Function.update_of_ne hik] at hi
      exact hphase hi
  by_cases hjk : j = k
  · subst hjk
    rw [Function.update_self]
    rcases hcases with ⟨-, hk, -⟩ | ⟨-, hk, -⟩ | ⟨-, hk, -⟩ | ⟨he, -⟩ | ⟨-, hk, -⟩
    · simp [hj] at hk
    · simp [hj] at hk
    · simp [hj] at hk
    · -- a deletion of `j` finds `i` gone
      have habsent := hdelete he
      by_cases hij : i = j
      · rw [hij, hj] at habsent
        cases habsent
      · rw [Function.update_of_ne hij, habsent] at hi
        exact absurd rfl hi
    · simp [hj] at hk
  · rw [Function.update_of_ne hjk, hj]

end Step

/-- The phases of the system move as the graph allows: an event labelled with one of the lifecycle
does that, any other leaves them alone. -/
structure Follows {ι σ ε : Type} [DecidableEq ι] [Fintype ι] (dependencies : ι → List ι)
    (sys : σ → ε → Option σ) (phase : σ → ι → Phase) (label : ε → Option (Event ι)) : Prop where
  move : ∀ s e s' a, sys s e = some s' → label e = some a →
    step dependencies (phase s) a = some (phase s')
  stay : ∀ s e s', sys s e = some s' → label e = none → phase s' = phase s

section Systems

variable {ι σ ε : Type} [DecidableEq ι] {dependencies requires : ι → List ι}
variable {sys : σ → ε → Option σ} {phase : σ → ι → Phase} {label : ε → Option (Event ι)}

theorem Follows.supported_step [Fintype ι] (h : Follows dependencies sys phase label) {s s' : σ}
    {e : ε} (hstep : sys s e = some s') (hs : Supported dependencies (phase s)) :
    Supported dependencies (phase s') := by
  cases he : label e with
  | none => rwa [h.stay s e s' hstep he]
  | some a => exact Lifecycle.supported_step (h.move s e s' a hstep he) hs

theorem Follows.always_supported [Fintype ι] (h : Follows dependencies sys phase label) {s : σ}
    (hstart : ∀ i, phase s i = .absent) (es : List ε) :
    Always sys s es fun t => Supported dependencies (phase t) :=
  always_of_invariant (fun i hi => absurd (hstart i) hi) (fun _ _ _ => h.supported_step) es

/-- What an item depends on, through whatever others, stands while the item is there. -/
theorem Follows.always_standing_of_transGen [Fintype ι] (h : Follows dependencies sys phase label)
    {s : σ} (hstart : ∀ i, phase s i = .absent) (es : List ε) {i j : ι}
    (hij : Relation.TransGen (fun i j => j ∈ dependencies i) i j) :
    Always sys s es fun t => phase t i ≠ .absent → phase t j = .standing := by
  refine (h.always_supported hstart es).mono fun t ht hi => ?_
  induction hij with
  | single hj => exact ht i hi _ hj
  | tail _ hk ih => exact ht _ (by rw [ih]; decide) _ hk

/-- `j` stands whenever `i` is there, if and only if no step starts to create `i` or to delete `j`
while it would not. -/
theorem Follows.always_ordered_iff [Fintype ι] (h : Follows dependencies sys phase label) {s : σ}
    (hstart : ∀ i, phase s i = .absent) (es : List ε) (i j : ι) :
    (Always sys s es fun t => phase t i ≠ .absent → phase t j = .standing) ↔
      EachStep sys s es fun t e _ =>
        (label e = some (.create i) → phase t j = .standing) ∧
          (label e = some (.delete j) → phase t i = .absent) := by
  constructor
  · intro halways past e t t' hpast ht ht'
    have hafter : phase t' i ≠ .absent → phase t' j = .standing :=
      (halways.eachStep past e t t' hpast ht ht').2
    refine ⟨fun he => ?_, fun he => ?_⟩
    · obtain ⟨hi, hphase⟩ := create_eq_some (h.move t e t' _ ht' he)
      rw [hphase, Function.update_self] at hafter
      have hj := hafter (by decide)
      have hji : j ≠ i := by
        rintro rfl
        rw [Function.update_self] at hj
        cases hj
      rwa [Function.update_of_ne hji] at hj
    · obtain ⟨hj, hphase⟩ := delete_eq_some (h.move t e t' _ ht' he)
      rw [hphase, Function.update_self] at hafter
      by_contra hi
      have hpresent : Function.update (phase t) j .deleting i ≠ .absent := by
        by_cases hij : i = j
        · rw [hij, Function.update_self]
          decide
        · rwa [Function.update_of_ne hij]
      cases hafter hpresent
  · intro heach
    refine always_of_eachStep (fun hi => absurd (hstart i) hi) ?_
    intro past e t t' hpast ht ht' hbefore hi
    obtain ⟨hcreate, hdelete⟩ := heach past e t t' hpast ht ht'
    cases he : label e with
    | none =>
      rw [h.stay t e t' ht' he] at hi ⊢
      exact hbefore hi
    | some a =>
      rw [he] at hcreate hdelete
      exact ordered_step (h.move t e t' a ht' he) hbefore (fun ha => hcreate (by rw [ha]))
        (fun ha => hdelete (by rw [ha])) hi

/-- From every good state in which the items that one waits for are in a phase, the system can bring
that item there, the others left as they are. -/
def Settles (requires : ι → List ι) (sys : σ → ε → Option σ) (phase : σ → ι → Phase)
    (Good : σ → Prop) (target : Phase) (i : ι) : Prop :=
  ∀ s, Good s → (∀ j ∈ requires i, phase s j = target) →
    ∃ es s', exec sys s es = some s' ∧ phase s' = Function.update (phase s) i target

/-- Items that can be brought to a phase one by one can be brought there together. -/
theorem exists_settled {Good : σ → Prop} (hgood : ∀ s e s', sys s e = some s' → Good s → Good s')
    {target : Phase} (items : List ι)
    (hitems : ∀ i ∈ items, Settles requires sys phase Good target i) {seen : List ι}
    (hordered : Rollout.Ordered requires seen items) {s : σ} (hs : Good s)
    (hseen : ∀ j ∈ seen, phase s j = target) :
    ∃ es s', exec sys s es = some s' ∧ (∀ i ∈ items, phase s' i = target) ∧
      ∀ j, phase s j = target → phase s' j = target := by
  induction items generalizing s seen with
  | nil => exact ⟨[], s, rfl, by simp, fun j hj => hj⟩
  | cons i rest ih =>
    obtain ⟨hrequires, hrest⟩ := hordered
    obtain ⟨es, t, hexec, ht⟩ :=
      hitems i List.mem_cons_self s hs fun j hj => hseen j (hrequires j hj)
    have hkept : ∀ j, phase s j = target → phase t j = target := by
      intro j hj
      rw [ht]
      by_cases hji : j = i
      · rw [hji, Function.update_self]
      · rw [Function.update_of_ne hji, hj]
    have hi : phase t i = target := by rw [ht, Function.update_self]
    have hgoodT : Good t := always_of_invariant hs hgood es es t (List.prefix_refl _) hexec
    have hseen' : ∀ j ∈ i :: seen, phase t j = target := by
      intro j hj
      rcases List.mem_cons.mp hj with rfl | hj
      · exact hi
      · exact hkept j (hseen j hj)
    obtain ⟨es', t', hexec', hitems', hkept'⟩ :=
      ih (fun j hj => hitems j (List.mem_cons_of_mem _ hj)) hrest hgoodT hseen'
    refine ⟨es ++ es', t', ?_, ?_, fun j hj => hkept' j (hkept j hj)⟩
    · rw [exec_append, hexec, Option.bind_some, hexec']
    · intro j hj
      rcases List.mem_cons.mp hj with rfl | hj
      · exact hkept' j hi
      · exact hitems' j hj

end Systems

end Lifecycle
