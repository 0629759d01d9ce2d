import ModulithInfra.Runs.Rollout

/-!
# How far a rollout can get

Where a rollout can complete each item whose dependencies are complete, it can complete any list of
items that puts each of them after what it depends on (`Follows.exists_complete`). Where an item is
never complete, nothing that depends on it, directly or not, ever leaves the waiting phase
(`Follows.always_waiting`).

So if some items are stalled, those are never complete that depend on one of them
(`Follows.always_not_complete`), and the others, `not_hindered_of_closed`, can be completed together.
-/

namespace Rollout

open Runs

section Ordered

variable {ι : Type} [DecidableEq ι] (dependencies : ι → List ι)

/-- Behind the items seen, every item of a list comes after what it depends on. -/
def Ordered : List ι → List ι → Prop
  | _, [] => True
  | seen, i :: rest => (∀ j ∈ dependencies i, j ∈ seen) ∧ Ordered (i :: seen) rest

instance decidableOrdered : ∀ seen items : List ι, Decidable (Ordered dependencies seen items)
  | _, [] => inferInstanceAs (Decidable True)
  | seen, i :: rest =>
    @instDecidableAnd _ _ (List.decidableBAll (· ∈ seen) (dependencies i))
      (decidableOrdered (i :: seen) rest)

variable {dependencies} {phase : ι → Phase} {i : ι}

/-- An item that is neither running nor complete can start once its dependencies are complete. -/
theorem step_start (hphase : phase i = .waiting ∨ phase i = .failed)
    (hdeps : ∀ j ∈ dependencies i, phase j = .complete) :
    step dependencies phase (.start i) = some (Function.update phase i .running) :=
  if_pos ⟨hphase, hdeps⟩

variable (dependencies) in
theorem step_finish (hphase : phase i = .running) :
    step dependencies phase (.finish i) = some (Function.update phase i .complete) :=
  if_pos hphase

omit [DecidableEq ι] in
/-- A part of the list that has all that its items depend on is in order. -/
theorem Ordered.filter {seen items : List ι} (h : Ordered dependencies seen items) (keep : ι → Prop)
    [DecidablePred keep]
    (hkeep : ∀ i ∈ items, keep i → ∀ j ∈ dependencies i, keep j) :
    Ordered dependencies (seen.filter (keep ·)) (items.filter (keep ·)) := by
  induction items generalizing seen with
  | nil => trivial
  | cons i rest ih =>
    obtain ⟨hdeps, hrest⟩ := h
    have hrest := ih hrest fun k hk => hkeep k (List.mem_cons_of_mem i hk)
    by_cases hi : keep i
    · rw [List.filter_cons_of_pos (by simpa using hi)] at hrest ⊢
      refine ⟨fun j hj => List.mem_filter.mpr ⟨hdeps j hj, ?_⟩, hrest⟩
      simpa using hkeep i List.mem_cons_self hi j hj
    · rwa [List.filter_cons_of_neg (by simpa using hi)] at hrest ⊢

end Ordered

section Hindered

variable {ι : Type} (dependencies : ι → List ι) (Stalled : ι → Prop)

/-- The item is stalled, or depends on one that is. -/
def Hindered (i : ι) : Prop :=
  ∃ j, Relation.ReflTransGen (fun i j => j ∈ dependencies i) i j ∧ Stalled j

variable {dependencies Stalled} {i j : ι}

theorem hindered_of_stalled (h : Stalled i) : Hindered dependencies Stalled i := ⟨i, .refl, h⟩

theorem hindered_of_dependency (hij : j ∈ dependencies i) (h : Hindered dependencies Stalled j) :
    Hindered dependencies Stalled i := by
  obtain ⟨k, hk, hstalled⟩ := h
  exact ⟨k, .head hij hk, hstalled⟩

/-- Items that depend on none but each other, and none of which is stalled, are not hindered. -/
theorem not_hindered_of_closed (keep : ι → Prop)
    (hkeep : ∀ i, keep i → ∀ j ∈ dependencies i, keep j)
    (hstalled : ∀ i, keep i → ¬ Stalled i) (hi : keep i) : ¬ Hindered dependencies Stalled i := by
  rintro ⟨j, hij, hj⟩
  refine hstalled j ?_ hj
  clear hj
  induction hij with
  | refl => exact hi
  | tail _ hk ih => exact hkeep _ ih _ hk

end Hindered

section Completable

variable {ι σ ε : Type} [DecidableEq ι]

/-- From every good state in which the dependencies of an item are complete, the system can get to
a good state in which the item is complete. -/
def Completable (dependencies : ι → List ι) (sys : σ → ε → Option σ) (phase : σ → ι → Phase)
    (Good : σ → Prop) (i : ι) : Prop :=
  ∀ s, Good s → (∀ j ∈ dependencies i, phase s j = .complete) →
    ∃ es s', exec sys s es = some s' ∧ Good s' ∧ phase s' i = .complete

end Completable

namespace Follows

variable {ι σ ε : Type} [DecidableEq ι] {dependencies : ι → List ι}
variable {sys : σ → ε → Option σ} {phase : σ → ι → Phase} {label : ε → Option (Event ι)}
variable {s s' : σ} {i j : ι}

/-- What is complete stays complete along a run. -/
theorem complete_exec (h : Follows dependencies sys phase label) {es : List ε}
    (hexec : exec sys s es = some s') (hj : phase s j = .complete) : phase s' j = .complete := by
  induction es generalizing s with
  | nil =>
    obtain rfl := Option.some.inj hexec
    exact hj
  | cons e es ih =>
    obtain ⟨t, ht, hrest⟩ := Option.bind_eq_some_iff.mp hexec
    exact ih hrest (h.complete ht hj)

/-- Items that can be completed one by one can be completed together, in an order of the graph. -/
theorem exists_complete (h : Follows dependencies sys phase label) {Good : σ → Prop}
    (items : List ι) (hitems : ∀ i ∈ items, Completable dependencies sys phase Good i)
    {seen : List ι} (hordered : Ordered dependencies seen items) (hs : Good s)
    (hseen : ∀ j ∈ seen, phase s j = .complete) :
    ∃ es s', exec sys s es = some s' ∧ Good s' ∧ ∀ i ∈ items, phase s' i = .complete := by
  induction items generalizing s seen with
  | nil => exact ⟨[], s, rfl, hs, by simp⟩
  | cons i rest ih =>
    obtain ⟨hdeps, hrest⟩ := hordered
    obtain ⟨es, t, hexec, ht, hi⟩ :=
      hitems i List.mem_cons_self s hs fun j hj => hseen j (hdeps j hj)
    have hseen' : ∀ j ∈ i :: seen, phase t j = .complete := by
      intro j hj
      rcases List.mem_cons.mp hj with rfl | hj
      · exact hi
      · exact h.complete_exec hexec (hseen j hj)
    obtain ⟨es', t', hexec', ht', hcomplete⟩ :=
      ih (fun j hj => hitems j (List.mem_cons_of_mem _ hj)) hrest ht hseen'
    refine ⟨es ++ es', t', ?_, ht', ?_⟩
    · rw [exec_append, hexec, Option.bind_some, hexec']
    · intro j hj
      rcases List.mem_cons.mp hj with rfl | hj
      · exact h.complete_exec hexec' hi
      · exact hcomplete j hj

/-- What depends on an item that is never complete never starts. -/
theorem always_waiting (h : Follows dependencies sys phase label)
    (hstart : ∀ i, phase s i = .waiting) {es : List ε}
    (hij : Relation.TransGen (fun i j => j ∈ dependencies i) i j)
    (hj : Always sys s es fun t => phase t j ≠ .complete) :
    Always sys s es fun t => phase t i = .waiting := by
  refine ((h.always_complete_of_transGen hstart es hij).and hj).mono fun t ht => ?_
  by_contra hi
  exact ht.2 (ht.1 hi)

/-- What is hindered by items that are never complete is not complete either. -/
theorem always_not_complete (h : Follows dependencies sys phase label)
    (hstart : ∀ i, phase s i = .waiting) {es : List ε} {Stalled : ι → Prop}
    (hstalled : ∀ j, Stalled j → Always sys s es fun t => phase t j ≠ .complete)
    (hi : Hindered dependencies Stalled i) : Always sys s es fun t => phase t i ≠ .complete := by
  obtain ⟨j, hij, hj⟩ := hi
  rcases Relation.reflTransGen_iff_eq_or_transGen.mp hij with rfl | hij
  · exact hstalled j hj
  · refine (h.always_waiting hstart hij (hstalled j hj)).mono fun t ht => ?_
    rw [ht]
    decide

end Follows

end Rollout
