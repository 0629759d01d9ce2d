import ModulithInfra.App.Progress
import ModulithInfra.Postgres.Response
import ModulithInfra.Runs.Lifecycle
import Mathlib.Data.Fintype.Defs

/-!
# Deploying and destroying the app

Any history of the stacks: deployments, `cdk destroy`, failures of both, and whatever the invocations
of the database creator do. CloudFormation sends the custom resource of `PostgresConfigStack` a
`Delete` before the stack goes, which the creator answers without touching the server; the databases
are only lost with the cluster, which `PostgresDbStack` removes (`kept_data`).

So behind a `PostgresConfigStack` that stands there is always the database of the application, in the
cluster that stands then, however often clusters were destroyed before. And no history is a dead end:
everything can be taken down, and everything that depends on none but creatable stacks be brought up
again (`always_manageable`).

Which stacks are creatable is left open, so that all of this does not rest on the defects of the source:
with the names as they are there never is a cluster, and only the attainable stacks can be brought up
(`uncreatable_iff`).
-/

namespace ModulithInfra.App

open Calls Postgres Runs

/-- The stacks, each behind those it depends on. -/
def allStacks : List Stack :=
  [.vpcStack, .aiModelStack, .qdrantStack, .zipkinStack, .redisClusterStack, .redisInsightStack,
    .documentDbStack, .postgresDbStack, .postgresConfigStack, .ecsFargateStack]

theorem mem_allStacks (s : Stack) : s ∈ allStacks := by
  cases s <;> decide

instance : Fintype Stack := ⟨allStacks.toFinset, fun s => List.mem_toFinset.mpr (mem_allStacks s)⟩

/-- The stacks that depend on one. -/
def Stack.dependents (s : Stack) : List Stack := allStacks.filter fun s' => s ∈ s'.dependencies

theorem mem_dependents {s s' : Stack} :
    s' ∈ s.dependents ↔ Lifecycle.Dependent Stack.dependencies s s' := by
  simp [Stack.dependents, mem_allStacks, Lifecycle.Dependent]

/-- The clusters that `PostgresDbStack` makes, one after the other: the world that the creator finds,
and what CloudFormation asks it for as long as there is the cluster. -/
structure Clusters where
  world : Nat → World
  secretArn : Nat → String
  request : Nat → Nat → RequestType

/-- The invocations for a cluster. -/
def Clusters.launch (c : Clusters) (n : Nat) : Pool Nat Call.Answer Exn World Unit :=
  Postgres.launch (invocations (c.request n) (c.secretArn n)) (c.world n)

structure Installation where
  phase : Stack → Lifecycle.Phase
  /-- the clusters there were before -/
  cluster : Nat
  creator : Pool Nat Call.Answer Exn World Unit

namespace Installation

inductive Operation : Type where
  | stack (e : Lifecycle.Event Stack)
  /-- the custom resource of `PostgresConfigStack` takes the response to its creation -/
  | configured (i : Nat)
  /-- it takes the response to its deletion -/
  | deconfigured (i : Nat)
  /-- an invocation makes its next call, or is killed; it may outlive the stack that asked for it -/
  | creator (i : Nat) (a : Act Exn)

/-- Only stacks of the environment are created, as far as they are creatable at all, and
`PostgresConfigStack` waits for its custom resource. -/
def Allowed (environment : String) (creatable : Stack → Prop) : Lifecycle.Event Stack → Prop
  | .create s => s ∈ appStacks environment
  | .created s => creatable s ∧ s ≠ .postgresConfigStack
  | .deleted s => s ≠ .postgresConfigStack
  | .rolledBack _ => True
  | .delete _ => True

instance (environment : String) (creatable : Stack → Prop) [DecidablePred creatable]
    (e : Lifecycle.Event Stack) : Decidable (Allowed environment creatable e) :=
  match e with
  | .create s => inferInstanceAs (Decidable (s ∈ appStacks environment))
  | .created s => inferInstanceAs (Decidable (creatable s ∧ s ≠ .postgresConfigStack))
  | .deleted s => inferInstanceAs (Decidable (s ≠ .postgresConfigStack))
  | .rolledBack _ | .delete _ => .isTrue trivial

/-- The stack that makes the cluster takes it away again, by `RemovalPolicy.DESTROY` or when it is
rolled back. -/
def Removes (e : Lifecycle.Event Stack) : Prop :=
  e = .deleted .postgresDbStack ∨ e = .rolledBack .postgresDbStack

instance (e : Lifecycle.Event Stack) : Decidable (Removes e) :=
  inferInstanceAs (Decidable (_ ∨ _))

section Run

variable (environment : String) (creatable : Stack → Prop) [DecidablePred creatable]
variable (clusters : Clusters)

def begin : Installation where
  phase _ := .absent
  cluster := 0
  creator := clusters.launch 0

def move (a : Installation) (e : Lifecycle.Event Stack) : Option Installation :=
  (Lifecycle.step Stack.dependencies a.phase e).map fun phase =>
    if Removes e then ⟨phase, a.cluster + 1, clusters.launch (a.cluster + 1)⟩
    else { a with phase := phase }

def operate (a : Installation) : Operation → Option Installation
  | .stack e => if Allowed environment creatable e then a.move clusters e else none
  | .configured i =>
    if creatable .postgresConfigStack ∧ clusters.request a.cluster i ≠ .Delete ∧
        Sent a.creator i .SUCCESS then
      a.move clusters (.created .postgresConfigStack)
    else none
  | .deconfigured i =>
    if clusters.request a.cluster i = .Delete ∧ Sent a.creator i .SUCCESS then
      a.move clusters (.deleted .postgresConfigStack)
    else none
  | .creator i act =>
    if a.phase .postgresDbStack ≠ .absent then
      some { a with creator := a.creator.step Postgres.exec (i, act) }
    else none

/-- The operation as an event of the lifecycle. -/
def Operation.label : Operation → Option (Lifecycle.Event Stack)
  | .stack e => some e
  | .configured _ => some (.created .postgresConfigStack)
  | .deconfigured _ => some (.deleted .postgresConfigStack)
  | .creator _ _ => none

variable {environment creatable clusters} {a a' : Installation}

theorem move_eq_some {e : Lifecycle.Event Stack} (h : a.move clusters e = some a') :
    Lifecycle.step Stack.dependencies a.phase e = some a'.phase ∧
      (Removes e ∧ a'.cluster = a.cluster + 1 ∧ a'.creator = clusters.launch (a.cluster + 1) ∨
        ¬ Removes e ∧ a'.cluster = a.cluster ∧ a'.creator = a.creator) := by
  obtain ⟨phase, hphase, heq⟩ := Option.map_eq_some_iff.mp h
  split_ifs at heq with hremoves
  · subst heq
    exact ⟨hphase, .inl ⟨hremoves, rfl, rfl⟩⟩
  · subst heq
    exact ⟨hphase, .inr ⟨hremoves, rfl, rfl⟩⟩

/-- What an operation can be. -/
theorem operate_cases {o : Operation} (h : operate environment creatable clusters a o = some a') :
    (∃ e, o.label = some e ∧ a.move clusters e = some a' ∧
      (e = .created .postgresConfigStack → ∃ i, clusters.request a.cluster i ≠ .Delete ∧
        Sent a.creator i .SUCCESS) ∧ (∀ s, e = .created s → creatable s) ∧
      (Removes e → o = .stack e)) ∨
    (∃ i act, o = .creator i act ∧
      a' = { a with creator := a.creator.step Postgres.exec (i, act) }) := by
  cases o with
  | stack e =>
    simp only [operate] at h
    split_ifs at h with hallowed
    refine .inl ⟨e, rfl, h, ?_, ?_, fun _ => rfl⟩
    · rintro rfl
      exact absurd rfl hallowed.2
    · rintro s rfl
      exact hallowed.1
  | configured i =>
    simp only [operate] at h
    split_ifs at h with hsent
    refine .inl ⟨_, rfl, h, fun _ => ⟨i, hsent.2⟩, ?_, fun hremoves => by simp [Removes] at hremoves⟩
    rintro s hs
    obtain rfl := Lifecycle.Event.created.inj hs
    exact hsent.1
  | deconfigured i =>
    simp only [operate] at h
    split_ifs at h with hsent
    exact .inl ⟨_, rfl, h, nofun, nofun, fun hremoves => by simp [Removes] at hremoves⟩
  | creator i act =>
    simp only [operate] at h
    split_ifs at h
    exact .inr ⟨i, act, rfl, (Option.some.inj h).symm⟩

variable (environment creatable clusters) in
theorem operate_follows :
    Lifecycle.Follows Stack.dependencies (operate environment creatable clusters) phase
      Operation.label where
  move a o a' e hstep hlabel := by
    rcases operate_cases hstep with ⟨e', he', hmove, -⟩ | ⟨i, act, rfl, -⟩
    · rw [he'] at hlabel
      obtain rfl := Option.some.inj hlabel
      exact (move_eq_some hmove).1
    · cases hlabel
  stay a o a' hstep hlabel := by
    rcases operate_cases hstep with ⟨e', he', -⟩ | ⟨i, act, rfl, rfl⟩
    · rw [he'] at hlabel
      cases hlabel
    · rfl

/-! ### What is kept -/

/-- What holds of an installation at any time. -/
structure Sound (creatable : Stack → Prop) (clusters : Clusters) (a : Installation) : Prop where
  supported : Lifecycle.Supported Stack.dependencies a.phase
  standing : ∀ s, a.phase s = .standing → creatable s
  reached : ∃ schedule, a.creator = (clusters.launch a.cluster).run Postgres.exec schedule
  done : a.phase .postgresConfigStack = .standing →
    a.creator.state.server.Done databases schemas

theorem sound_begin (creatable : Stack → Prop) (clusters : Clusters) :
    Sound creatable clusters (begin clusters) where
  supported _ hs := absurd rfl hs
  standing _ hs := by cases hs
  reached := ⟨[], rfl⟩
  done h := by cases h

/-- While the stack of the cluster moves, `PostgresConfigStack` is not there. -/
theorem absent_of_moving (ha : Lifecycle.Supported Stack.dependencies a.phase)
    (hmoving : a.phase .postgresDbStack ≠ .standing) {s : Stack}
    (hs : Stack.postgresDbStack ∈ s.dependencies) : a.phase s = .absent := by
  by_contra hpresent
  exact hmoving (ha s hpresent _ hs)

theorem moving_of_removes {e : Lifecycle.Event Stack} {phase phase' : Stack → Lifecycle.Phase}
    (h : Lifecycle.step Stack.dependencies phase e = some phase') (he : Removes e) :
    phase .postgresDbStack ≠ .standing := by
  obtain ⟨s, p, -, hcases⟩ := Lifecycle.step_cases h
  rcases he with rfl | rfl
  · rcases hcases with ⟨he, -⟩ | ⟨he, -⟩ | ⟨he, -⟩ | ⟨he, -⟩ | ⟨he, hdeleting, -⟩ <;> cases he
    rw [hdeleting]
    decide
  · rcases hcases with ⟨he, -⟩ | ⟨he, -⟩ | ⟨he, hcreating, -⟩ | ⟨he, -⟩ | ⟨he, -⟩ <;> cases he
    rw [hcreating]
    decide

/-- What stands stood before, or has just been created. -/
theorem standing_cases {e : Lifecycle.Event Stack} {phase phase' : Stack → Lifecycle.Phase}
    (h : Lifecycle.step Stack.dependencies phase e = some phase') {s : Stack}
    (hs : phase' s = .standing) : phase s = .standing ∨ e = .created s := by
  obtain ⟨s', p, rfl, hcases⟩ := Lifecycle.step_cases h
  by_cases hss : s = s'
  · subst hss
    rw [Function.update_self] at hs
    subst hs
    rcases hcases with ⟨-, -, hp, -⟩ | ⟨he, -⟩ | ⟨-, -, hp⟩ | ⟨-, -, hp, -⟩ | ⟨-, -, hp⟩
    · cases hp
    · exact .inr he
    · cases hp
    · cases hp
    · cases hp
  · rw [Function.update_of_ne hss] at hs
    exact .inl hs

theorem sound_operate {o : Operation} (h : operate environment creatable clusters a o = some a')
    (ha : Sound creatable clusters a) : Sound creatable clusters a' := by
  have hsupported := (operate_follows environment creatable clusters).supported_step h ha.supported
  obtain ⟨schedule, hreached⟩ := ha.reached
  rcases operate_cases h with ⟨e, -, hmove, hconfigured, hcreated, -⟩ | ⟨i, act, rfl, rfl⟩
  · have hcreatable : ∀ s, a'.phase s = .standing → creatable s := fun s hs =>
      (standing_cases (move_eq_some hmove).1 hs).elim (ha.standing s) (hcreated s)
    obtain ⟨hphase, ⟨hremoves, hcluster, hcreator⟩ | ⟨-, hcluster, hcreator⟩⟩ := move_eq_some hmove
    · -- the next cluster is empty, but then there is no `PostgresConfigStack`
      refine ⟨hsupported, hcreatable, ⟨[], by rw [hcreator, hcluster]; rfl⟩, fun hstanding => ?_⟩
      have habsent := absent_of_moving ha.supported (moving_of_removes hphase hremoves)
        (s := .postgresConfigStack) (by decide)
      rcases standing_cases hphase hstanding with hbefore | rfl
      · rw [habsent] at hbefore
        cases hbefore
      · simp [Removes] at hremoves
    · refine ⟨hsupported, hcreatable, ⟨schedule, by rw [hcreator, hcluster, hreached]⟩,
        fun hstanding => ?_⟩
      rw [hcreator]
      rcases standing_cases hphase hstanding with hbefore | rfl
      · exact ha.done hbefore
      · obtain ⟨i, hrequest, hsent⟩ := hconfigured rfl
        rw [hreached] at hsent ⊢
        exact run_done _ _ schedule hrequest hsent
  · have hrun : a.creator.step Postgres.exec (i, act) =
        (clusters.launch a.cluster).run Postgres.exec (schedule ++ [(i, act)]) := by
      rw [Pool.run_append, ← hreached]
      rfl
    refine ⟨hsupported, ha.standing, ⟨_, hrun⟩, fun hstanding => ?_⟩
    have hextends : a.creator.state.server.Extends
        (a.creator.step Postgres.exec (i, act)).state.server := by
      rw [hreached]
      exact run_extends _ _ schedule [(i, act)]
    exact hextends.done (ha.done hstanding)

/-! ### What can be done -/

theorem sound_exec {os : List Operation}
    (h : Runs.exec (operate environment creatable clusters) a os = some a')
    (ha : Sound creatable clusters a) :
    Sound creatable clusters a' :=
  always_of_invariant ha (fun _ _ _ => sound_operate) os os a' (List.prefix_refl _) h

variable (environment creatable clusters) in
/-- A stack can be brought to a phase, the others left as they are. -/
def Gets (a : Installation) (s : Stack) (p : Lifecycle.Phase) : Prop :=
  ∃ os a', Runs.exec (operate environment creatable clusters) a os = some a' ∧
    a'.phase = Function.update a.phase s p

variable {s : Stack} {p q : Lifecycle.Phase}

theorem Gets.refl (h : a.phase s = p) : Gets environment creatable clusters a s p :=
  ⟨[], a, rfl, by rw [← h, Function.update_eq_self]⟩

theorem Gets.trans (h : Gets environment creatable clusters a s p) (ha : Sound creatable clusters a)
    (h' : ∀ a', Sound creatable clusters a' → a'.phase = Function.update a.phase s p →
      Gets environment creatable clusters a' s q) : Gets environment creatable clusters a s q := by
  obtain ⟨os, a', hos, hphase⟩ := h
  obtain ⟨os', a'', hos', hphase'⟩ := h' a' (sound_exec hos ha) hphase
  refine ⟨os ++ os', a'', by rw [exec_append, hos, Option.bind_some, hos'], ?_⟩
  rw [hphase', hphase, Function.update_idem]

variable (clusters) in
theorem exists_move {e : Lifecycle.Event Stack}
    (h : Lifecycle.step Stack.dependencies a.phase e = some (Function.update a.phase s p)) :
    ∃ a', a.move clusters e = some a' ∧ a'.phase = Function.update a.phase s p := by
  rw [move, h, Option.map_some]
  by_cases hremoves : Removes e
  · rw [if_pos hremoves]
    exact ⟨_, rfl, rfl⟩
  · rw [if_neg hremoves]
    exact ⟨_, rfl, rfl⟩

theorem Gets.step {e : Lifecycle.Event Stack} (he : Allowed environment creatable e)
    (h : Lifecycle.step Stack.dependencies a.phase e = some (Function.update a.phase s p)) :
    Gets environment creatable clusters a s p := by
  obtain ⟨a', hmove, hphase⟩ := exists_move clusters h
  have hoperate : operate environment creatable clusters a (.stack e) = some a' := by
    rw [operate, if_pos he, hmove]
  exact ⟨[.stack e], a', by simp [Runs.exec, hoperate], hphase⟩

variable (environment creatable clusters) in
/-- As long as there is a cluster, the invocations go on as they please. -/
theorem exec_creator (hcluster : a.phase .postgresDbStack ≠ .absent)
    (schedule : List (Nat × Act Exn)) :
    Runs.exec (operate environment creatable clusters) a
        (schedule.map fun act => .creator act.1 act.2) =
      some { a with creator := a.creator.run Postgres.exec schedule } := by
  induction schedule generalizing a with
  | nil => rfl
  | cons act schedule ih =>
    have hoperate : operate environment creatable clusters a (.creator act.1 act.2) =
        some { a with creator := a.creator.step Postgres.exec act } := if_pos hcluster
    rw [List.map_cons, Runs.exec, hoperate, Option.bind_some]
    exact ih (a := { a with creator := a.creator.step Postgres.exec act }) hcluster

/-- A stack gets where it can once the invocations have gone on for a while. -/
theorem Gets.after (hcluster : a.phase .postgresDbStack ≠ .absent) (schedule : List (Nat × Act Exn))
    {o : Operation} (h : operate environment creatable clusters
      { a with creator := a.creator.run Postgres.exec schedule } o = some a')
    (hphase : a'.phase = Function.update a.phase s p) :
    Gets environment creatable clusters a s p := by
  have hcreator := exec_creator environment creatable clusters hcluster schedule
  refine ⟨(schedule.map fun act => .creator act.1 act.2) ++ [o], a', ?_, hphase⟩
  rw [exec_append, hcreator, Option.bind_some]
  simp [Runs.exec, h]

omit [DecidablePred creatable] in
/-- A `PostgresConfigStack` that is there has its cluster. -/
theorem cluster_of_present (ha : Sound creatable clusters a)
    (h : a.phase .postgresConfigStack ≠ .absent) :
    a.phase .postgresDbStack ≠ .absent := by
  rw [ha.supported _ h .postgresDbStack (by decide)]
  decide

/-- A `Delete` is answered whatever the cluster and its secret hold. -/
theorem steps_delete {v : Invocation} (hv : v.request = .Delete) (w : World) :
    Steps Postgres.exec (handler v.event) w [.send .SUCCESS []] (.ret ()) w := by
  have hbody : body v.event = issue (.send .SUCCESS []) :=
    body_delete (by simp [Invocation.event, Event.of, hv, RequestType.name])
  rw [handler, hbody]
  exact (steps_send w).tryCatch _

end Run

end Installation

/-- For each cluster CloudFormation can ask for the database again, and for its deletion. -/
structure Clusters.Asking (c : Clusters) : Prop where
  creation : ∀ n m, ∃ i, m ≤ i ∧ c.request n i ≠ .Delete
  deletion : ∀ n m, ∃ i, m ≤ i ∧ c.request n i = .Delete

namespace Installation

section Asking

variable {environment : String} {creatable : Stack → Prop} [DecidablePred creatable]
variable {clusters : Clusters} {a : Installation} {s : Stack}

theorem gets_configured (hasking : clusters.Asking) (hcreatable : creatable .postgresConfigStack)
    (ha : Sound creatable clusters a) (hcreating : a.phase .postgresConfigStack = .creating) :
    Gets environment creatable clusters a .postgresConfigStack .standing := by
  obtain ⟨i, schedule, hi, hsent⟩ := exists_success (hasking.creation a.cluster) ha.reached
  obtain ⟨a', hmove, hphase⟩ := exists_move clusters
    (a := { a with creator := a.creator.run Postgres.exec schedule })
    (e := .created .postgresConfigStack) (if_pos hcreating)
  refine .after (cluster_of_present ha (by rw [hcreating]; decide)) schedule (o := .configured i) ?_
    hphase
  rw [operate, if_pos ⟨hcreatable, hi, hsent⟩, hmove]

theorem gets_deconfigured (hasking : clusters.Asking) (ha : Sound creatable clusters a)
    (hdeleting : a.phase .postgresConfigStack = .deleting) :
    Gets environment creatable clusters a .postgresConfigStack .absent := by
  obtain ⟨schedule₀, hreached⟩ := ha.reached
  obtain ⟨i, hi, hfresh⟩ := exists_fresh (hasking.deletion a.cluster) schedule₀
  have hsuccess : Status.SUCCESS ∈ responses [.send .SUCCESS []] := List.mem_cons_self
  obtain ⟨schedule, hsent⟩ := exists_sent hreached hfresh (steps_delete hi _) hsuccess
  obtain ⟨a', hmove, hphase⟩ := exists_move clusters
    (a := { a with creator := a.creator.run Postgres.exec schedule })
    (e := .deleted .postgresConfigStack) (if_pos hdeleting)
  refine .after (cluster_of_present ha (by rw [hdeleting]; decide)) schedule (o := .deconfigured i) ?_
    hphase
  rw [operate, if_pos ⟨hi, hsent⟩, hmove]

/-- A deletion can be finished. -/
theorem gets_deleted (hasking : clusters.Asking) (ha : Sound creatable clusters a)
    (hdeleting : a.phase s = .deleting) : Gets environment creatable clusters a s .absent := by
  by_cases hconfig : s = .postgresConfigStack
  · subst hconfig
    exact gets_deconfigured hasking ha hdeleting
  · exact .step (e := .deleted s) hconfig (if_pos hdeleting)

/-- A stack that nothing depends on any more can be taken down, whatever became of it. -/
theorem gets_absent (hasking : clusters.Asking) (ha : Sound creatable clusters a)
    (hdependents : ∀ s' ∈ s.dependents, a.phase s' = .absent) :
    Gets environment creatable clusters a s .absent := by
  cases hphase : a.phase s with
  | absent => exact .refl hphase
  | creating => exact .step (e := .rolledBack s) trivial (if_pos hphase)
  | deleting => exact gets_deleted hasking ha hphase
  | standing =>
    have hdelete : Gets environment creatable clusters a s .deleting := by
      refine .step (e := .delete s) trivial (if_pos ⟨hphase, fun s' hs' => ?_⟩)
      exact hdependents s' (mem_dependents.mpr hs')
    refine hdelete.trans ha fun a' ha' hphase' => gets_deleted hasking ha' ?_
    rw [hphase', Function.update_self]

/-- A creatable stack can be brought up once all it depends on stands, whatever became of it. -/
theorem gets_standing (hasking : clusters.Asking) (hs : s ∈ appStacks environment)
    (hcreatable : creatable s) (ha : Sound creatable clusters a)
    (hdeps : ∀ s' ∈ s.dependencies, a.phase s' = .standing) :
    Gets environment creatable clusters a s .standing := by
  have hne : s ∉ s.dependencies := by
    cases s <;> decide
  have hcreated : ∀ a', Sound creatable clusters a' → a'.phase s = .creating →
      Gets environment creatable clusters a' s .standing := by
    intro a' ha' hcreating
    by_cases hconfig : s = .postgresConfigStack
    · subst hconfig
      exact gets_configured hasking hcreatable ha' hcreating
    · exact .step (e := .created s) ⟨hcreatable, hconfig⟩ (if_pos hcreating)
  have habsent : ∀ a', Sound creatable clusters a' → a'.phase s = .absent →
      (∀ s' ∈ s.dependencies, a'.phase s' = .standing) →
        Gets environment creatable clusters a' s .standing := by
    intro a' ha' habsent hdeps'
    have hcreate : Gets environment creatable clusters a' s .creating :=
      .step (e := .create s) hs (if_pos ⟨habsent, hdeps'⟩)
    refine hcreate.trans ha' fun a'' ha'' hphase => hcreated a'' ha'' ?_
    rw [hphase, Function.update_self]
  cases hphase : a.phase s with
  | absent => exact habsent a ha hphase hdeps
  | creating => exact hcreated a ha hphase
  | standing => exact .refl hphase
  | deleting =>
    refine (gets_deleted hasking ha hphase).trans ha fun a' ha' hphase' => habsent a' ha' ?_ ?_
    · rw [hphase', Function.update_self]
    · intro s' hs'
      have hss' : s' ≠ s := by
        rintro rfl
        exact hne hs'
      rw [hphase', Function.update_of_ne hss']
      exact hdeps s' hs'

/-! ### Histories -/

theorem ordered_dependents : Rollout.Ordered Stack.dependents [] allStacks.reverse := by
  decide

/-- The stack is not creatable, or depends on one that is not. -/
abbrev Uncreatable (creatable : Stack → Prop) : Stack → Prop :=
  Rollout.Hindered Stack.dependencies fun s => ¬ creatable s

/-- With the names as they are, and a resource that never succeeds. -/
theorem uncreatable_iff (h : Accepted environment) (s : Stack) :
    Uncreatable (fun s => ¬ Stalled (Passes environment) s) s ↔ ¬ Attainable environment s := by
  simpa only [Uncreatable, not_not] using hindered_iff h s

/-- What a maintainer counts on at any time. -/
structure Manageable (environment : String) (creatable : Stack → Prop) [DecidablePred creatable]
    (clusters : Clusters) (a : Installation) : Prop where
  /-- a stack is only there while all it depends on stands, -/
  supported : ∀ s, a.phase s ≠ .absent → ∀ s' ∈ s.dependencies, a.phase s' = .standing
  /-- and only stands if it is creatable with all that -/
  standing : ∀ s, a.phase s = .standing → ¬ Uncreatable creatable s
  /-- behind `PostgresConfigStack` there is the database of the application -/
  configured : a.phase .postgresConfigStack = .standing →
    a.creator.state.server.Done databases schemas
  /-- everything can be taken down -/
  removable : ∃ os a', Runs.exec (operate environment creatable clusters) a os = some a' ∧
    ∀ s, a'.phase s = .absent
  /-- everything can be brought up that is creatable with all it depends on -/
  restorable : ∃ os a', Runs.exec (operate environment creatable clusters) a os = some a' ∧
    (∀ s ∈ appStacks environment, ¬ Uncreatable creatable s → a'.phase s = .standing) ∧
    (¬ Uncreatable creatable .postgresConfigStack →
      a'.creator.state.server.Done databases schemas)

omit [DecidablePred creatable] in
theorem not_uncreatable_of_standing (ha : Sound creatable clusters a) (hs : a.phase s = .standing) :
    ¬ Uncreatable creatable s := by
  refine Rollout.not_hindered_of_closed (a.phase · = .standing) (fun s hs s' hs' => ?_)
    (fun s hs => not_not.mpr (ha.standing s hs)) hs
  exact ha.supported s (by rw [hs]; decide) s' hs'

theorem exists_removed (hasking : clusters.Asking) (ha : Sound creatable clusters a) :
    ∃ os a', Runs.exec (operate environment creatable clusters) a os = some a' ∧
      ∀ s, a'.phase s = .absent := by
  have hsettles : ∀ s ∈ allStacks.reverse, Lifecycle.Settles Stack.dependents
      (operate environment creatable clusters) phase (Sound creatable clusters) .absent s :=
    fun s _ a ha hdependents => gets_absent hasking ha hdependents
  obtain ⟨os, a', hos, habsent, -⟩ := Lifecycle.exists_settled (fun _ _ _ => sound_operate) _
    hsettles ordered_dependents ha (by simp)
  exact ⟨os, a', hos, fun s => habsent s (List.mem_reverse.mpr (mem_allStacks s))⟩

theorem exists_restored (hasking : clusters.Asking) (ha : Sound creatable clusters a) :
    ∃ os a', Runs.exec (operate environment creatable clusters) a os = some a' ∧
      (∀ s ∈ appStacks environment, ¬ Uncreatable creatable s → a'.phase s = .standing) ∧
      (¬ Uncreatable creatable .postgresConfigStack →
        a'.creator.state.server.Done databases schemas) := by
  classical
  have hordered := (ordered_appStacks environment).filter (fun s => ¬ Uncreatable creatable s)
    fun s _ hs s' hs' h => hs (Rollout.hindered_of_dependency hs' h)
  have hsettles : ∀ s ∈ (appStacks environment).filter (fun s => ¬ Uncreatable creatable s),
      Lifecycle.Settles Stack.dependencies (operate environment creatable clusters) phase
        (Sound creatable clusters) .standing s := by
    intro s hs a ha hdeps
    obtain ⟨hmem, hfree⟩ := List.mem_filter.mp hs
    have hfree : ¬ Uncreatable creatable s := by simpa using hfree
    have hcreatable : creatable s := by
      by_contra h
      exact hfree (Rollout.hindered_of_stalled h)
    exact gets_standing hasking hmem hcreatable ha hdeps
  obtain ⟨os, a', hos, hstanding, -⟩ := Lifecycle.exists_settled (fun _ _ _ => sound_operate) _
    hsettles hordered ha (by simp)
  have hfree : ∀ s ∈ appStacks environment, ¬ Uncreatable creatable s → a'.phase s = .standing :=
    fun s hs hfree => hstanding s (List.mem_filter.mpr ⟨hs, by simpa using hfree⟩)
  refine ⟨os, a', hos, hfree, fun hconfig => (sound_exec hos ha).done ?_⟩
  exact hfree .postgresConfigStack (by simp [appStacks]) hconfig

theorem manageable_of_sound (hasking : clusters.Asking) (ha : Sound creatable clusters a) :
    Manageable environment creatable clusters a where
  supported := ha.supported
  standing _ hs := not_uncreatable_of_standing ha hs
  configured := ha.done
  removable := exists_removed hasking ha
  restorable := exists_restored hasking ha

/-- In every environment, every history is manageable at any time, whatever stacks are creatable,
however often they were deployed and destroyed, whatever of that failed and whatever became of the
invocations. -/
theorem always_manageable (environment : String) (creatable : Stack → Prop) [DecidablePred creatable]
    (clusters : Clusters) (hasking : clusters.Asking) (os : List Operation) :
    Always (operate environment creatable clusters) (begin clusters) os
      (Manageable environment creatable clusters) :=
  (always_of_invariant (sound_begin creatable clusters) (fun _ _ _ => sound_operate) os).mono
    fun _ => manageable_of_sound hasking

/-- No operation of any history takes a database or a schema away but the removal of the cluster; and
whenever that happens, neither `PostgresConfigStack` nor `EcsFargateStack` is there. -/
theorem kept_data (environment : String) (creatable : Stack → Prop) [DecidablePred creatable]
    (clusters : Clusters) (os : List Operation) :
    EachStep (operate environment creatable clusters) (begin clusters) os fun a o a' =>
      (a.creator.state.server.Extends a'.creator.state.server ∨ ∃ e, o = .stack e ∧ Removes e) ∧
        ∀ e, o = .stack e → Removes e →
          a.phase .postgresConfigStack = .absent ∧ a.phase .ecsFargateStack = .absent := by
  have hsound : Always (operate environment creatable clusters) (begin clusters) os
      (Sound creatable clusters) :=
    always_of_invariant (sound_begin creatable clusters) (fun _ _ _ => sound_operate) os
  intro past o a a' hpast hexec hoperate
  have ha := hsound past a ((List.prefix_append _ _).trans hpast) hexec
  rcases operate_cases hoperate with ⟨e, hlabel, hmove, -, -, hstack⟩ | ⟨i, act, rfl, rfl⟩
  · obtain ⟨hphase, hcases⟩ := move_eq_some hmove
    constructor
    · rcases hcases with ⟨hremoves, -⟩ | ⟨-, -, hcreator⟩
      · exact .inr ⟨e, hstack hremoves, hremoves⟩
      · rw [hcreator]
        exact .inl (Server.Extends.refl _)
    · rintro e rfl hremoves
      obtain rfl := Option.some.inj hlabel
      have hmoving := moving_of_removes hphase hremoves
      exact ⟨absent_of_moving ha.supported hmoving (by decide),
        absent_of_moving ha.supported hmoving (by decide)⟩
  · obtain ⟨schedule, hreached⟩ := ha.reached
    rw [hreached]
    exact ⟨.inl (run_extends _ _ schedule [(i, act)]), nofun⟩

end Asking

/-- Creations and deletions asked for in turns, of clusters that are empty at first. -/
def inTurns : Clusters where
  world _ := freshWorld
  secretArn _ := "secret"
  request _ i := if i % 2 = 0 then .Create else .Delete

theorem asking_inTurns : inTurns.Asking where
  creation n m := by
    refine ⟨2 * m, by omega, ?_⟩
    simp [inTurns]
  deletion n m := by
    refine ⟨2 * m + 1, by omega, ?_⟩
    simp [inTurns, Nat.add_mod]

/-- The creation of the cluster fails, and is tried again. -/
def retried : List Operation :=
  [.stack (.create .vpcStack), .stack (.created .vpcStack), .stack (.create .postgresDbStack),
    .stack (.rolledBack .postgresDbStack), .stack (.create .postgresDbStack)]

theorem always_manageable_prod :
    Always (operate "prod" (fun s => ¬ Stalled (Passes "prod") s) inTurns) (begin inTurns) retried
      (Manageable "prod" (fun s => ¬ Stalled (Passes "prod") s) inTurns) :=
  always_manageable "prod" (fun s => ¬ Stalled (Passes "prod") s) inTurns asking_inTurns retried

end Installation

end ModulithInfra.App
