import ModulithInfra.App.Stacks
import ModulithInfra.Postgres.Soundness
import ModulithInfra.Runs.Rollout

/-!
# The order of deployment

The deployment of the app as a rollout of its stacks, together with the invocations of the database
creator: `PostgresConfigStack` is complete once CloudFormation has received `SUCCESS` for its custom
resource, which the creator sends only on a server with the `ecomm` database and its schemas.

`EcsFargateStack` depends on every stack before it in the README's flow except
`PostgresConfigStack`. So the flow is kept in a run exactly when no step of it starts
`EcsFargateStack` while `PostgresConfigStack` is incomplete (`inOrder_iff`), which nothing in the
app prevents (`not_inOrder_prod`).
-/

namespace ModulithInfra.App

open Calls Postgres Runs

/-! ### The custom resource of `PostgresConfigStack` -/

/-- The property `Databases` of the custom resource `DatabaseCreator`. -/
def databases : List String := ["ecomm"]

/-- Its property `Schemas`. -/
def schemas : List String :=
  ["ordering", "payment", "platform", "product", "rag", "security", "shipping", "web"]

/-- The invocations for the custom resource: which request each carries is up to CloudFormation. -/
def invocations (request : Nat → RequestType) (secretArn : String) (i : Nat) : Invocation :=
  ⟨request i, secretArn, databases, schemas⟩

/-! ### Deployments -/

structure Deployment where
  phase : Stack → Rollout.Phase
  creator : Pool Nat Call.Answer Exn World Unit

inductive Event : Type where
  | stack (e : Rollout.Event Stack)
  /-- the custom resource takes the response of an invocation -/
  | configured (i : Nat)
  /-- an invocation makes its next call, or is killed -/
  | creator (i : Nat) (a : Act Exn)

instance (p : Pool Nat Call.Answer Exn World Unit) (i : Nat) (status : Status) :
    Decidable (Sent p i status) :=
  inferInstanceAs (Decidable (_ ∈ _))

/-- Only stacks of the environment are started, and `PostgresConfigStack` waits for its custom
resource. -/
def Possible (environment : String) : Rollout.Event Stack → Prop
  | .start s => s ∈ appStacks environment
  | .finish s => s ≠ .postgresConfigStack
  | .fail _ => True

instance (environment : String) (e : Rollout.Event Stack) : Decidable (Possible environment e) :=
  match e with
  | .start s => inferInstanceAs (Decidable (s ∈ appStacks environment))
  | .finish s => inferInstanceAs (Decidable (s ≠ .postgresConfigStack))
  | .fail _ => inferInstanceAs (Decidable True)

section Run

variable (environment : String) (request : Nat → RequestType) (secretArn : String) (w : World)

def initial : Deployment where
  phase _ := .waiting
  creator := launch (invocations request secretArn) w

def Deployment.move (d : Deployment) (e : Rollout.Event Stack) : Option Deployment :=
  (Rollout.step Stack.dependencies d.phase e).map fun phase => { d with phase := phase }

def step (d : Deployment) : Event → Option Deployment
  | .stack e => if Possible environment e then d.move e else none
  | .configured i =>
    if request i ≠ .Delete ∧ Sent d.creator i .SUCCESS then d.move (.finish .postgresConfigStack)
    else none
  | .creator i a =>
    if (d.phase .postgresConfigStack).Started then
      some { d with creator := d.creator.step exec (i, a) }
    else none

/-- The event as one of the rollout. -/
def Event.label : Event → Option (Rollout.Event Stack)
  | .stack e => some e
  | .configured _ => some (.finish .postgresConfigStack)
  | .creator _ _ => none

variable {environment request secretArn w} {d d' : Deployment}

theorem move_eq_some {e : Rollout.Event Stack} (h : d.move e = some d') :
    Rollout.step Stack.dependencies d.phase e = some d'.phase ∧ d'.creator = d.creator := by
  obtain ⟨phase, hphase, rfl⟩ := Option.map_eq_some_iff.mp h
  exact ⟨hphase, rfl⟩

/-- What a step can be. -/
theorem step_cases {e : Event} (h : step environment request d e = some d') :
    (∃ a, e = .stack a ∧ a ≠ .finish .postgresConfigStack ∧ d.move a = some d') ∨
    (∃ i, e = .configured i ∧ request i ≠ .Delete ∧ Sent d.creator i .SUCCESS ∧
      d.move (.finish .postgresConfigStack) = some d') ∨
    (∃ i a, e = .creator i a ∧ d' = { d with creator := d.creator.step exec (i, a) }) := by
  cases e with
  | stack a =>
    simp only [step] at h
    split_ifs at h with hpossible
    refine .inl ⟨a, rfl, ?_, h⟩
    rintro rfl
    exact hpossible rfl
  | configured i =>
    simp only [step] at h
    split_ifs at h with hsent
    exact .inr (.inl ⟨i, rfl, hsent.1, hsent.2, h⟩)
  | creator i a =>
    simp only [step] at h
    split_ifs at h
    exact .inr (.inr ⟨i, a, rfl, (Option.some.inj h).symm⟩)

variable (environment request) in
theorem follows_dependencies :
    Rollout.Follows Stack.dependencies (step environment request) Deployment.phase Event.label where
  move d e d' a hstep hlabel := by
    rcases step_cases hstep with ⟨b, rfl, -, hmove⟩ | ⟨i, rfl, -, -, hmove⟩ | ⟨i, b, rfl, -⟩
    · obtain rfl := Option.some.inj hlabel
      exact (move_eq_some hmove).1
    · obtain rfl := Option.some.inj hlabel
      exact (move_eq_some hmove).1
    · cases hlabel
  stay d e d' hstep hlabel := by
    rcases step_cases hstep with ⟨b, rfl, -, -⟩ | ⟨i, rfl, -, -, -⟩ | ⟨i, b, rfl, rfl⟩
    · cases hlabel
    · cases hlabel
    · rfl

/-! ### The database behind a complete `PostgresConfigStack` -/

/-- The creator's pool is some run of its invocations, and once the stack is complete nothing it
requests is missing. -/
structure Configured (request : Nat → RequestType) (secretArn : String) (w : World)
    (d : Deployment) : Prop where
  reached : ∃ s, d.creator = (launch (invocations request secretArn) w).run exec s
  done : d.phase .postgresConfigStack = .complete →
    d.creator.state.server.Done databases schemas

theorem configured_step {e : Event} (h : step environment request d e = some d')
    (hd : Configured request secretArn w d) : Configured request secretArn w d' := by
  obtain ⟨s, hs⟩ := hd.reached
  rcases step_cases h with ⟨a, rfl, ha, hmove⟩ | ⟨i, rfl, hrequest, hsent, hmove⟩ | ⟨i, a, rfl, rfl⟩
  · obtain ⟨hphase, hcreator⟩ := move_eq_some hmove
    refine ⟨⟨s, hcreator.trans hs⟩, fun hcomplete => ?_⟩
    have hbefore := (Rollout.complete_cases hphase hcomplete).resolve_right ha
    rw [hcreator]
    exact hd.done hbefore
  · obtain ⟨-, hcreator⟩ := move_eq_some hmove
    refine ⟨⟨s, hcreator.trans hs⟩, fun _ => ?_⟩
    rw [hcreator, hs]
    rw [hs] at hsent
    exact run_done (invocations request secretArn) w s hrequest hsent
  · have hrun : d.creator.step exec (i, a) =
        (launch (invocations request secretArn) w).run exec (s ++ [(i, a)]) := by
      rw [Pool.run_append, ← hs]
      rfl
    refine ⟨⟨_, hrun⟩, fun hcomplete => ?_⟩
    have hext := run_extends (invocations request secretArn) w s [(i, a)]
    rw [← hs] at hext
    exact hext.done (hd.done hcomplete)

theorem always_configured (es : List Event) :
    Always (step environment request) (initial request secretArn w) es
      (Configured request secretArn w) :=
  always_of_invariant ⟨⟨[], rfl⟩, fun h => by cases h⟩ (fun _ _ _ => configured_step) es

/-! ### The README's flow -/

/-- Once `EcsFargateStack` has started, every stack before it in the flow is complete, and the
database of the application is there with its schemas. -/
def InOrder (d : Deployment) : Prop :=
  (d.phase .ecsFargateStack).Started →
    (∀ s ∈ Stack.ecsFargateStack.predecessors, d.phase s = .complete) ∧
      d.creator.state.server.Done databases schemas

/-- The flow follows from the order between the last two stacks. -/
theorem inOrder_of_ordered (hd : Configured request secretArn w d)
    (hdeps : ∀ s, (d.phase s).Started → ∀ s' ∈ s.dependencies, d.phase s' = .complete)
    (hordered : (d.phase .ecsFargateStack).Started → d.phase .postgresConfigStack = .complete) :
    InOrder d := by
  intro hstarted
  refine ⟨fun s hs => ?_, hd.done (hordered hstarted)⟩
  rcases mem_dependencies_of_flow hs with hdep | rfl
  · exact hdeps _ hstarted s hdep
  · exact hordered hstarted

/-- The flow is kept in a run of the deployment if and only if no step of it starts
`EcsFargateStack` while `PostgresConfigStack` is incomplete. -/
theorem inOrder_iff (environment : String) (request : Nat → RequestType) (secretArn : String)
    (w : World) (es : List Event) :
    Always (step environment request) (initial request secretArn w) es InOrder ↔
      EachStep (step environment request) (initial request secretArn w) es fun d e _ =>
        e = .stack (.start .ecsFargateStack) → d.phase .postgresConfigStack = .complete := by
  have hfollows := follows_dependencies environment request
  have hwaiting : ∀ s, (initial request secretArn w).phase s = .waiting := fun _ => rfl
  have hiff := hfollows.always_ordered_iff hwaiting es .ecsFargateStack .postgresConfigStack
  have hlabel : ∀ e : Event, e.label = some (.start .ecsFargateStack) ↔
      e = .stack (.start .ecsFargateStack) := by
    intro e
    cases e <;> simp [Event.label]
  simp only [hlabel] at hiff
  rw [← hiff]
  constructor
  · intro h
    exact h.mono fun d hd hstarted => (hd hstarted).1 .postgresConfigStack (by decide)
  · intro h
    have hdeps := hfollows.always_dependencies hwaiting es
    refine ((always_configured es).and (hdeps.and h)).mono fun d hd => ?_
    exact inOrder_of_ordered hd.1 hd.2.1 hd.2.2

end Run

/-- All stacks but `PostgresConfigStack` one after the other, then `EcsFargateStack`. -/
def ecsBeforeConfig : List Event :=
  ([.vpcStack, .aiModelStack, .qdrantStack, .zipkinStack, .redisClusterStack, .documentDbStack,
    .postgresDbStack].flatMap fun s => [.stack (.start s), .stack (.finish s)]) ++
    [.stack (.start .ecsFargateStack)]

theorem not_inOrder_prod :
    ¬ Always (step "prod" fun _ => .Create) (initial (fun _ => .Create) "secret" freshWorld)
      ecsBeforeConfig InOrder := by
  intro h
  have hrun : ∃ d, exec (step "prod" fun _ => .Create) (initial (fun _ => .Create) "secret" freshWorld)
      ecsBeforeConfig = some d ∧ d.phase .ecsFargateStack = .running ∧
        d.phase .postgresConfigStack = .waiting :=
    ⟨_, rfl, rfl, rfl⟩
  obtain ⟨d, hd, hecs, hconfig⟩ := hrun
  have hcomplete := (h _ d (List.prefix_refl _) hd (by rw [hecs]; decide)).1
    .postgresConfigStack (by decide)
  rw [hconfig] at hcomplete
  cases hcomplete

end ModulithInfra.App
