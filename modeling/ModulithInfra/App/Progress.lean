import ModulithInfra.App.Deployment
import ModulithInfra.App.Verdict
import ModulithInfra.Postgres.Healthy
import ModulithInfra.Runs.Bringup

/-!
# How far a deployment can get

The deployment with the custom resources of both data stores, and the services' verdict on the names:
a stack is only complete if they accept its names, `DocumentDbStack` once its resource
`UpdateSecretWithEndpoints` has reported success, `PostgresConfigStack` once the database creator has.

The first resource never does, whatever the secret and the endpoint are (`stuck_advance`). So whatever
the services accept, the stacks that are ever complete are those that depend neither on
`DocumentDbStack` nor on a stack that is not accepted; and nothing else holds these up: from every
state of every run they can still be completed together, whatever has failed, was killed or was left
half done (`exists_completed`). With the names as they are, that leaves `VpcStack` and the stacks of
the hosts and of Redis (`completable_stacks`).
-/

namespace ModulithInfra.App

open Calls Postgres Runs

/-- A deployment, the secret of DocumentDB, and what its custom resource last reported. -/
structure Provisioning where
  deployment : Deployment
  secret : DocumentDb.World
  response : Option DocumentDb.Response

inductive Change : Type where
  | deployment (e : Event)
  /-- the resource `UpdateSecretWithEndpoints` is created -/
  | createSecretEndpoint (s : DocumentDb.Step)
  /-- it is updated -/
  | updateSecretEndpoint (s : DocumentDb.Step)

namespace Provisioning

def phase (p : Provisioning) : Stack → Rollout.Phase := p.deployment.phase

/-- The custom resource of `DocumentDbStack` has reported success. -/
def Responded (p : Provisioning) : Prop :=
  match p.response with
  | some (.success _) => True
  | _ => False

instance (p : Provisioning) : Decidable p.Responded := by
  unfold Responded
  split
  · exact .isTrue trivial
  · exact .isFalse id

/-- A stack may be complete: the services accept its names, and the custom resource of
`DocumentDbStack` has succeeded. -/
def MayFinish (accepts : Stack → Prop) (p : Provisioning) : Option (Rollout.Event Stack) → Prop
  | some (.finish s) => accepts s ∧ (s = .documentDbStack → p.Responded)
  | _ => True

instance (accepts : Stack → Prop) [DecidablePred accepts] (p : Provisioning)
    (e : Option (Rollout.Event Stack)) : Decidable (p.MayFinish accepts e) :=
  match e with
  | some (.finish s) =>
    inferInstanceAs (Decidable (accepts s ∧ (s = .documentDbStack → p.Responded)))
  | some (.start _) | some (.fail _) | none => .isTrue trivial

/-- The invocations of the database creator have gone on. -/
def withCreator (p : Provisioning) (creator : Pool Nat Call.Answer Exn World Unit) : Provisioning :=
  { p with deployment := { p.deployment with creator := creator } }

def receive (p : Provisioning) (r : DocumentDb.Report) : Provisioning :=
  { p with secret := r.after, response := some r.response }

end Provisioning

/-- The change as an event of the rollout. -/
def Change.label : Change → Option (Rollout.Event Stack)
  | .deployment e => e.label
  | .createSecretEndpoint _ => none
  | .updateSecretEndpoint _ => none

section Run

variable (environment : String) (accepts : Stack → Prop) [DecidablePred accepts]
variable (request : Nat → RequestType) (secretArn : String) (w : World) (secret : DocumentDb.World)

def begin : Provisioning where
  deployment := initial request secretArn w
  secret := secret
  response := none

/-- As the deployment goes on; a new start of `DocumentDbStack` forgets what was reported. -/
def advance (p : Provisioning) : Change → Option Provisioning
  | .deployment e =>
    if p.MayFinish accepts e.label then
      (step environment request p.deployment e).map fun d =>
        { p with
          deployment := d
          response := if e.label = some (.start .documentDbStack) then none else p.response }
    else none
  | .createSecretEndpoint s =>
    if p.phase .documentDbStack = .running then
      some (p.receive (DocumentDb.create environment p.secret s))
    else none
  | .updateSecretEndpoint s =>
    if p.phase .documentDbStack = .running then
      some (p.receive (DocumentDb.update environment p.secret s))
    else none

variable {environment accepts request secretArn w secret} {p p' : Provisioning}

/-- What a change can be. -/
theorem advance_cases {c : Change} (h : advance environment accepts request p c = some p') :
    (∃ e, c = .deployment e ∧ p.MayFinish accepts e.label ∧
      step environment request p.deployment e = some p'.deployment ∧ p'.secret = p.secret ∧
      (p'.response = p.response ∨ p'.response = none)) ∨
    (c.label = none ∧ ∃ s, p' = p.receive (DocumentDb.create environment p.secret s) ∨
      p' = p.receive (DocumentDb.update environment p.secret s)) := by
  cases c with
  | deployment e =>
    simp only [advance] at h
    split_ifs at h with hfinish
    · obtain ⟨d, hd, rfl⟩ := Option.map_eq_some_iff.mp h
      exact .inl ⟨e, rfl, hfinish, hd, rfl, .inr rfl⟩
    · obtain ⟨d, hd, rfl⟩ := Option.map_eq_some_iff.mp h
      exact .inl ⟨e, rfl, hfinish, hd, rfl, .inl rfl⟩
  | createSecretEndpoint s =>
    simp only [advance] at h
    split_ifs at h
    exact .inr ⟨rfl, s, .inl (Option.some.inj h).symm⟩
  | updateSecretEndpoint s =>
    simp only [advance] at h
    split_ifs at h
    exact .inr ⟨rfl, s, .inr (Option.some.inj h).symm⟩

variable (environment accepts request) in
theorem advance_follows :
    Rollout.Follows Stack.dependencies (advance environment accepts request) Provisioning.phase
      Change.label where
  move p c p' a h hlabel := by
    rcases advance_cases h with ⟨e, rfl, -, hstep, -⟩ | ⟨hnone, -⟩
    · exact (follows_dependencies environment request).move _ e _ a hstep hlabel
    · rw [hnone] at hlabel
      cases hlabel
  stay p c p' h hlabel := by
    rcases advance_cases h with ⟨e, rfl, -, hstep, -⟩ | ⟨-, s, rfl | rfl⟩
    · exact (follows_dependencies environment request).stay _ e _ hstep hlabel
    · rfl
    · rfl

/-! ### The stacks that are never complete -/

/-- The services refuse a name in the stack, or its custom resource never succeeds. -/
def Stalled (accepts : Stack → Prop) (s : Stack) : Prop := s = .documentDbStack ∨ ¬ accepts s

instance (accepts : Stack → Prop) [DecidablePred accepts] : DecidablePred (Stalled accepts) :=
  fun s => inferInstanceAs (Decidable (s = .documentDbStack ∨ ¬ accepts s))

/-- Nothing has been reported but failures, and no stalled stack is complete. -/
structure Stuck (accepts : Stack → Prop) (secret : DocumentDb.World) (p : Provisioning) : Prop where
  response : ¬ p.Responded
  phase : ∀ s, Stalled accepts s → p.phase s ≠ .complete
  secret : p.secret = secret

omit [DecidablePred accepts] in
theorem stuck_receive (hp : Stuck accepts secret p) (requestType : String) (s : DocumentDb.Step) :
    Stuck accepts secret (p.receive (DocumentDb.report environment
      (DocumentDb.sdkCall requestType environment p.secret.secretArn s.endpoint) p.secret s)) := by
  have hrefused := DocumentDb.refused_report requestType environment p.secret s
  refine ⟨fun hresponded => hrefused.failed ?_, hp.phase, hrefused.after.trans hp.secret⟩
  unfold Provisioning.Responded at hresponded
  split at hresponded
  case h_1 id hresponse => exact ⟨id, Option.some.inj hresponse⟩
  case h_2 => cases hresponded

/-- Every change keeps it so. -/
theorem stuck_advance {c : Change} (h : advance environment accepts request p c = some p')
    (hp : Stuck accepts secret p) : Stuck accepts secret p' := by
  rcases advance_cases h with ⟨e, rfl, hfinish, hstep, hsecret, hresponse⟩ | ⟨-, s, rfl | rfl⟩
  · refine ⟨?_, fun s hs hcomplete => ?_, hsecret.trans hp.secret⟩
    · rcases hresponse with hresponse | hresponse
      · have hresponded := hp.response
        unfold Provisioning.Responded at hresponded ⊢
        rwa [hresponse]
      · simp [Provisioning.Responded, hresponse]
    · cases hlabel : e.label with
      | none =>
        apply hp.phase s hs
        have hstay := (advance_follows environment accepts request).stay _ _ _ h hlabel
        rwa [hstay] at hcomplete
      | some a =>
        have hmove := (advance_follows environment accepts request).move _ _ _ a h hlabel
        rcases Rollout.complete_cases hmove hcomplete with hbefore | rfl
        · exact hp.phase s hs hbefore
        · rw [hlabel] at hfinish
          rcases hs with rfl | hrefused
          · exact hp.response (hfinish.2 rfl)
          · exact hrefused hfinish.1
  · exact stuck_receive hp "Create" s
  · exact stuck_receive hp "Update" s

/-! ### The stacks that can be completed -/

/-- A provisioning of a run. -/
structure Sound (accepts : Stack → Prop) (request : Nat → RequestType) (secretArn : String)
    (w : World) (secret : DocumentDb.World) (p : Provisioning) : Prop where
  configured : Configured request secretArn w p.deployment
  stuck : Stuck accepts secret p

omit [DecidablePred accepts] in
theorem sound_begin : Sound accepts request secretArn w secret (begin request secretArn w secret) where
  configured := ⟨⟨[], rfl⟩, fun h => by cases h⟩
  stuck := ⟨id, (fun _ _ h => by cases h), rfl⟩

theorem sound_advance {c : Change} (h : advance environment accepts request p c = some p')
    (hp : Sound accepts request secretArn w secret p) :
    Sound accepts request secretArn w secret p' := by
  refine ⟨?_, stuck_advance h hp.stuck⟩
  rcases advance_cases h with ⟨e, rfl, -, hstep, -⟩ | ⟨-, s, rfl | rfl⟩
  · exact configured_step hstep hp.configured
  · exact hp.configured
  · exact hp.configured

theorem sound_exec {cs : List Change}
    (h : Runs.exec (advance environment accepts request) p cs = some p')
    (hp : Sound accepts request secretArn w secret p) :
    Sound accepts request secretArn w secret p' :=
  always_of_invariant hp (fun _ _ _ => sound_advance) cs cs p' (List.prefix_refl _) h

variable (accepts) in
omit [DecidablePred accepts] in
theorem mayFinish_start (s : Stack) : p.MayFinish accepts (some (.start s)) := trivial

theorem advance_deployment {e : Event} {d : Deployment}
    (he : p.MayFinish accepts e.label)
    (h : step environment request p.deployment e = some d) :
    ∃ p', advance environment accepts request p (.deployment e) = some p' ∧ p'.deployment = d := by
  rw [advance, if_pos he, h]
  exact ⟨_, rfl, rfl⟩

variable (accepts request) in
/-- A stack whose dependencies are complete gets to run, unless it is complete. -/
theorem exists_running {s : Stack} (hs : s ∈ appStacks environment)
    (hdeps : ∀ s' ∈ s.dependencies, p.phase s' = .complete) :
    p.phase s = .complete ∨ ∃ cs p', Runs.exec (advance environment accepts request) p cs = some p' ∧
      p'.phase s = .running := by
  have hstart : p.phase s = .waiting ∨ p.phase s = .failed →
      ∃ cs p', Runs.exec (advance environment accepts request) p cs = some p' ∧
        p'.phase s = .running := by
    intro hphase
    have hstep : step environment request p.deployment (.stack (.start s)) =
        some { p.deployment with phase := Function.update p.deployment.phase s .running } := by
      have hmove := Rollout.step_start hphase hdeps
      unfold Provisioning.phase at hmove
      simp [step, Possible, hs, Deployment.move, hmove]
    obtain ⟨p', hp', hd⟩ := advance_deployment (mayFinish_start accepts s) hstep
    refine ⟨[.deployment (.stack (.start s))], p', by simp [Runs.exec, hp'], ?_⟩
    rw [Provisioning.phase, hd]
    exact Function.update_self ..
  cases hphase : p.phase s with
  | waiting => exact .inr (hstart (.inl hphase))
  | failed => exact .inr (hstart (.inr hphase))
  | running => exact .inr ⟨[], p, rfl, hphase⟩
  | complete => exact .inl rfl

omit [DecidablePred accepts] in
theorem mayFinish_of_not_stalled {s : Stack} (h : ¬ Stalled accepts s) :
    p.MayFinish accepts (some (.finish s)) := by
  obtain ⟨hdocdb, haccepts⟩ := not_or.mp h
  exact ⟨not_not.mp haccepts, fun hs => absurd hs hdocdb⟩

/-- A running stack that is accepted and has no custom resource can finish. -/
theorem exists_finished {s : Stack} (hconfig : s ≠ .postgresConfigStack)
    (hstalled : ¬ Stalled accepts s) (hrunning : p.phase s = .running) :
    ∃ cs p', Runs.exec (advance environment accepts request) p cs = some p' ∧
      p'.phase s = .complete := by
  have hstep : step environment request p.deployment (.stack (.finish s)) =
      some { p.deployment with phase := Function.update p.deployment.phase s .complete } := by
    have hmove := Rollout.step_finish Stack.dependencies hrunning
    unfold Provisioning.phase at hmove
    simp [step, Possible, hconfig, Deployment.move, hmove]
  obtain ⟨p', hp', hd⟩ := advance_deployment (mayFinish_of_not_stalled hstalled) hstep
  refine ⟨[.deployment (.stack (.finish s))], p', by simp [Runs.exec, hp'], ?_⟩
  rw [Provisioning.phase, hd]
  exact Function.update_self ..

/-! ### The creator, once more -/

variable (environment accepts request) in
/-- Once `PostgresConfigStack` has started, the invocations go on as they please. -/
theorem exec_creator (hstarted : (p.phase .postgresConfigStack).Started)
    (schedule : List (Nat × Act Exn)) :
    Runs.exec (advance environment accepts request) p
        (schedule.map fun a => .deployment (.creator a.1 a.2)) =
      some (p.withCreator (p.deployment.creator.run Postgres.exec schedule)) := by
  induction schedule generalizing p with
  | nil => rfl
  | cons a schedule ih =>
    have hstep : step environment request p.deployment (.creator a.1 a.2) =
        some { p.deployment with creator := p.deployment.creator.step Postgres.exec a } :=
      if_pos hstarted
    have hfinish : p.MayFinish accepts none := trivial
    have hadvance : advance environment accepts request p (.deployment (.creator a.1 a.2)) =
        some (p.withCreator (p.deployment.creator.step Postgres.exec a)) := by
      simp [advance, hfinish, Event.label, hstep, Provisioning.withCreator]
    rw [List.map_cons, Runs.exec, hadvance, Option.bind_some]
    exact ih (p := p.withCreator (p.deployment.creator.step Postgres.exec a)) hstarted

/-- Of invocations that go on coming, there is one that no schedule has touched. -/
theorem exists_fresh {P : Nat → Prop} (h : ∀ n, ∃ i, n ≤ i ∧ P i) (schedule : List (Nat × Act Exn)) :
    ∃ i, P i ∧ ∀ a ∈ schedule, a.1 ≠ i := by
  obtain ⟨n, hn⟩ := Finset.exists_nat_subset_range (schedule.map Prod.fst).toFinset
  obtain ⟨i, hni, hi⟩ := h n
  refine ⟨i, hi, fun a ha hai => ?_⟩
  have hmem : a.1 ∈ (schedule.map Prod.fst).toFinset :=
    List.mem_toFinset.mpr (List.mem_map_of_mem ha)
  have hlt := Finset.mem_range.mp (hn hmem)
  omega

/-- Such an invocation can go on to send what it sends on its own. -/
theorem exists_sent {v : Nat → Invocation} {creator : Pool Nat Call.Answer Exn World Unit}
    {schedule : List (Nat × Act Exn)} (hcreator : creator = (launch v w).run Postgres.exec schedule)
    {i : Nat} (hfresh : ∀ a ∈ schedule, a.1 ≠ i) {calls : List Call} {w' : World}
    (hsteps : Steps Postgres.exec (handler (v i).event) creator.state calls (.ret ()) w')
    {status : Status} (hstatus : status ∈ responses calls) :
    ∃ more, Sent (creator.run Postgres.exec more) i status := by
  have hthread : creator.thread i = .start (handler (v i).event) := by
    rw [hcreator, Pool.thread_run_of_forall_ne Postgres.exec _ hfresh]
    rfl
  obtain ⟨more, hmore, -, -⟩ := Pool.exists_alone (p := creator) (i := i) Postgres.exec
    (by rw [hthread]; rfl) hsteps
  refine ⟨more.map (·, .call .none), ?_⟩
  unfold Sent
  rw [hmore, hthread, delivered_append, delivered_map_none, responses_append]
  exact List.mem_append_right _ hstatus

/-- Whatever the invocations so far have done, one more can answer `SUCCESS`. -/
theorem exists_success (hrequest : ∀ n, ∃ i, n ≤ i ∧ request i ≠ .Delete)
    {creator : Pool Nat Call.Answer Exn World Unit} (hreached : ∃ schedule,
      creator = (launch (invocations request secretArn) w).run Postgres.exec schedule) :
    ∃ i schedule, request i ≠ .Delete ∧ Sent (creator.run Postgres.exec schedule) i .SUCCESS := by
  obtain ⟨schedule, hcreator⟩ := hreached
  obtain ⟨i, hi, hfresh⟩ := exists_fresh hrequest schedule
  obtain ⟨calls, hcalls, hsteps⟩ := steps_handler creator.state hi secretArn databases schemas
  have hsuccess : .SUCCESS ∈ responses calls := by
    rw [hcalls]
    decide
  obtain ⟨more, hsent⟩ := exists_sent hcreator hfresh hsteps hsuccess
  exact ⟨i, more, hi, hsent⟩

theorem exists_configured (hrequest : ∀ n, ∃ i, n ≤ i ∧ request i ≠ .Delete)
    (hstalled : ¬ Stalled accepts .postgresConfigStack)
    (hp : Sound accepts request secretArn w secret p)
    (hrunning : p.phase .postgresConfigStack = .running) :
    ∃ cs p', Runs.exec (advance environment accepts request) p cs = some p' ∧
      p'.phase .postgresConfigStack = .complete := by
  obtain ⟨i, schedule, hi, hsent⟩ := exists_success hrequest hp.configured.reached
  have hcreator := exec_creator environment accepts request (p := p) (by rw [hrunning]; decide)
    schedule
  set q := p.withCreator (p.deployment.creator.run Postgres.exec schedule)
  have hstep : step environment request q.deployment (.configured i) =
      some { q.deployment with
        phase := Function.update q.deployment.phase .postgresConfigStack .complete } := by
    have hsent : Sent q.deployment.creator i .SUCCESS := hsent
    have hrunning : q.deployment.phase .postgresConfigStack = .running := hrunning
    have hmove := Rollout.step_finish Stack.dependencies hrunning
    simp [step, hi, hsent, Deployment.move, hmove]
  obtain ⟨p', hp', hd⟩ := advance_deployment (mayFinish_of_not_stalled hstalled) hstep
  refine ⟨(schedule.map fun a => .deployment (.creator a.1 a.2)) ++ [.deployment (.configured i)],
    p', ?_, ?_⟩
  · have hlast : Runs.exec (advance environment accepts request) q [.deployment (.configured i)] =
        some p' := by simp [Runs.exec, hp']
    rw [exec_append, hcreator, Option.bind_some, hlast]
  · simp [Provisioning.phase, hd]

/-! ### Runs -/

/-- The stack is stalled, or depends on one that is. -/
abbrev Hindered (accepts : Stack → Prop) : Stack → Prop :=
  Rollout.Hindered Stack.dependencies (Stalled accepts)

theorem completable {s : Stack} (hs : s ∈ appStacks environment) (hstalled : ¬ Stalled accepts s)
    (hrequest : s = .postgresConfigStack → ∀ n, ∃ i, n ≤ i ∧ request i ≠ .Delete) :
    Rollout.Completable Stack.dependencies (advance environment accepts request) Provisioning.phase
      (Sound accepts request secretArn w secret) s := by
  intro p hp hdeps
  rcases exists_running accepts request hs hdeps with hcomplete | ⟨cs, p₁, hcs, hrunning⟩
  · exact ⟨[], p, rfl, hp, hcomplete⟩
  · have hp₁ := sound_exec hcs hp
    have hfinish : ∃ cs' p', Runs.exec (advance environment accepts request) p₁ cs' = some p' ∧
        p'.phase s = .complete := by
      by_cases hconfig : s = .postgresConfigStack
      · subst hconfig
        exact exists_configured (hrequest rfl) hstalled hp₁ hrunning
      · exact exists_finished hconfig hstalled hrunning
    obtain ⟨cs', p', hcs', hcomplete⟩ := hfinish
    refine ⟨cs ++ cs', p', ?_, sound_exec hcs' hp₁, hcomplete⟩
    rw [exec_append, hcs, Option.bind_some, hcs']

theorem ordered_appStacks (environment : String) :
    Rollout.Ordered Stack.dependencies [] (appStacks environment) := by
  unfold appStacks
  split_ifs
  · decide
  · decide

variable (environment) in
/-- Whatever the services accept, the stacks that are not hindered can be completed together, as long
as CloudFormation goes on asking for a database that it can get. -/
theorem exists_completed (hp : Sound accepts request secretArn w secret p)
    (hrequest : ¬ Hindered accepts .postgresConfigStack →
      ∀ n, ∃ i, n ≤ i ∧ request i ≠ .Delete) :
    ∃ more p', Runs.exec (advance environment accepts request) p more = some p' ∧
      (∀ s ∈ appStacks environment, ¬ Hindered accepts s → p'.phase s = .complete) ∧
      (¬ Hindered accepts .postgresConfigStack →
        p'.deployment.creator.state.server.Done databases schemas) := by
  classical
  have hordered := (ordered_appStacks environment).filter (fun s => ¬ Hindered accepts s)
    fun s _ hs s' hs' h => hs (Rollout.hindered_of_dependency hs' h)
  have hitems : ∀ s ∈ (appStacks environment).filter (fun s => ¬ Hindered accepts s),
      Rollout.Completable Stack.dependencies (advance environment accepts request)
        Provisioning.phase (Sound accepts request secretArn w secret) s := by
    intro s hs
    obtain ⟨hmem, hfree⟩ := List.mem_filter.mp hs
    have hfree : ¬ Hindered accepts s := by simpa using hfree
    refine completable hmem (fun hstalled => hfree (Rollout.hindered_of_stalled hstalled)) ?_
    rintro rfl
    exact hrequest hfree
  obtain ⟨more, p', hmore, hp', hcomplete⟩ :=
    (advance_follows environment accepts request).exists_complete _ hitems hordered hp (by simp)
  have hfree : ∀ s ∈ appStacks environment, ¬ Hindered accepts s → p'.phase s = .complete :=
    fun s hs hfree => hcomplete s (List.mem_filter.mpr ⟨hs, by simpa using hfree⟩)
  refine ⟨more, p', hmore, hfree, fun hconfig => hp'.configured.done ?_⟩
  exact hfree .postgresConfigStack (by simp [appStacks]) hconfig

variable (environment accepts request secretArn w secret) in
theorem always_sound (changes : List Change) :
    Always (advance environment accepts request) (begin request secretArn w secret) changes
      (Sound accepts request secretArn w secret) :=
  always_of_invariant sound_begin (fun _ _ _ => sound_advance) changes

/-- The others never are complete. -/
theorem always_not_complete {s : Stack} (hs : Hindered accepts s) (changes : List Change) :
    Always (advance environment accepts request) (begin request secretArn w secret) changes
      fun p => p.phase s ≠ .complete := by
  refine (advance_follows environment accepts request).always_not_complete (fun _ => rfl) ?_ hs
  exact fun s hs =>
    (always_sound environment accepts request secretArn w secret changes).mono fun p hp =>
      hp.stuck.phase s hs

/-- Before `PostgresConfigStack` starts, the database creator has done nothing. -/
theorem always_uninvoked (changes : List Change) :
    Always (advance environment accepts request) (begin request secretArn w secret) changes
      fun p => p.phase .postgresConfigStack = .waiting →
        p.deployment.creator = launch (invocations request secretArn) w := by
  refine always_of_invariant (fun _ => rfl) (fun p c p' h hp hwaiting => ?_) changes
  have hbefore := (advance_follows environment accepts request).waiting_of_waiting h hwaiting
  rcases advance_cases h with ⟨e, rfl, -, hstep, -⟩ | ⟨-, s, rfl | rfl⟩
  · rcases step_cases hstep with ⟨a, rfl, -, hmove⟩ | ⟨i, rfl, -, -, hmove⟩ | ⟨i, a, rfl, -⟩
    · rw [(move_eq_some hmove).2]
      exact hp hbefore
    · rw [(move_eq_some hmove).2]
      exact hp hbefore
    · have hwaiting : p.deployment.phase .postgresConfigStack = .waiting := hbefore
      simp [step, hwaiting, Rollout.Phase.Started] at hstep
  · exact hp hbefore
  · exact hp hbefore

/-! ### With the names as they are -/

/-- The stack of the VPC and, unless the environment looks like the id of a security group, those of
the hosts and of Redis. -/
def Attainable (environment : String) (s : Stack) : Prop :=
  s = .vpcStack ∨ s ∈ hostStacks ∧ Clear environment "sg"

theorem hindered_iff (h : Accepted environment) (s : Stack) :
    Hindered (Passes environment) s ↔ ¬ Attainable environment s := by
  constructor
  · rintro hhindered hattainable
    refine Rollout.not_hindered_of_closed (Attainable environment) ?_ ?_ hattainable hhindered
    · have hdeps : ∀ s ∈ hostStacks, ∀ s' ∈ s.dependencies, s' = .vpcStack ∨ s' ∈ hostStacks := by
        decide
      rintro s (rfl | ⟨hs, hclear⟩) s' hs'
      · cases hs'
      · exact (hdeps s hs s' hs').imp_right fun hs' => ⟨hs', hclear⟩
    · rintro s (rfl | ⟨hs, hclear⟩) (hdocdb | hrefused)
      · cases hdocdb
      · exact hrefused (passes_vpcStack environment)
      · subst hdocdb
        revert hs
        decide
      · exact hrefused ((passes_hostStacks_iff h hs).mpr hclear)
  · intro hattainable
    obtain ⟨hvpc, hhost⟩ := not_or.mp hattainable
    have hstalled : ∀ s, ¬ Passes environment s → Hindered (Passes environment) s :=
      fun s hs => Rollout.hindered_of_stalled (.inr hs)
    have hdocdb := hstalled _ (not_passes_documentDbStack environment)
    have hpostgres := hstalled _ (not_passes_postgresDbStack environment)
    by_cases hs : s ∈ hostStacks
    · exact hstalled s fun hpasses => hhost ⟨hs, (passes_hostStacks_iff h hs).mp hpasses⟩
    · cases s with
      | vpcStack => exact absurd rfl hvpc
      | documentDbStack => exact hdocdb
      | postgresDbStack => exact hpostgres
      | postgresConfigStack => exact Rollout.hindered_of_dependency (by decide) hpostgres
      | ecsFargateStack => exact Rollout.hindered_of_dependency (by decide) hdocdb
      | _ => exact absurd (by decide) hs

/-- How far a deployment is, and can get. -/
structure HeldUp (environment : String) (request : Nat → RequestType) (secretArn : String) (w : World)
    (secret : DocumentDb.World) (p : Provisioning) : Prop where
  /-- only attainable stacks are complete -/
  complete : ∀ s, p.phase s = .complete → Attainable environment s
  postgresConfigStack : p.phase .postgresConfigStack = .waiting
  ecsFargateStack : p.phase .ecsFargateStack = .waiting
  /-- the secret and the server are as they were, and the database creator has not begun -/
  secret : p.secret = secret
  creator : p.deployment.creator = launch (invocations request secretArn) w
  /-- the attainable stacks can be completed together -/
  attainable : ∃ more p', Runs.exec (advance environment (Passes environment) request) p more = some p' ∧
    ∀ s ∈ appStacks environment, Attainable environment s → p'.phase s = .complete

end Run

/-- `DocumentDbStack` of `prod` fails when its custom resource is created. -/
def documentDbFails : List Change :=
  [.deployment (.stack (.start .vpcStack)), .deployment (.stack (.finish .vpcStack)),
    .deployment (.stack (.start .documentDbStack)), .createSecretEndpoint DocumentDb.prodCreation,
    .deployment (.stack (.fail .documentDbStack))]

end ModulithInfra.App
