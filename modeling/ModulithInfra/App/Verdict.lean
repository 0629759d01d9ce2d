import ModulithInfra.App.LegalNames

/-!
# The stacks that the services accept

The names again, by the stack whose resources have them. A name that its service refuses fails the
stack, so `DocumentDbStack` and `PostgresDbStack` fail in every environment: the one for its master
user, the other for its database. The stacks of the hosts and of Redis have only their security groups
to lose, in the environments that look like the id of one.
-/

namespace ModulithInfra.App

open Text

/-- The names in a stack that a service has a rule for. -/
def Stack.ruledNames (environment : String) : Stack → List (RuledKind × String)
  | .vpcStack => []
  | .aiModelStack => [(.securityGroup, Name.modelSecurityGroup environment)]
  | .qdrantStack => [(.securityGroup, Name.qdrantSecurityGroup environment)]
  | .zipkinStack => [(.securityGroup, Name.zipkinSecurityGroup environment)]
  | .redisClusterStack => [(.securityGroup, Name.redisSecurityGroup environment)]
  | .redisInsightStack => [(.securityGroup, Name.redisInsightSecurityGroup environment)]
  | .documentDbStack =>
      [(.securityGroup, Name.documentDbSecurityGroup environment),
        (.clusterIdentifier, Name.documentDbCluster environment),
        (.masterUser, DocumentDb.documentDbMasterUser environment),
        (.function, Name.updateSecretFunction environment)]
  | .postgresDbStack =>
      [(.securityGroup, Name.postgresSecurityGroup environment),
        (.clusterIdentifier, Name.postgresCluster environment),
        (.databaseName, Name.defaultDatabase environment)]
  | .postgresConfigStack => [(.function, Name.dbCreatorFunction environment)]
  | .ecsFargateStack =>
      [(.role, Name.executionRole environment), (.role, Name.taskRole environment),
        (.loadBalancer, Name.ragLoadBalancer environment), (.loadBalancer, Name.mailLoadBalancer)] ++
      if environment = "dev" then [(.loadBalancer, Name.mongoExpressLoadBalancer)] else []

/-- These are the names of the deployment. -/
theorem mem_physicalNames_iff {environment name : String} {kind : RuledKind} :
    name ∈ physicalNames environment kind ↔
      ∃ s ∈ appStacks environment, (kind, name) ∈ s.ruledNames environment := by
  by_cases hdev : environment = "dev" <;> cases kind <;>
    simp [physicalNames, names, appStacks, Stack.ruledNames, hdev] <;> tauto

/-- The services accept every name in the stack. -/
def Passes (environment : String) (s : Stack) : Prop :=
  ∀ n ∈ s.ruledNames environment, n.1.rule.Obeys n.2

instance (environment : String) : DecidablePred (Passes environment) :=
  fun s => inferInstanceAs (Decidable (∀ n ∈ s.ruledNames environment, n.1.rule.Obeys n.2))

theorem not_passes_documentDbStack (environment : String) :
    ¬ Passes environment .documentDbStack := by
  intro h
  refine not_legal_masterUser environment fun name hname => ?_
  rw [List.mem_singleton.mp hname]
  exact h (.masterUser, DocumentDb.documentDbMasterUser environment) (by simp [Stack.ruledNames])

theorem not_passes_postgresDbStack (environment : String) :
    ¬ Passes environment .postgresDbStack := by
  intro h
  refine not_legal_databaseName environment fun name hname => ?_
  rw [List.mem_singleton.mp hname]
  exact h (.databaseName, Name.defaultDatabase environment) (by simp [Stack.ruledNames])

/-- The stacks with a security group and no other name that a service has a rule for. -/
def hostStacks : List Stack :=
  [.aiModelStack, .qdrantStack, .zipkinStack, .redisClusterStack, .redisInsightStack]

theorem passes_vpcStack (environment : String) : Passes environment .vpcStack := by
  simp [Passes, Stack.ruledNames]

/-- The endings of their security groups. -/
theorem ruledNames_hostStacks {s : Stack} (hs : s ∈ hostStacks) :
    ∃ ending, RuledKind.securityGroup.rule.Ends ending ∧
      ∀ environment, s.ruledNames environment = [(.securityGroup, environment ++ ending)] := by
  have hends : ∀ ending ∈ ["-model-ec2-sg", "-qdrant-ec2-sg", "-zipkin-ec2-sg", "-redis-sg",
      "-redis-insight-sg"], RuledKind.securityGroup.rule.Ends ending := by
    decide +kernel
  simp only [hostStacks, List.mem_cons, List.not_mem_nil, or_false] at hs
  rcases hs with rfl | rfl | rfl | rfl | rfl <;>
    exact ⟨_, hends _ (by simp), fun _ => rfl⟩

/-- In an accepted environment they pass if no security group looks like the id of one. -/
theorem passes_hostStacks_iff {environment : String} (h : Accepted environment) {s : Stack}
    (hs : s ∈ hostStacks) : Passes environment s ↔ Clear environment "sg" := by
  obtain ⟨ending, hending, hnames⟩ := ruledNames_hostStacks hs
  have hjoins := obeys_iff_joins h (by decide) hending
  simp only [Passes, hnames, List.forall_mem_singleton, hjoins]
  simp [Joins, RuledKind.rule]

end ModulithInfra.App
