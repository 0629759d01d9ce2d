import ModulithInfra.App.Names
import ModulithInfra.Runs.Rollout

/-!
# References by name

The resources of the DocumentDB, Redis and ECS stacks, and the order in which CloudFormation may
create them. A property that holds a token (`Ref`, `GetAtt`) makes its resource wait for the one the
token refers to; a property that holds a literal name does not, even where it is the physical name
of another resource.

The DocumentDB cluster refers to its subnet group by name and has an explicit dependency on it; the
services refer to their namespace by name and wait for it through the cluster. The Redis replication
group has nothing of the kind, so all references by name are in order in a run exactly when no step
of it starts the replication group before its subnet group exists (`namesInOrder_iff`).
-/

namespace ModulithInfra.App

open Runs

/-- The resources the three stacks define; those CDK adds to them (log groups, listeners, policies)
refer to nothing by name. -/
inductive Resource : Type where
  -- DocumentDBStack
  | documentDbSecret
  | documentDbSubnetGroup
  | documentDbSecurityGroup
  | documentDb
  | documentDbInstance
  | updateLambda
  | updateSecretWithEndpoints
  -- RedisClusterStack
  | redisSecurityGroup
  | redisSubnetGroup
  | redisCluster
  -- EcsFargateStack
  | ecsCluster
  | cloudMapNamespace
  | executionRole
  | taskRole
  | mcpTaskDef
  | mcpService
  | ragTaskDef
  | ragService
  | mongoExpressTaskDef
  | mongoExpressService
  | mailTaskDef
  | mailService
  | ecommTaskDef
  | ecommService
  deriving DecidableEq

namespace Resource

/-- The resources created for an environment. -/
def all (environment : String) : List Resource :=
  [documentDbSecret, documentDbSubnetGroup, documentDbSecurityGroup, documentDb, documentDbInstance,
    updateLambda, updateSecretWithEndpoints, redisSecurityGroup, redisSubnetGroup, redisCluster,
    ecsCluster, cloudMapNamespace, executionRole, taskRole, mcpTaskDef, mcpService, ragTaskDef,
    ragService] ++
    (if environment = "dev" then [mongoExpressTaskDef, mongoExpressService] else []) ++
    [mailTaskDef, mailService, ecommTaskDef, ecommService]

/-- What a name can be the name of. -/
inductive Kind : Type where
  | secret
  | dbSubnetGroup
  | securityGroup
  | dbCluster
  | dbInstance
  | function
  | customResource
  | cacheSubnetGroup
  | replicationGroup
  | cluster
  | namespace
  | role
  | taskDefinition
  | service
  deriving DecidableEq

def kind : Resource → Kind
  | documentDbSecret => .secret
  | documentDbSubnetGroup => .dbSubnetGroup
  | documentDbSecurityGroup | redisSecurityGroup => .securityGroup
  | documentDb => .dbCluster
  | documentDbInstance => .dbInstance
  | updateLambda => .function
  | updateSecretWithEndpoints => .customResource
  | redisSubnetGroup => .cacheSubnetGroup
  | redisCluster => .replicationGroup
  | ecsCluster => .cluster
  | cloudMapNamespace => .namespace
  | executionRole | taskRole => .role
  | mcpTaskDef | ragTaskDef | mongoExpressTaskDef | mailTaskDef | ecommTaskDef => .taskDefinition
  | mcpService | ragService | mongoExpressService | mailService | ecommService => .service

/-- The physical name the source gives to a resource. -/
def physicalName (environment : String) : Resource → Option String
  | documentDbSubnetGroup => some (Name.documentDbSubnetGroup environment)
  | documentDbSecurityGroup => some (Name.documentDbSecurityGroup environment)
  | documentDb => some (Name.documentDbCluster environment)
  | documentDbInstance => some Name.documentDbInstance
  | updateLambda => some (Name.updateSecretFunction environment)
  | redisSecurityGroup => some (Name.redisSecurityGroup environment)
  | redisSubnetGroup => some (Name.redisSubnetGroup environment)
  | ecsCluster => some (Name.ecsCluster environment)
  | cloudMapNamespace => some (Name.cloudMapNamespace environment)
  | executionRole => some (Name.executionRole environment)
  | taskRole => some (Name.taskRole environment)
  | mcpService => some (Name.mcpService environment)
  | ragService => some (Name.ragService environment)
  | mongoExpressService => some Name.mongoExpressService
  | mailService => some Name.mailService
  | ecommService => some (Name.ecommService environment)
  | _ => none

end Resource

open Resource

/-- What a property holds: a text, or a token for another resource. -/
inductive Value : Type where
  | literal (text : String)
  | token (r : Resource)

/-- A property that refers to a thing of some kind. -/
structure Property where
  kind : Kind
  value : Value

/-- A property with a token for a resource: its `ref` or an attribute. -/
def ref (r : Resource) : Property := ⟨r.kind, .token r⟩

/-- `documentdb_subnet_group.db_subnet_group_name`: the text it was given. -/
def dbSubnetGroupName (environment : String) : Property :=
  ⟨.dbSubnetGroup, .literal (Name.documentDbSubnetGroup environment)⟩

/-- `redis_subnet_group.cache_subnet_group_name`: the text it was given. -/
def cacheSubnetGroupName (environment : String) : Property :=
  ⟨.cacheSubnetGroup, .literal (Name.redisSubnetGroup environment)⟩

/-- `namespace.namespace_name`: the text it was given. -/
def namespaceName (environment : String) : Property :=
  ⟨.namespace, .literal (Name.cloudMapNamespace environment)⟩

/-- The secret of the container registry, which no stack creates. -/
def containerRegistrySecret : Property := ⟨.secret, .literal "github-secret-token"⟩

/-- The properties of a resource that refer to others. -/
def properties (environment : String) : Resource → List Property
  | documentDbSecret | documentDbSubnetGroup | documentDbSecurityGroup => []
  | documentDb =>
      [ref documentDbSecret, ref documentDbSecurityGroup, dbSubnetGroupName environment]
  | documentDbInstance => [ref documentDb]
  | updateLambda => [ref documentDbSecret]
  | updateSecretWithEndpoints => [ref updateLambda, ref documentDbSecret, ref documentDb]
  | redisSecurityGroup | redisSubnetGroup => []
  | redisCluster => [cacheSubnetGroupName environment, ref redisSecurityGroup]
  -- the default namespace of a cluster is set by its ARN
  | ecsCluster => [ref cloudMapNamespace]
  | cloudMapNamespace | executionRole | taskRole => []
  | mcpTaskDef => [ref executionRole, ref taskRole, containerRegistrySecret]
  | mcpService => [ref ecsCluster, ref mcpTaskDef, namespaceName environment]
  | ragTaskDef => [ref executionRole, ref taskRole, containerRegistrySecret]
  | ragService => [ref ecsCluster, ref ragTaskDef, namespaceName environment]
  | mongoExpressTaskDef => [ref executionRole, ref taskRole, ref documentDbSecret]
  | mongoExpressService => [ref ecsCluster, ref mongoExpressTaskDef]
  | mailTaskDef => [ref executionRole]
  | mailService => [ref ecsCluster, ref mailTaskDef, namespaceName environment]
  | ecommTaskDef =>
      [ref executionRole, ref taskRole, containerRegistrySecret, ref documentDbSecret,
        ref redisCluster]
  | ecommService =>
      [ref ecsCluster, ref ecommTaskDef, namespaceName environment, ref documentDbSecurityGroup]

/-- The `add_dependency` calls: one on the DocumentDB cluster, the others between the constructs of
the services. -/
def explicitDependencies : Resource → List Resource
  | documentDb => [documentDbSubnetGroup]
  | ragTaskDef | ragService => [mcpTaskDef, mcpService]
  | ecommTaskDef | ecommService => [mcpTaskDef, mcpService, ragTaskDef, ragService]
  | _ => []

/-- The resources whose tokens a property holds. -/
def Property.tokens (p : Property) : List Resource :=
  match p.value with
  | .literal _ => []
  | .token r => [r]

/-- What a resource waits for. -/
def resourceDependencies (environment : String) (r : Resource) : List Resource :=
  explicitDependencies r ++ (properties environment r).flatMap Property.tokens

/-- A property of `r` holds the physical name of `n` as a literal. -/
def RefersByName (environment : String) (r n : Resource) : Prop :=
  ∃ p ∈ properties environment r, ∃ text, p = ⟨n.kind, .literal text⟩ ∧
    n.physicalName environment = some text

section Creation

variable (environment : String)

/-- Only the resources of the environment are created. -/
def Created : Rollout.Event Resource → Prop
  | .start r => r ∈ Resource.all environment
  | _ => True

instance (e : Rollout.Event Resource) : Decidable (Created environment e) :=
  match e with
  | .start r => inferInstanceAs (Decidable (r ∈ Resource.all environment))
  | .finish _ => inferInstanceAs (Decidable True)
  | .fail _ => inferInstanceAs (Decidable True)

def createStep (phase : Resource → Rollout.Phase) (e : Rollout.Event Resource) :
    Option (Resource → Rollout.Phase) :=
  if Created environment e then Rollout.step (resourceDependencies environment) phase e else none

/-- The state before any creation. -/
def notCreated : Resource → Rollout.Phase := fun _ => .waiting

theorem follows_resourceDependencies :
    Rollout.Follows (resourceDependencies environment) (createStep environment) id some where
  move phase e phase' a hstep he := by
    obtain rfl := Option.some.inj he
    unfold createStep at hstep
    split_ifs at hstep
    exact hstep
  stay _ _ _ _ he := by cases he

/-! ### Which references are by name -/

variable {environment} {r n : Resource}

theorem literal_cases {kind : Kind} {text : String}
    (h : (⟨kind, .literal text⟩ : Property) ∈ properties environment r) :
    r = documentDb ∧ kind = .dbSubnetGroup ∨ r = redisCluster ∧ kind = .cacheSubnetGroup ∨
      r ∈ [mcpService, ragService, mailService, ecommService] ∧ kind = .namespace ∨
      kind = .secret := by
  cases r <;> simp [properties, ref, dbSubnetGroupName, cacheSubnetGroupName, namespaceName,
    containerRegistrySecret] at h <;> simp [h]

/-- The kinds referred to by name have one resource each. -/
theorem eq_of_kind {m : Resource}
    (hm : m ∈ [documentDbSecret, documentDbSubnetGroup, redisSubnetGroup, cloudMapNamespace])
    (h : n.kind = m.kind) : n = m := by
  simp only [List.mem_cons, List.not_mem_nil, or_false] at hm
  rcases hm with rfl | rfl | rfl | rfl <;> cases n <;> first | rfl | cases h

/-- The references by name: of the DocumentDB cluster and the Redis replication group to their
subnet groups, and of the services with Service Connect to the namespace. -/
theorem refersByName_iff : RefersByName environment r n ↔
    r = documentDb ∧ n = documentDbSubnetGroup ∨ r = redisCluster ∧ n = redisSubnetGroup ∨
      r ∈ [mcpService, ragService, mailService, ecommService] ∧ n = cloudMapNamespace := by
  constructor
  · rintro ⟨p, hp, text, rfl, hname⟩
    rcases literal_cases hp with ⟨hr, hkind⟩ | ⟨hr, hkind⟩ | ⟨hr, hkind⟩ | hkind
    · exact .inl ⟨hr, eq_of_kind (by simp) hkind⟩
    · exact .inr (.inl ⟨hr, eq_of_kind (by simp) hkind⟩)
    · exact .inr (.inr ⟨hr, eq_of_kind (by simp) hkind⟩)
    · -- the only secret of the stacks has a generated name
      have hn : n = documentDbSecret := eq_of_kind (by simp) hkind
      rw [hn] at hname
      cases hname
  · rintro (⟨rfl, rfl⟩ | ⟨rfl, rfl⟩ | ⟨hr, rfl⟩)
    · exact ⟨dbSubnetGroupName environment, by simp [properties], _, rfl, rfl⟩
    · exact ⟨cacheSubnetGroupName environment, by simp [properties], _, rfl, rfl⟩
    · refine ⟨namespaceName environment, ?_, _, rfl, rfl⟩
      simp only [List.mem_cons, List.not_mem_nil, or_false] at hr
      rcases hr with rfl | rfl | rfl | rfl <;> simp [properties]

/-! ### Which of them are ordered -/

theorem documentDb_dependency :
    documentDbSubnetGroup ∈ resourceDependencies environment documentDb := by
  simp [resourceDependencies, explicitDependencies]

theorem cluster_dependency : cloudMapNamespace ∈ resourceDependencies environment ecsCluster := by
  simp [resourceDependencies, explicitDependencies, properties, ref, Property.tokens]

theorem service_dependency (h : r ∈ [mcpService, ragService, mailService, ecommService]) :
    ecsCluster ∈ resourceDependencies environment r := by
  simp only [List.mem_cons, List.not_mem_nil, or_false] at h
  rcases h with rfl | rfl | rfl | rfl <;>
    simp [resourceDependencies, explicitDependencies, properties, ref, Property.tokens]

/-- Every reference by name but the one of the replication group is backed by dependencies. -/
theorem transGen_of_refersByName (h : RefersByName environment r n) :
    Relation.TransGen (fun i j => j ∈ resourceDependencies environment i) r n ∨
      r = redisCluster ∧ n = redisSubnetGroup := by
  rcases refersByName_iff.mp h with ⟨rfl, rfl⟩ | hredis | ⟨hr, rfl⟩
  · exact .inl (.single documentDb_dependency)
  · exact .inr hredis
  · exact .inl (.tail (.single (service_dependency hr)) cluster_dependency)

end Creation

/-- What is referred to by name exists once the creation of the referring resource has started. -/
def NamesInOrder (environment : String) (phase : Resource → Rollout.Phase) : Prop :=
  ∀ r n, RefersByName environment r n → (phase r).Started → phase n = .complete

/-- All references by name are in order in a run of CloudFormation if and only if no step of it
starts the Redis replication group before its cache subnet group is complete. -/
theorem namesInOrder_iff (environment : String) (es : List (Rollout.Event Resource)) :
    Always (createStep environment) notCreated es (NamesInOrder environment) ↔
      EachStep (createStep environment) notCreated es fun phase e _ =>
        e = .start redisCluster → phase redisSubnetGroup = .complete := by
  have hfollows := follows_resourceDependencies environment
  have hwaiting : ∀ r, notCreated r = .waiting := fun _ => rfl
  have hiff := hfollows.always_ordered_iff (s := notCreated) hwaiting es redisCluster redisSubnetGroup
  simp only [Option.some.injEq, id_eq] at hiff
  rw [← hiff]
  constructor
  · intro h
    have hredis : RefersByName environment redisCluster redisSubnetGroup :=
      refersByName_iff.mpr (.inr (.inl ⟨rfl, rfl⟩))
    exact h.mono fun phase hphase => hphase _ _ hredis
  · intro h past phase hpast hphase r n hname hstarted
    rcases transGen_of_refersByName hname with hdeps | ⟨rfl, rfl⟩
    · exact hfollows.always_complete_of_transGen (s := notCreated) hwaiting es hdeps past phase hpast hphase hstarted
    · exact h past phase hpast hphase hstarted

/-- The replication group is started as soon as its security group exists. -/
def redisBeforeSubnetGroup : List (Rollout.Event Resource) :=
  [.start redisSecurityGroup, .finish redisSecurityGroup, .start redisCluster]

theorem not_namesInOrder_prod :
    ¬ Always (createStep "prod") notCreated redisBeforeSubnetGroup (NamesInOrder "prod") := by
  intro h
  have hrun : ∃ phase, exec (createStep "prod") notCreated redisBeforeSubnetGroup = some phase ∧
      phase redisCluster = .running ∧ phase redisSubnetGroup = .waiting :=
    ⟨_, rfl, rfl, rfl⟩
  obtain ⟨phase, hphase, hcluster, hgroup⟩ := hrun
  have hname : RefersByName "prod" redisCluster redisSubnetGroup :=
    refersByName_iff.mpr (.inr (.inl ⟨rfl, rfl⟩))
  have hcomplete := h _ phase (List.prefix_refl _) hphase _ _ hname (by rw [hcluster]; decide)
  rw [hgroup] at hcomplete
  cases hcomplete

end ModulithInfra.App
