import ModulithInfra.App.Stacks
import ModulithInfra.Text.Qualified

/-!
# Physical names

The explicit names that must be unique per account and region, by kind. Nearly all of them are the
environment followed by an ending of their own; the endings of one kind are suffix-free, so two
environments that differ never share such a name. The DocumentDB instance and the load balancer of
the mail service are named without the environment, and collide between any two deployments
(`isolated_iff`).
-/

namespace ModulithInfra.App

open Text

/-! ### The names of the source -/

def Stack.className : Stack → String
  | .vpcStack => "VpcStack"
  | .aiModelStack => "AiModelStack"
  | .qdrantStack => "QdrantStack"
  | .zipkinStack => "ZipkinStack"
  | .redisClusterStack => "RedisClusterStack"
  | .redisInsightStack => "RedisInsightStack"
  | .documentDbStack => "DocumentDBStack"
  | .postgresDbStack => "PostgresDBStack"
  | .postgresConfigStack => "PostgresConfigStack"
  | .ecsFargateStack => "EcsFargateStack"

namespace Name

variable (environment : String)

def stack (s : Stack) : String := environment ++ "-" ++ s.className

-- DocumentDBStack
def documentDbSubnetGroup : String := environment ++ "-documentdb-subnet-group"
def documentDbSecurityGroup : String := environment ++ "-documentdb-sg"
def documentDbCluster : String := environment ++ "-documentdb-cluster"
def documentDbInstance : String := "instance-1"
def updateSecretFunction : String := environment ++ "-documentdb-update-secret"

-- PostgresDBStack and PostgresConfigStack
def postgresCluster : String := environment ++ "-postgres-cluster"
def dbCreatorFunction : String := environment ++ "-postgres-db-creator"

-- RedisClusterStack
def redisSecurityGroup : String := environment ++ "-redis-sg"
def redisSubnetGroup : String := environment ++ "-redis-subnet-group"

-- EcsFargateStack and its services
def ecsCluster : String := environment ++ "-microservices"
def cloudMapNamespace : String := environment ++ ".local"
def executionRole : String := environment ++ "-MicroservicesEcsExecutionRole"
def taskRole : String := environment ++ "-MicroservicesEcsTaskRole"
def mcpService : String := environment ++ "-mcp-service"
def ragService : String := environment ++ "-rag-service"
def ragLoadBalancer : String := environment ++ "-spring-lb-service"
def ragExport : String := environment ++ "-RagServiceALB"
def mailService : String := "smtp-mail-svc"
def mailLoadBalancer : String := "micro-mail-svc-lb"
def mongoExpressService : String := "mongo-express-documentdb-svc"
def mongoExpressLoadBalancer : String := "mongo-exp-documentdb-lb"
def mongoExpressExport : String := "MongoExpressDocumentDBALB"
def ecommService : String := environment ++ "-ecomm-service"

end Name

/-- The kinds of names that must be unique per account and region. -/
inductive NameKind : Type where
  | stack
  | exportName
  | role
  | function
  | clusterIdentifier
  | instanceIdentifier
  | dbSubnetGroup
  | cacheSubnetGroup
  | ecsCluster
  | loadBalancer
  deriving DecidableEq

/-- The explicit names of a kind in the deployment for an environment. -/
def names (environment : String) : NameKind → List String
  | .stack => (appStacks environment).map (Name.stack environment)
  | .exportName =>
      Name.ragExport environment :: if environment = "dev" then [Name.mongoExpressExport] else []
  | .role => [Name.executionRole environment, Name.taskRole environment]
  | .function => [Name.updateSecretFunction environment, Name.dbCreatorFunction environment]
  | .clusterIdentifier => [Name.documentDbCluster environment, Name.postgresCluster environment]
  | .instanceIdentifier => [Name.documentDbInstance]
  | .dbSubnetGroup => [Name.documentDbSubnetGroup environment]
  | .cacheSubnetGroup => [Name.redisSubnetGroup environment]
  | .ecsCluster => [Name.ecsCluster environment]
  | .loadBalancer =>
      Name.ragLoadBalancer environment :: Name.mailLoadBalancer ::
        if environment = "dev" then [Name.mongoExpressLoadBalancer] else []

/-! ### Names with the environment -/

/-- The endings that follow the environment in the names of a kind. -/
def endings : NameKind → List String
  | .stack =>
      ["-VpcStack", "-AiModelStack", "-QdrantStack", "-ZipkinStack", "-RedisClusterStack",
        "-RedisInsightStack", "-DocumentDBStack", "-PostgresDBStack", "-PostgresConfigStack",
        "-EcsFargateStack"]
  | .exportName => ["-RagServiceALB"]
  | .role => ["-MicroservicesEcsExecutionRole", "-MicroservicesEcsTaskRole"]
  | .function => ["-documentdb-update-secret", "-postgres-db-creator"]
  | .clusterIdentifier => ["-documentdb-cluster", "-postgres-cluster"]
  | .instanceIdentifier => []
  | .dbSubnetGroup => ["-documentdb-subnet-group"]
  | .cacheSubnetGroup => ["-redis-subnet-group"]
  | .ecsCluster => ["-microservices"]
  | .loadBalancer => ["-spring-lb-service"]

/-- A name of a kind that every deployment, or every one for `dev`, has. -/
def Fixed (environment name : String) : NameKind → Prop
  | .exportName => environment = "dev" ∧ name = Name.mongoExpressExport
  | .instanceIdentifier => True
  | .loadBalancer => True
  | _ => False

theorem stack_eq (environment : String) (s : Stack) :
    ∃ ending ∈ endings .stack, Name.stack environment s = environment ++ ending := by
  refine ⟨"-" ++ s.className, ?_, String.append_assoc⟩
  cases s <;> decide

theorem names_cases {environment name : String} {kind : NameKind}
    (h : name ∈ names environment kind) :
    (∃ ending ∈ endings kind, name = environment ++ ending) ∨ Fixed environment name kind := by
  cases kind with
  | stack =>
    obtain ⟨s, -, rfl⟩ := List.mem_map.mp h
    exact .inl (stack_eq environment s)
  | exportName =>
    rcases List.mem_cons.mp h with rfl | h
    · exact .inl ⟨_, List.mem_singleton.mpr rfl, rfl⟩
    · split_ifs at h with hdev
      · exact .inr ⟨hdev, List.mem_singleton.mp h⟩
      · cases h
  | instanceIdentifier => exact .inr trivial
  | loadBalancer => exact .inr trivial
  | _ =>
    left
    simpa [names, endings, Name.executionRole, Name.taskRole, Name.updateSecretFunction,
      Name.dbCreatorFunction, Name.documentDbCluster, Name.postgresCluster,
      Name.documentDbSubnetGroup, Name.redisSubnetGroup, Name.ecsCluster] using h

/-- The endings of a kind, without their case, are suffix-free. -/
theorem suffixFree_endings (kind : NameKind) : SuffixFree ((endings kind).map ignoreCase) := by
  cases kind <;> decide +kernel

theorem mem_qualify (environment : String) {ending : String} {kind : NameKind} (h : ending ∈ endings kind) :
    ignoreCase (environment ++ ending) ∈
      qualify (ignoreCase environment) ((endings kind).map ignoreCase) := by
  rw [ignoreCase_append]
  exact List.mem_map_of_mem (List.mem_map_of_mem h)

/-! ### Isolation -/

/-- Two deployments share no name of a kind. -/
def Isolated (kind : NameKind) (environment environment' : String) : Prop :=
  (names environment kind).Disjoint (names environment' kind)

/-- Two deployments share no name of a kind, not even where names are compared without their case. -/
def IsolatedIgnoringCase (kind : NameKind) (environment environment' : String) : Prop :=
  ((names environment kind).map ignoreCase).Disjoint ((names environment' kind).map ignoreCase)

theorem IsolatedIgnoringCase.isolated {kind : NameKind} {environment environment' : String}
    (h : IsolatedIgnoringCase kind environment environment') :
    Isolated kind environment environment' := by
  apply List.disjoint_left.mpr
  intro name hname hname'
  exact List.disjoint_left.mp h (List.mem_map_of_mem hname) (List.mem_map_of_mem hname')

/-- The name of the Mongo Express export has none of the endings. -/
theorem mongoExpressExport_not_mem {q : List Char} :
    ignoreCase Name.mongoExpressExport ∉ qualify q ((endings .exportName).map ignoreCase) :=
  not_mem_qualify (by decide +kernel)

/-- Two environments share no names of a kind whose names all carry the environment. -/
theorem isolatedIgnoringCase {kind : NameKind} (hinstance : kind ≠ .instanceIdentifier)
    (hbalancer : kind ≠ .loadBalancer) {environment environment' : String}
    (hne : ignoreCase environment ≠ ignoreCase environment') :
    IsolatedIgnoringCase kind environment environment' := by
  -- a fixed name is that of the export of `dev`
  have hfixed : ∀ environment name, Fixed environment name kind →
      kind = .exportName ∧ environment = "dev" ∧ name = Name.mongoExpressExport := by
    intro environment name h
    cases kind with
    | exportName => exact ⟨rfl, h⟩
    | instanceIdentifier => exact absurd rfl hinstance
    | loadBalancer => exact absurd rfl hbalancer
    | _ => exact False.elim h
  apply List.disjoint_left.mpr
  intro text htext htext'
  obtain ⟨name, hname, rfl⟩ := List.mem_map.mp htext
  obtain ⟨name', hname', heq⟩ := List.mem_map.mp htext'
  rcases names_cases hname with ⟨ending, hending, rfl⟩ | hname
  · rcases names_cases hname' with ⟨ending', hending', rfl⟩ | hname'
    · have hmem' := mem_qualify environment' hending'
      rw [heq] at hmem'
      exact List.disjoint_left.mp (disjoint_qualify (suffixFree_endings kind) hne)
        (mem_qualify environment hending) hmem'
    · obtain ⟨rfl, -, rfl⟩ := hfixed _ _ hname'
      have hmem := mem_qualify environment hending
      rw [← heq] at hmem
      exact mongoExpressExport_not_mem hmem
  · obtain ⟨rfl, rfl, rfl⟩ := hfixed _ _ hname
    rcases names_cases hname' with ⟨ending', hending', rfl⟩ | hname'
    · have hmem' := mem_qualify environment' hending'
      rw [heq] at hmem'
      exact mongoExpressExport_not_mem hmem'
    · obtain ⟨-, rfl, -⟩ := hfixed _ _ hname'
      exact hne rfl

theorem not_isolated_instanceIdentifier (environment environment' : String) :
    ¬ Isolated .instanceIdentifier environment environment' := by
  intro h
  exact List.disjoint_left.mp h (List.mem_singleton.mpr rfl) (List.mem_singleton.mpr rfl)

theorem not_isolated_loadBalancer (environment environment' : String) :
    ¬ Isolated .loadBalancer environment environment' := by
  intro h
  have hmail : ∀ e : String, Name.mailLoadBalancer ∈ names e .loadBalancer := by simp [names]
  exact List.disjoint_left.mp h (hmail environment) (hmail environment')

/-- Environments that differ up to case share no name of a kind, compared with or without case, if
and only if the kind is neither that of DB instance identifiers nor that of load balancers. -/
theorem isolated_iff (kind : NameKind) (environment environment' : String)
    (hne : ignoreCase environment ≠ ignoreCase environment') :
    (Isolated kind environment environment' ↔
      kind ≠ .instanceIdentifier ∧ kind ≠ .loadBalancer) ∧
    (IsolatedIgnoringCase kind environment environment' ↔
      kind ≠ .instanceIdentifier ∧ kind ≠ .loadBalancer) := by
  have hshared : Isolated kind environment environment' →
      kind ≠ .instanceIdentifier ∧ kind ≠ .loadBalancer := by
    intro h
    constructor
    · rintro rfl
      exact not_isolated_instanceIdentifier _ _ h
    · rintro rfl
      exact not_isolated_loadBalancer _ _ h
  have hcarried : kind ≠ .instanceIdentifier ∧ kind ≠ .loadBalancer →
      IsolatedIgnoringCase kind environment environment' :=
    fun h => isolatedIgnoringCase h.1 h.2 hne
  exact ⟨⟨hshared, fun h => (hcarried h).isolated⟩, ⟨fun h => hshared h.isolated, hcarried⟩⟩

theorem ignoreCase_prod_ne_test : ignoreCase "prod" ≠ ignoreCase "test" := by
  decide +kernel

theorem isolated_iff_prod_test :
    ignoreCase "prod" ≠ ignoreCase "test" ∧
      ((Isolated .role "prod" "test" ↔
        NameKind.role ≠ .instanceIdentifier ∧ NameKind.role ≠ .loadBalancer) ∧
      (IsolatedIgnoringCase .role "prod" "test" ↔
        NameKind.role ≠ .instanceIdentifier ∧ NameKind.role ≠ .loadBalancer)) :=
  ⟨ignoreCase_prod_ne_test, isolated_iff .role "prod" "test" ignoreCase_prod_ne_test⟩

/-- Two environments cannot both have their DocumentDB instance. -/
theorem not_isolated_prod_test :
    ignoreCase "prod" ≠ ignoreCase "test" ∧ ¬ Isolated .instanceIdentifier "prod" "test" :=
  ⟨ignoreCase_prod_ne_test, not_isolated_instanceIdentifier "prod" "test"⟩

end ModulithInfra.App
