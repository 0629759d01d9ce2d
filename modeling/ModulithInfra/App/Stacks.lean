import Mathlib.Logic.Relation

/-!
# The stacks of the app

The stacks `app.py` builds and the edges between them. A stack depends on another by an
`add_dependency` call, or because the tokens it was handed (`vpc`, `pg_info`, `docdb_info`, …) end
up in its template.
-/

namespace ModulithInfra.App

inductive Stack : Type where
  | vpcStack
  | aiModelStack
  | qdrantStack
  | zipkinStack
  | redisClusterStack
  | redisInsightStack
  | documentDbStack
  | postgresDbStack
  | postgresConfigStack
  | ecsFargateStack
  deriving DecidableEq

/-- The stacks built for an environment, in the order of `app.py`. -/
def appStacks (environment : String) : List Stack :=
  [.vpcStack, .aiModelStack, .qdrantStack, .zipkinStack, .redisClusterStack] ++
    (if environment = "dev" then [.redisInsightStack] else []) ++
    [.documentDbStack, .postgresDbStack, .postgresConfigStack, .ecsFargateStack]

/-- What one stack hands to the constructor of another. -/
inductive Info : Type where
  | vpc
  | pgInfo
  | docdbInfo
  | redisInfo
  | modelInfo
  | qdrantInfo
  | zipkinInfo

/-- The stack whose resources the tokens of an info refer to. -/
def Info.owner : Info → Stack
  | .vpc => .vpcStack
  | .pgInfo => .postgresDbStack
  | .docdbInfo => .documentDbStack
  | .redisInfo => .redisClusterStack
  | .modelInfo => .aiModelStack
  | .qdrantInfo => .qdrantStack
  | .zipkinInfo => .zipkinStack

/-- The infos a stack takes tokens from. -/
def Stack.consumes : Stack → List Info
  | .vpcStack => []
  | .aiModelStack => [.vpc]
  | .qdrantStack => [.vpc]
  | .zipkinStack => [.vpc]
  | .redisClusterStack => [.vpc]
  | .redisInsightStack => [.vpc, .redisInfo]
  | .documentDbStack => [.vpc]
  | .postgresDbStack => [.vpc]
  | .postgresConfigStack => [.vpc, .pgInfo]
  | .ecsFargateStack =>
      [.vpc, .docdbInfo, .pgInfo, .redisInfo, .modelInfo, .qdrantInfo, .zipkinInfo]

/-- The `add_dependency` calls on a stack. -/
def Stack.added : Stack → List Stack
  | .vpcStack => []
  | .aiModelStack => [.vpcStack]
  | .qdrantStack => [.vpcStack]
  | .zipkinStack => [.vpcStack]
  | .redisClusterStack => [.vpcStack]
  | .redisInsightStack => [.redisClusterStack]
  | .documentDbStack => [.vpcStack]
  | .postgresDbStack => [.vpcStack]
  | .postgresConfigStack => [.postgresDbStack]
  | .ecsFargateStack =>
      [.vpcStack, .redisClusterStack, .documentDbStack, .postgresDbStack, .aiModelStack,
        .qdrantStack]

def Stack.dependencies (s : Stack) : List Stack := s.added ++ s.consumes.map Info.owner

/-- The deployment flow of the README, up to the stack of the application. -/
def deploymentFlow : List Stack :=
  [.vpcStack, .documentDbStack, .postgresDbStack, .postgresConfigStack, .ecsFargateStack]

/-- The stacks the flow places before a stack. -/
def Stack.predecessors (s : Stack) : List Stack := deploymentFlow.takeWhile (· ≠ s)

/-- Every stack but `PostgresConfigStack` that comes before `EcsFargateStack` in the flow is a
dependency of it. -/
theorem mem_dependencies_of_flow {s : Stack} (h : s ∈ Stack.ecsFargateStack.predecessors) :
    s ∈ Stack.ecsFargateStack.dependencies ∨ s = .postgresConfigStack := by
  revert s
  decide

end ModulithInfra.App
