import ModulithInfra.App.Names
import ModulithInfra.Network.SecurityGroup

/-!
# Endpoints of the services

The services of the ECS stack, the endpoints they publish through Service Connect, and the ingress
rules of their tasks: those of the CDK pattern that builds the service, and those its construct adds.

`create_internal_service` opens the port of each service it builds to the VPC. Of the constructs
only the mail service does the like; the others publish a port that nothing but their own load
balancer, if they have one, can reach (`admitted_iff`).
-/

namespace ModulithInfra.Fargate

open Network App

/-- The security groups CDK creates for a service, which is given by its name. -/
inductive SecurityGroup : Type where
  | tasks (service : String)
  | loadBalancer (service : String)
  deriving DecidableEq

structure PortMapping where
  containerPort : Nat
  name : String

structure ServiceConnectService where
  portMappingName : String
  dnsName : String
  port : Nat

/-- The CDK constructs that build a service. -/
inductive Pattern : Type where
  | fargateService
  | applicationLoadBalancedFargateService

structure EcsService where
  serviceName : String
  pattern : Pattern
  portMappings : List PortMapping
  serviceConnect : List ServiceConnectService
  /-- the rules the source adds to the security group of the tasks -/
  addedRules : List (IngressRule SecurityGroup)

/-- The rules that come with the pattern: a load balancer reaches the first mapped port. -/
def EcsService.patternRules (s : EcsService) : List (IngressRule SecurityGroup) :=
  match s.pattern, s.portMappings with
  | .applicationLoadBalancedFargateService, mapping :: _ =>
      [⟨.securityGroup (.loadBalancer s.serviceName), mapping.containerPort⟩]
  | _, _ => []

/-- The ingress rules of the security group of the tasks. -/
def EcsService.ingressRules (s : EcsService) : List (IngressRule SecurityGroup) :=
  s.patternRules ++ s.addedRules

/-- A name of a service in the namespace, and the container port behind it. -/
structure Endpoint where
  service : EcsService
  dnsName : String
  containerPort : Nat

def EcsService.endpoints (s : EcsService) : List Endpoint :=
  s.serviceConnect.filterMap fun connect =>
    (s.portMappings.find? fun mapping => mapping.name = connect.portMappingName).map fun mapping =>
      ⟨s, connect.dnsName, mapping.containerPort⟩

/-- The rules behind the endpoint admit its port from the address. -/
def Endpoint.Admitted (members : SecurityGroup → Address → Prop) (e : Endpoint) (a : Address) : Prop :=
  Admits members e.service.ingressRules a e.containerPort

/-- The block of the VPC. -/
def vpcCidrBlock : Cidr := ⟨address 10 0 0 0, 16⟩

/-- An address inside the VPC. -/
abbrev VpcAddress := { a : Address // vpcCidrBlock.Contains a }

/-! ### `create_internal_service` -/

def grpcServices : List String :=
  ["grpc-order-svc", "grpc-product-svc", "grpc-customer-svc", "grpc-payment-svc",
    "grpc-shipping-svc"]

def createInternalService (name : String) : EcsService :=
  let isGrpc := name ∈ grpcServices
  { serviceName := name
    pattern := .fargateService
    portMappings := [if isGrpc then ⟨9090, "grpc"⟩ else ⟨8080, "http"⟩]
    serviceConnect := [⟨if isGrpc then "grpc" else "http", name, if isGrpc then 9090 else 8080⟩]
    addedRules := [⟨.ipv4 vpcCidrBlock, if isGrpc then 9090 else 8080⟩] }

theorem createInternalService_endpoints (name : String) : (createInternalService name).endpoints =
    [⟨createInternalService name, name, if name ∈ grpcServices then 9090 else 8080⟩] := by
  by_cases hgrpc : name ∈ grpcServices <;>
    simp [EcsService.endpoints, createInternalService, hgrpc]

/-- What it builds is reachable from the whole VPC. -/
theorem createInternalService_admitted (members : SecurityGroup → Address → Prop) (name : String)
    {e : Endpoint} (he : e ∈ (createInternalService name).endpoints) (a : VpcAddress) :
    e.Admitted members a := by
  rw [createInternalService_endpoints, List.mem_singleton] at he
  subst he
  simp [Endpoint.Admitted, EcsService.ingressRules, EcsService.patternRules, createInternalService,
    Peer.Matches, a.2]

/-! ### The constructs -/

def mcpService (environment : String) : EcsService where
  serviceName := Name.mcpService environment
  pattern := .fargateService
  portMappings := [⟨8075, environment ++ "-mcp-http"⟩]
  serviceConnect := [⟨environment ++ "-mcp-http", "mcp-svc", 8075⟩]
  addedRules := []

def ragService (environment : String) : EcsService where
  serviceName := Name.ragService environment
  pattern := .applicationLoadBalancedFargateService
  portMappings := [⟨8080, environment ++ "-rag-http"⟩]
  serviceConnect := [⟨environment ++ "-rag-http", "rag-svc", 8080⟩]
  addedRules := []

def mongoExpressService : EcsService where
  serviceName := Name.mongoExpressService
  pattern := .applicationLoadBalancedFargateService
  portMappings := [⟨8081, "http"⟩]
  serviceConnect := []
  addedRules := []

def mailService : EcsService where
  serviceName := Name.mailService
  pattern := .applicationLoadBalancedFargateService
  portMappings := [⟨1080, "http"⟩, ⟨1025, "smtp"⟩]
  serviceConnect := [⟨"smtp", "smtp-mail-svc", 1025⟩]
  addedRules := [⟨.anyIpv4, 1025⟩]

def ecommService (environment : String) : EcsService where
  serviceName := Name.ecommService environment
  pattern := .fargateService
  portMappings := [⟨8079, environment ++ "-ecomm-http"⟩]
  serviceConnect := [⟨environment ++ "-ecomm-http", "ecomm-svc", 8079⟩]
  addedRules := []

/-- The services of the ECS stack. -/
def services (environment : String) : List EcsService :=
  [mcpService environment, ragService environment] ++
    (if environment = "dev" then [mongoExpressService] else []) ++
    [mailService, ecommService environment]

def endpoints (environment : String) : List Endpoint :=
  (services environment).flatMap EcsService.endpoints

/-- What the stack publishes, whatever the environment. -/
theorem endpoints_eq (environment : String) : endpoints environment =
    [⟨mcpService environment, "mcp-svc", 8075⟩, ⟨ragService environment, "rag-svc", 8080⟩,
      ⟨mailService, "smtp-mail-svc", 1025⟩, ⟨ecommService environment, "ecomm-svc", 8079⟩] := by
  unfold endpoints services
  split_ifs <;>
    simp [EcsService.endpoints, mcpService, ragService, mongoExpressService, mailService,
      ecommService]

/-- An endpoint is reachable from an address of the VPC that is not that of its own load balancer if
and only if it is that of the mail service. -/
theorem admitted_iff (environment : String) (members : SecurityGroup → Address → Prop)
    (e : Endpoint) (he : e ∈ endpoints environment) (a : VpcAddress)
    (hbalancer : ¬ members (.loadBalancer e.service.serviceName) a) :
    e.Admitted members a ↔ e.dnsName = "smtp-mail-svc" := by
  rw [endpoints_eq] at he
  simp only [List.mem_cons, List.not_mem_nil, or_false] at he
  unfold Endpoint.Admitted EcsService.ingressRules EcsService.patternRules
  rcases he with rfl | rfl | rfl | rfl
  · simp [mcpService]
  · simp only [ragService] at hbalancer ⊢
    simp [Peer.Matches, hbalancer]
  · simp [mailService, matches_anyIpv4]
  · simp [ecommService]

/-- One address for every load balancer, and another in the VPC. -/
def oneBalancer (group : SecurityGroup) (a : Address) : Prop :=
  match group with
  | .tasks _ => False
  | .loadBalancer _ => a = address 10 0 0 10

def caller : VpcAddress := ⟨address 10 0 1 7, by decide⟩

theorem admitted_iff_rag :
    let e : Endpoint := ⟨ragService "prod", "rag-svc", 8080⟩
    e ∈ endpoints "prod" ∧ ¬ oneBalancer (.loadBalancer e.service.serviceName) caller ∧
      (e.Admitted oneBalancer caller ↔ e.dnsName = "smtp-mail-svc") := by
  intro e
  have he : e ∈ endpoints "prod" := by
    rw [endpoints_eq]
    simp [e]
  have hbalancer : ¬ oneBalancer (.loadBalancer e.service.serviceName) caller := by
    show ¬ address 10 0 1 7 = address 10 0 0 10
    decide
  exact ⟨he, hbalancer, admitted_iff "prod" oneBalancer e he caller hbalancer⟩

/-- No rule admits anyone to the port of the application. -/
theorem not_admitted_ecomm :
    let e : Endpoint := ⟨ecommService "prod", "ecomm-svc", 8079⟩
    e ∈ endpoints "prod" ∧ ¬ oneBalancer (.loadBalancer e.service.serviceName) caller ∧
      ¬ e.Admitted oneBalancer caller := by
  intro e
  have he : e ∈ endpoints "prod" := by
    rw [endpoints_eq]
    simp [e]
  have hbalancer : ¬ oneBalancer (.loadBalancer e.service.serviceName) caller := by
    show ¬ address 10 0 1 7 = address 10 0 0 10
    decide
  have hrules : e.service.ingressRules = [] := rfl
  refine ⟨he, hbalancer, ?_⟩
  rw [Endpoint.Admitted, hrules]
  exact not_admits_nil

end ModulithInfra.Fargate
