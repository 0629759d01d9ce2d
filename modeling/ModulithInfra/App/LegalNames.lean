import ModulithInfra.App.Environment
import ModulithInfra.DocumentDb.UpdateSecret

/-!
# What the services say to the names

The environment is checked as the beginning of a stack id and nowhere else, but it begins the names of
half a dozen services as well, each with a rule of its own. For every accepted environment this file
says which of its names are legal (`legal_iff`). The two names that the databases take, the DocumentDB
master user and the Aurora database, are put together with a hyphen that their rules do not know, so
that no environment at all has only legal names.
-/

namespace ModulithInfra.App

open Text

/-! ### The names of the source -/

namespace Name

variable (environment : String)

def zipkinSecurityGroup : String := environment ++ "-zipkin-ec2-sg"
def qdrantSecurityGroup : String := environment ++ "-qdrant-ec2-sg"
def modelSecurityGroup : String := environment ++ "-model-ec2-sg"
def redisInsightSecurityGroup : String := environment ++ "-redis-insight-sg"
def postgresSecurityGroup : String := environment ++ "-PostgresDBSG"
def defaultDatabase : String := environment ++ "-monolithservices"

end Name

/-- The kinds of names that a service has a rule for. -/
inductive RuledKind : Type where
  | loadBalancer
  | role
  | function
  | securityGroup
  | clusterIdentifier
  | masterUser
  | databaseName
  deriving DecidableEq

/-- The names of a kind in the deployment for an environment. -/
def physicalNames (environment : String) : RuledKind → List String
  | .loadBalancer => names environment .loadBalancer
  | .role => names environment .role
  | .function => names environment .function
  | .securityGroup =>
      [Name.zipkinSecurityGroup environment, Name.qdrantSecurityGroup environment,
        Name.modelSecurityGroup environment, Name.redisSecurityGroup environment,
        Name.documentDbSecurityGroup environment, Name.postgresSecurityGroup environment] ++
      if environment = "dev" then [Name.redisInsightSecurityGroup environment] else []
  | .clusterIdentifier => names environment .clusterIdentifier
  | .masterUser => [DocumentDb.documentDbMasterUser environment]
  | .databaseName => [Name.defaultDatabase environment]

/-! ### The rules of the services -/

def RuledKind.rule : RuledKind → Rule
  | .loadBalancer =>
      { maxLength := some 32, char := fun c => c.isAlphanum || c = '-', reserved := ["internal"],
        last := false }
  | .role => { maxLength := some 64 }
  | .function => { maxLength := some 64 }
  | .securityGroup => { reserved := ["sg"] }
  | .clusterIdentifier => { maxLength := some 63, double := false, last := false }
  | .masterUser =>
      { minLength := 1, maxLength := some 63, first := Char.isAlpha, char := Char.isAlphanum }
  | .databaseName =>
      { minLength := 1, maxLength := some 63, first := Char.isAlpha,
        char := fun c => c.isAlphanum || c = '_' }

/-- Every name of the kind obeys the rule of its service. -/
def Legal (environment : String) (kind : RuledKind) : Prop :=
  ∀ name ∈ physicalNames environment kind, kind.rule.Obeys name

instance (environment : String) (kind : RuledKind) : Decidable (Legal environment kind) :=
  inferInstanceAs (Decidable (∀ name ∈ _, _))

/-- No name begins with the word and a hyphen when this environment does not. -/
def Clear (environment word : String) : Prop :=
  environment ≠ word ∧ ¬ word.toList ++ ['-'] <+: environment.toList

/-- When the names of a kind are legal. -/
def Fits (environment : String) : RuledKind → Prop
  | .loadBalancer => environment.toList.length ≤ 14 ∧ Clear environment "internal"
  | .role => environment.toList.length ≤ 34
  | .function => environment.toList.length ≤ 39
  | .securityGroup => Clear environment "sg"
  | .clusterIdentifier =>
      environment.toList.length ≤ 44 ∧ ¬ ['-', '-'] <:+: environment.toList ∧
        ¬ ['-'] <:+ environment.toList
  | .masterUser => False
  | .databaseName => False

/-! ### Names with the environment -/

/-- Of the rules, only those of the databases have less than stack names in their characters. -/
theorem permits_stackNamePattern {kind : RuledKind} (hkind : kind ∉ [.masterUser, .databaseName]) :
    kind.rule.Permits stackNamePattern := by
  cases kind with
  | masterUser => simp at hkind
  | databaseName => simp at hkind
  | loadBalancer => exact ⟨Nat.zero_le _, fun _ _ => rfl, fun _ hc => hc⟩
  | _ => exact ⟨Nat.zero_le _, fun _ _ => rfl, fun _ _ => rfl⟩

/-- The endings that follow the environment, by the kind of the name. -/
def ruledEndings : RuledKind → List String
  | .loadBalancer => ["-spring-lb-service"]
  | .role => ["-MicroservicesEcsExecutionRole", "-MicroservicesEcsTaskRole"]
  | .function => ["-documentdb-update-secret", "-postgres-db-creator"]
  | .securityGroup =>
      ["-zipkin-ec2-sg", "-qdrant-ec2-sg", "-model-ec2-sg", "-redis-sg", "-documentdb-sg",
        "-PostgresDBSG"]
  | .clusterIdentifier => ["-documentdb-cluster", "-postgres-cluster"]
  | .masterUser => []
  | .databaseName => []

theorem ends_ruledEndings (kind : RuledKind) :
    ∀ ending ∈ ruledEndings kind, kind.rule.Ends ending := by
  cases kind <;> decide +kernel

/-- The names without the environment, and that of the stack for `dev` alone, are legal. -/
theorem obeys_fixed :
    (∀ name ∈ [Name.mailLoadBalancer, Name.mongoExpressLoadBalancer],
      RuledKind.loadBalancer.rule.Obeys name) ∧
    RuledKind.securityGroup.rule.Obeys (Name.redisInsightSecurityGroup "dev") := by
  decide +kernel

/-- The environment is short enough for an ending, and its hyphens do not clash with the rule. -/
def Joins (environment : String) (rule : Rule) (ending : String) : Prop :=
  (∀ m ∈ rule.maxLength, environment.toList.length + ending.toList.length ≤ m) ∧
  (∀ word ∈ rule.reserved, Clear environment word) ∧
  (rule.double = false → ¬ ['-', '-'] <:+: environment.toList ∧ ¬ ['-'] <:+ environment.toList)

section Accepted

variable {environment : String} (h : Accepted environment)
include h

/-- A name that joins an accepted environment to an ending obeys its rule if the environment joins the
ending. -/
theorem obeys_iff_joins {kind : RuledKind} (hkind : kind ∉ [.masterUser, .databaseName])
    {ending : String} (hending : kind.rule.Ends ending) :
    kind.rule.Obeys (environment ++ ending) ↔ Joins environment kind.rule ending := by
  have hpattern := ((accepted_iff environment).mp h).1
  exact (Rule.obeys_append_iff h.ne_empty hending).trans
    (Rule.room_iff_of_permits (permits_stackNamePattern hkind) hpattern _)

/-- Of the names that join an accepted environment to an ending, those are legal whose ending the
environment joins. -/
theorem legal_iff_joins (kind : RuledKind) (hkind : kind ∉ [.masterUser, .databaseName])
    {rest : List String}
    (hnames : physicalNames environment kind = (ruledEndings kind).map (environment ++ ·) ++ rest) :
    Legal environment kind ↔ (∀ ending ∈ ruledEndings kind, Joins environment kind.rule ending) ∧
      ∀ name ∈ rest, kind.rule.Obeys name := by
  have hobeys : ∀ ending ∈ ruledEndings kind,
      (kind.rule.Obeys (environment ++ ending) ↔ Joins environment kind.rule ending) :=
    fun ending hending => obeys_iff_joins h hkind (ends_ruledEndings kind ending hending)
  unfold Legal
  rw [hnames, List.forall_mem_append, List.forall_mem_map]
  exact and_congr_left' (forall₂_congr hobeys)

theorem legal_loadBalancer_iff :
    Legal environment .loadBalancer ↔ Fits environment .loadBalancer := by
  have hfixed : ∀ name ∈ Name.mailLoadBalancer ::
      (if environment = "dev" then [Name.mongoExpressLoadBalancer] else []),
      RuledKind.loadBalancer.rule.Obeys name := by
    intro name hname
    rcases List.mem_cons.mp hname with rfl | hname
    · exact obeys_fixed.1 _ (by simp)
    split_ifs at hname with hdev
    · exact obeys_fixed.1 name (List.mem_cons_of_mem _ hname)
    · cases hname
  rw [legal_iff_joins h .loadBalancer (by decide) rfl, and_iff_left hfixed]
  simp [Joins, ruledEndings, RuledKind.rule, Fits]

theorem legal_role_iff : Legal environment .role ↔ Fits environment .role := by
  rw [legal_iff_joins h .role (by decide) rfl]
  simp [Joins, ruledEndings, RuledKind.rule, Fits]
  omega

theorem legal_function_iff : Legal environment .function ↔ Fits environment .function := by
  rw [legal_iff_joins h .function (by decide) rfl]
  simp [Joins, ruledEndings, RuledKind.rule, Fits]
  omega

theorem legal_securityGroup_iff :
    Legal environment .securityGroup ↔ Fits environment .securityGroup := by
  have hinsight : ∀ name ∈
      (if environment = "dev" then [Name.redisInsightSecurityGroup environment] else []),
      RuledKind.securityGroup.rule.Obeys name := by
    intro name hname
    split_ifs at hname with hdev
    · rw [List.mem_singleton.mp hname, hdev]
      exact obeys_fixed.2
    · cases hname
  rw [legal_iff_joins h .securityGroup (by decide) rfl, and_iff_left hinsight]
  simp [Joins, ruledEndings, RuledKind.rule, Fits]

theorem legal_clusterIdentifier_iff :
    Legal environment .clusterIdentifier ↔ Fits environment .clusterIdentifier := by
  rw [legal_iff_joins h .clusterIdentifier (by decide) rfl]
  simp [Joins, ruledEndings, RuledKind.rule, Fits]
  intro hlength hdouble hlast
  exact ⟨by omega, hdouble, hlast⟩

end Accepted

/-! ### Names with a hyphen too many -/

/-- The master user has the hyphen after the environment, which its rule does not allow. -/
theorem not_legal_masterUser (environment : String) : ¬ Legal environment .masterUser := by
  intro h
  have hhyphen : '-' ∈ "-docadmin".toList := by simp
  exact Rule.not_obeys_append hhyphen rfl (h _ (List.mem_singleton.mpr rfl))

theorem not_legal_databaseName (environment : String) : ¬ Legal environment .databaseName := by
  intro h
  have hhyphen : '-' ∈ "-monolithservices".toList := by simp
  exact Rule.not_obeys_append hhyphen rfl (h _ (List.mem_singleton.mpr rfl))

/-- For every accepted environment the names of a kind are legal exactly as far as they fit, and some
kind has a name that is not. -/
theorem legal_iff (environment : String) (h : Accepted environment) :
    (∀ kind, Legal environment kind ↔ Fits environment kind) ∧
      ¬ ∀ kind, Legal environment kind := by
  refine ⟨fun kind => ?_, fun hlegal => not_legal_masterUser environment (hlegal .masterUser)⟩
  cases kind with
  | loadBalancer => exact legal_loadBalancer_iff h
  | role => exact legal_role_iff h
  | function => exact legal_function_iff h
  | securityGroup => exact legal_securityGroup_iff h
  | clusterIdentifier => exact legal_clusterIdentifier_iff h
  | masterUser => exact iff_of_false (not_legal_masterUser environment) id
  | databaseName => exact iff_of_false (not_legal_databaseName environment) id

example : Legal "prod" .loadBalancer ∧ ¬ Legal "production-eu-1" .loadBalancer := by
  decide +kernel

theorem accepted_prod : Accepted "prod" :=
  (accepted_iff "prod").mpr ⟨obeys_prod, by simp⟩

theorem legal_iff_prod :
    Accepted "prod" ∧ (∀ kind, Legal "prod" kind ↔ Fits "prod" kind) ∧
      ¬ ∀ kind, Legal "prod" kind :=
  ⟨accepted_prod, legal_iff "prod" accepted_prod⟩

/-- `prod` is accepted, and its master user is `prod-docadmin`. -/
theorem not_legal_prod : Accepted "prod" ∧ ¬ ∀ kind, Legal "prod" kind :=
  ⟨accepted_prod, fun h => not_legal_masterUser "prod" (h .masterUser)⟩

end ModulithInfra.App
