import ModulithInfra.App.Resources
import ModulithInfra.Runs.Lifecycle
import Mathlib.Data.Fintype.Defs

/-!
# References by name, to the end

The same resources over all of their history: created, rolled back, deleted and created again.
CloudFormation deletes a resource only after those that wait for it, and again knows nothing of a
literal name.

So the subnet group of the DocumentDB cluster and the namespace of the services stand as long as what
refers to them is there. The subnet group of Redis does exactly as long as no step starts to create the
replication group without it, or to delete it under the replication group (`namesHeld_iff`): a stack
that was created in order may still fail when it is deleted (`not_namesHeld_prod`).
-/

namespace ModulithInfra.App

open Runs Resource

theorem mem_all_dev (r : Resource) : r ∈ Resource.all "dev" := by
  cases r <;> decide

instance : Fintype Resource :=
  ⟨(Resource.all "dev").toFinset, fun r => List.mem_toFinset.mpr (mem_all_dev r)⟩

section History

variable (environment : String)

/-- Only the resources of the environment are created. -/
def Managed : Lifecycle.Event Resource → Prop
  | .create r => r ∈ Resource.all environment
  | _ => True

instance (e : Lifecycle.Event Resource) : Decidable (Managed environment e) :=
  match e with
  | .create r => inferInstanceAs (Decidable (r ∈ Resource.all environment))
  | .created _ | .rolledBack _ | .delete _ | .deleted _ => .isTrue trivial

def manageStep (phase : Resource → Lifecycle.Phase) (e : Lifecycle.Event Resource) :
    Option (Resource → Lifecycle.Phase) :=
  if Managed environment e then Lifecycle.step (resourceDependencies environment) phase e else none

/-- The state before any creation. -/
def noResources : Resource → Lifecycle.Phase := fun _ => .absent

theorem manage_follows :
    Lifecycle.Follows (resourceDependencies environment) (manageStep environment) id some where
  move phase e phase' a hstep he := by
    obtain rfl := Option.some.inj he
    unfold manageStep at hstep
    split_ifs at hstep
    exact hstep
  stay _ _ _ _ he := by cases he

end History

/-- What is referred to by name stands while the referring resource is there. -/
def NamesHeld (environment : String) (phase : Resource → Lifecycle.Phase) : Prop :=
  ∀ r n, RefersByName environment r n → phase r ≠ .absent → phase n = .standing

/-- All references by name hold throughout a history if and only if no step of it starts to create the
replication group while its subnet group does not stand, or to delete that while the replication group
is there. All but this one hold in every history. -/
theorem namesHeld_iff (environment : String) (es : List (Lifecycle.Event Resource)) :
    (Always (manageStep environment) noResources es (NamesHeld environment) ↔
      EachStep (manageStep environment) noResources es fun phase e _ =>
        (e = .create redisCluster → phase redisSubnetGroup = .standing) ∧
          (e = .delete redisSubnetGroup → phase redisCluster = .absent)) ∧
    Always (manageStep environment) noResources es fun phase =>
      ∀ r n, RefersByName environment r n → r ≠ redisCluster → phase r ≠ .absent →
        phase n = .standing := by
  have hfollows := manage_follows environment
  have habsent : ∀ r, noResources r = .absent := fun _ => rfl
  have hheld := fun r n => hfollows.always_standing_of_transGen (s := noResources) habsent es
    (i := r) (j := n)
  have hiff := hfollows.always_ordered_iff (s := noResources) habsent es redisCluster redisSubnetGroup
  simp only [Option.some.injEq, id_eq] at hiff
  rw [← hiff]
  refine ⟨⟨fun h => ?_, fun h past phase hpast hphase r n hname hpresent => ?_⟩,
    fun past phase hpast hphase r n hname hredis hpresent => ?_⟩
  · have hredis : RefersByName environment redisCluster redisSubnetGroup :=
      refersByName_iff.mpr (.inr (.inl ⟨rfl, rfl⟩))
    exact h.mono fun phase hphase => hphase _ _ hredis
  · rcases transGen_of_refersByName hname with hdeps | ⟨rfl, rfl⟩
    · exact hheld r n hdeps past phase hpast hphase hpresent
    · exact h past phase hpast hphase hpresent
  · rcases transGen_of_refersByName hname with hdeps | ⟨rfl, -⟩
    · exact hheld r n hdeps past phase hpast hphase hpresent
    · exact absurd rfl hredis

/-- The subnet group is deleted first. -/
def subnetGroupFirst : List (Lifecycle.Event Resource) :=
  [.create redisSubnetGroup, .created redisSubnetGroup, .create redisSecurityGroup,
    .created redisSecurityGroup, .create redisCluster, .created redisCluster,
    .delete redisSubnetGroup]

theorem not_namesHeld_prod :
    ¬ Always (manageStep "prod") noResources subnetGroupFirst (NamesHeld "prod") := by
  intro h
  have hrun : ∃ phase, exec (manageStep "prod") noResources subnetGroupFirst = some phase ∧
      phase redisCluster = .standing ∧ phase redisSubnetGroup = .deleting := by
    refine ⟨_, rfl, ?_, ?_⟩ <;> decide
  obtain ⟨phase, hphase, hcluster, hgroup⟩ := hrun
  have hname : RefersByName "prod" redisCluster redisSubnetGroup :=
    refersByName_iff.mpr (.inr (.inl ⟨rfl, rfl⟩))
  have hstanding := h _ phase (List.prefix_refl _) hphase _ _ hname (by rw [hcluster]; decide)
  rw [hgroup] at hstanding
  cases hstanding

end ModulithInfra.App
