import ModulithInfra.Fargate.Endpoints
import ModulithInfra.Runs.History
import ModulithInfra.Systemd.Before
import Mathlib.Data.Finset.Basic
import Mathlib.Data.Finset.Filter

/-!
# The Docker hosts

Qdrant, Zipkin and Redis Insight run as one container each on an instance of their own. The user data
of the instance, which runs on its first boot only, installs Docker and creates the container; from
then on the daemon brings the container up.

The container is the last thing the user data makes, so nobody ever gets to one on a host that is not
fully prepared. Once it is there, a boot is all it takes to bring it up again, and every address of
the VPC then gets to it at the port the stack gives out. But a host whose user data failed or was cut
off before that never serves anyone (`dockerHost_life`).
-/

namespace ModulithInfra.Hosts

open Fargate Network Runs Systemd

inductive RestartPolicy : Type where
  | no
  | always
  deriving DecidableEq

/-- The options of a `docker run -d`. -/
structure Container where
  name : String
  /-- `-p`, the port of the host first -/
  ports : List (Nat × Nat)
  environment : List (String × String)
  /-- `-v`, the path on the host first -/
  volume : String × String
  restart : RestartPolicy
  image : String
  deriving DecidableEq

/-! ### Commands -/

inductive Fact : Type where
  | installed (package : String)
  | enabled (unit : String)
  | member (group user : String)
  | directory (path : String)
  | owner (path user : String)
  | image (reference : String)
  /-- the container was created and started -/
  | container (c : Container)
  | active (unit : String)
  | up (c : Container)
  deriving DecidableEq

/-- What does not survive the end of the daemon. -/
def Fact.volatile : Fact → Bool
  | .active _ => true
  | .up _ => true
  | _ => false

abbrev World := Finset Fact

/-- The world once no daemon runs. -/
def settled (w : World) : World := w.filter fun f => f.volatile = false

@[simp] theorem mem_settled {w : World} {f : Fact} : f ∈ settled w ↔ f ∈ w ∧ f.volatile = false :=
  Finset.mem_filter

inductive Command : Type where
  | dnfUpdate
  | dnfInstall (package : String)
  /-- `systemctl enable --now` -/
  | enableNow (unit : String)
  /-- `usermod -aG` -/
  | usermod (group user : String)
  | mkdir (path : String)
  | chown (user path : String)
  | export (name value : String)
  /-- `sudo -u user docker pull` -/
  | dockerPull (user reference : String)
  /-- `sudo -u user docker run -d` -/
  | dockerRun (user : String) (c : Container)

/-- What has to hold for a command to succeed; the package of Docker brings its unit and its group. -/
def needs : Command → List Fact
  | .enableNow unit => [.installed unit]
  | .usermod group _ => [.installed group]
  | .chown _ path => [.directory path]
  | .dockerPull user _ => [.active "docker", .member "docker" user]
  | .dockerRun user _ => [.active "docker", .member "docker" user]
  | _ => []

/-- What a command makes. -/
def makes : Command → List Fact
  | .dnfInstall package => [.installed package]
  | .enableNow unit => [.enabled unit, .active unit]
  | .usermod group user => [.member group user]
  | .mkdir path => [.directory path]
  | .chown user path => [.owner path user]
  | .dockerPull _ reference => [.image reference]
  | .dockerRun _ c => [.image c.image, .container c, .up c]
  | .dnfUpdate => []
  | .export _ _ => []

/-- What a command may have made when it fails. A container that was never started does not count, as
the daemon does not start it either. -/
def leftovers : Command → List Fact
  | .dnfInstall package => [.installed package]
  | .enableNow unit => [.enabled unit]
  | .dockerRun _ c => [.image c.image]
  | _ => []

/-- The registry serves what the command fetches. -/
def Served (registry : List String) (w : World) : Command → Prop
  | .dockerPull _ reference => reference ∈ registry
  | .dockerRun _ c => .image c.image ∈ w ∨ c.image ∈ registry
  | _ => True

instance (registry : List String) (w : World) (c : Command) : Decidable (Served registry w c) :=
  match c with
  | .dockerPull _ reference => inferInstanceAs (Decidable (reference ∈ registry))
  | .dockerRun _ c => inferInstanceAs (Decidable (.image c.image ∈ w ∨ c.image ∈ registry))
  | .dnfUpdate | .dnfInstall _ | .enableNow _ | .usermod _ _ | .mkdir _ | .chown _ _ | .export _ _ =>
      .isTrue trivial

section Effect

variable (registry : List String)

def effect : Effect Command World
  | c, w, true, w' =>
    (∀ f ∈ needs c, f ∈ w) ∧ Served registry w c ∧ w' = w ∪ (makes c).toFinset
  | c, w, false, w' => w' = w ∨ Served registry w c ∧ w ⊆ w' ∧ w' ⊆ w ∪ (leftovers c).toFinset

instance (c : Command) (w : World) (ok : Bool) (w' : World) : Decidable (effect registry c w ok w') :=
  match ok with
  | true =>
    have := List.decidableBAll (· ∈ w) (needs c)
    inferInstanceAs (Decidable
      ((∀ f ∈ needs c, f ∈ w) ∧ Served registry w c ∧ w' = w ∪ (makes c).toFinset))
  | false =>
    inferInstanceAs (Decidable
      (w' = w ∨ Served registry w c ∧ w ⊆ w' ∧ w' ⊆ w ∪ (leftovers c).toFinset))

/-- What holds after a command has succeeded. -/
def sure (c : Command) : List Fact := needs c ++ makes c

def Passes (f : Fact) (c : Command) : Prop := f ∈ sure c

def Adds (f : Fact) (c : Command) : Prop := f ∈ makes c

theorem leftovers_subset (c : Command) : leftovers c ⊆ makes c := by
  cases c <;> simp [leftovers, makes]

variable {registry} {c : Command} {w w' : World} {ok : Bool}

theorem effect_keeps (h : effect registry c w ok w') : w ⊆ w' := by
  cases ok with
  | true =>
    obtain ⟨-, -, rfl⟩ := h
    exact Finset.subset_union_left
  | false =>
    rcases h with rfl | ⟨-, hsub, -⟩
    · exact Finset.Subset.refl _
    · exact hsub

/-- A fact that was not there before is one the command makes, served by the registry. -/
theorem effect_adds (h : effect registry c w ok w') {f : Fact} (hf : f ∈ w') :
    f ∈ w ∨ Served registry w c ∧ f ∈ makes c ∧ (ok = true ∨ f ∈ leftovers c) := by
  cases ok with
  | true =>
    obtain ⟨-, hserved, rfl⟩ := h
    exact (Finset.mem_union.mp hf).imp_right fun hf => ⟨hserved, List.mem_toFinset.mp hf, .inl rfl⟩
  | false =>
    rcases h with rfl | ⟨hserved, -, hsub⟩
    · exact .inl hf
    · refine (Finset.mem_union.mp (hsub hf)).imp_right fun hf => ?_
      have hleft := List.mem_toFinset.mp hf
      exact ⟨hserved, leftovers_subset c hleft, .inr hleft⟩

variable (registry) in
/-- Commands keep facts, and add those they make. -/
theorem sequenced (f g : Fact) : Sequenced (effect registry) (f ∈ ·) (g ∈ ·)
    (Passes f) (Adds g) where
  keeps h hf := effect_keeps h hf
  adds h hg := (effect_adds h hg).imp_right fun h => h.2.1
  passes {c w w'} h hf := by
    obtain ⟨hneeds, -, rfl⟩ := h
    rcases List.mem_append.mp hf with hf | hf
    · exact Finset.mem_union_left _ (hneeds f hf)
    · exact Finset.mem_union_right _ (List.mem_toFinset.mpr hf)

end Effect

/-! ### The three hosts -/

structure DockerHost where
  ingressRules : List (IngressRule Empty)
  /-- the port of the info that the stack gives out -/
  port : Nat
  storage : String
  exports : List (String × String)
  /-- the argument of `docker pull` -/
  pulled : String
  container : Container

def user : String := "ec2-user"

/-- The exports, then the rest of a script. -/
def exportAll (exports : List (String × String)) (rest : Script Command) : Script Command :=
  exports.foldr (fun setting rest => .run (.export setting.1 setting.2) rest) rest

def DockerHost.userData (h : DockerHost) : Script Command :=
  .run .dnfUpdate <|
  .run (.dnfInstall "docker") <|
  .run (.enableNow "docker") <|
  .run (.usermod "docker" user) <|
  .run (.mkdir h.storage) <|
  .run (.chown user h.storage) <|
  exportAll h.exports <|
  .run (.dockerPull user h.pulled) <|
  .run (.dockerRun user h.container) .exit

def qdrant : DockerHost where
  ingressRules :=
    [⟨.ipv4 vpcCidrBlock, 22⟩, ⟨.ipv4 vpcCidrBlock, 6333⟩, ⟨.ipv4 vpcCidrBlock, 6334⟩]
  port := 6334
  storage := "/home/ec2-user/qdrant_storage"
  exports := []
  pulled := "qdrant/qdrant"
  container :=
    { name := "qdrant"
      ports := [(6333, 6333), (6334, 6334)]
      environment := []
      volume := ("/home/ec2-user/qdrant_storage", "/qdrant/storage")
      restart := .always
      image := "qdrant/qdrant" }

def zipkin : DockerHost where
  ingressRules := [⟨.ipv4 vpcCidrBlock, 22⟩, ⟨.ipv4 vpcCidrBlock, 9411⟩]
  port := 9411
  storage := "/home/ec2-user/zipkin_storage"
  exports := []
  pulled := "openzipkin/zipkin"
  container :=
    { name := "zipkin"
      ports := [(9411, 9411)]
      environment := []
      volume := ("/home/ec2-user/zipkin_storage", "/zipkin/storage")
      restart := .always
      image := "openzipkin/zipkin" }

/-- The image that is pulled is not the one that is run. -/
def redisInsight (redisEndpoint : String) : DockerHost where
  ingressRules := [⟨.anyIpv4, 5540⟩]
  port := 5540
  storage := "/home/ec2-user/insight_storage"
  exports := [("RI_REDIS_HOST", redisEndpoint)]
  pulled := "redis-insight:latest"
  container :=
    { name := "redis-insight"
      ports := [(5540, 5540)]
      environment := [("RI_REDIS_HOST", redisEndpoint)]
      volume := ("/home/ec2-user/insight_storage", "/insight/storage")
      restart := .always
      image := "redis/redisinsight:latest" }

def dockerHosts (redisEndpoint : String) : List DockerHost :=
  [qdrant, zipkin, redisInsight redisEndpoint]

/-! ### Machines -/

structure Machine where
  /-- what is left of the user data; `none` once it failed or the machine was booted again -/
  userData : Option (Script Command)
  world : World

inductive Event : Type where
  /-- the user data executes its next command -/
  | userData (ok : Bool) (w : World)
  /-- the daemon is started, being enabled -/
  | dockerd
  /-- the daemon starts a container again -/
  | restart (c : Container)
  | crash (c : Container)
  /-- the daemon ends, and the containers with it -/
  | dockerdExit
  | boot

section Run

variable (registry : List String)

def step (m : Machine) : Event → Option Machine
  | .userData ok w =>
    match m.userData.bind Script.current with
    | some c =>
      if effect registry c m.world ok w then some ⟨m.userData.bind (·.next ok), w⟩ else none
    | none => none
  | .dockerd =>
    if .installed "docker" ∈ m.world ∧ .enabled "docker" ∈ m.world then
      some { m with world := insert (.active "docker") m.world }
    else none
  | .restart c =>
    if .active "docker" ∈ m.world ∧ .container c ∈ m.world ∧ c.restart = .always then
      some { m with world := insert (.up c) m.world }
    else none
  | .crash c => some { m with world := m.world.erase (.up c) }
  | .dockerdExit => some { m with world := settled m.world }
  | .boot => some ⟨none, settled m.world⟩

/-- The first boot of a fresh instance. -/
def launch (h : DockerHost) : Machine := ⟨some h.userData, ∅⟩

variable {registry} {m m' : Machine} {e : Event} {f g : Fact}

/-- What a step can be: a command of the user data, or one that changes nothing but what is volatile. -/
theorem step_cases (h : step registry m e = some m') :
    (∃ p c ok, m.userData = some p ∧ p.current = some c ∧ effect registry c m.world ok m'.world ∧
      m'.userData = p.next ok) ∨
    ((m'.userData = m.userData ∨ m'.userData = none) ∧
      (∀ f, f.volatile = false → (f ∈ m'.world ↔ f ∈ m.world)) ∧
      ∀ c, .up c ∈ m'.world → .up c ∈ m.world ∨ .container c ∈ m.world) := by
  cases e with
  | userData ok w =>
    simp only [step] at h
    split at h
    case h_1 c hc =>
      split_ifs at h with heffect
      obtain ⟨p, hp, hcurrent⟩ := Option.bind_eq_some_iff.mp hc
      obtain rfl := Option.some.inj h
      exact .inl ⟨p, c, ok, hp, hcurrent, heffect, by rw [hp, Option.bind_some]⟩
    case h_2 => cases h
  | dockerd =>
    simp only [step] at h
    split_ifs at h
    obtain rfl := Option.some.inj h
    refine .inr ⟨.inl rfl, fun f hf => ?_, fun c hc => ?_⟩
    · rw [Finset.mem_insert, or_iff_right]
      rintro rfl
      cases hf
    · exact .inl ((Finset.mem_insert.mp hc).resolve_left nofun)
  | restart c =>
    simp only [step] at h
    split_ifs at h with hguard
    obtain rfl := Option.some.inj h
    refine .inr ⟨.inl rfl, fun f hf => ?_, fun c' hc' => ?_⟩
    · rw [Finset.mem_insert, or_iff_right]
      rintro rfl
      cases hf
    · rcases Finset.mem_insert.mp hc' with heq | hc'
      · obtain rfl := Fact.up.inj heq
        exact .inr hguard.2.1
      · exact .inl hc'
  | crash c =>
    obtain rfl := Option.some.inj h
    refine .inr ⟨.inl rfl, fun f hf => ?_, fun c' hc' => ?_⟩
    · rw [Finset.mem_erase, and_iff_right]
      rintro rfl
      cases hf
    · exact .inl (Finset.mem_of_mem_erase hc')
  | dockerdExit =>
    obtain rfl := Option.some.inj h
    refine .inr ⟨.inl rfl, fun f hf => ?_, fun c hc => ?_⟩
    · simp [hf]
    · simp [Fact.volatile] at hc
  | boot =>
    obtain rfl := Option.some.inj h
    refine .inr ⟨.inr rfl, fun f hf => ?_, fun c hc => ?_⟩
    · simp [hf]
    · simp [Fact.volatile] at hc

/-! ### The user data -/

@[simp] theorem before_exportAll {exports : List (String × String)} {rest : Script Command} :
    (exportAll exports rest).Before (Passes f) (Adds g) ↔
      rest.Before (Passes f) (Adds g) := by
  induction exports with
  | nil => exact Iff.rfl
  | cons setting exports ih =>
    rw [← ih]
    exact ⟨fun h => h.2.resolve_left List.not_mem_nil, fun h => ⟨List.not_mem_nil, .inr h⟩⟩

@[simp] theorem makes_exportAll {exports : List (String × String)} {rest : Script Command} :
    (exportAll exports rest).Makes (Passes f) ↔ rest.Makes (Passes f) := by
  induction exports with
  | nil => exact Iff.rfl
  | cons setting exports ih =>
    rw [← ih]
    exact ⟨fun h => h.resolve_left List.not_mem_nil, .inr⟩

/-- What the container presupposes. -/
def DockerHost.prepared (h : DockerHost) : List Fact :=
  [.installed "docker", .enabled "docker", .member "docker" user, .directory h.storage,
    .owner h.storage user, .image h.pulled]

theorem before_container (h : DockerHost) (hf : f ∈ h.prepared) :
    h.userData.Before (Passes f) (Adds (.container h.container)) := by
  simp only [DockerHost.prepared, List.mem_cons, List.not_mem_nil, or_false] at hf
  rcases hf with rfl | rfl | rfl | rfl | rfl | rfl <;>
    simp [DockerHost.userData, Script.Before, Passes, Adds, makes, sure, needs]

theorem makes_container (h : DockerHost) :
    h.userData.Makes (Passes (.container h.container)) := by
  simp [DockerHost.userData, Script.Makes, Passes, makes, sure, needs]

/-! ### Whole lives -/

/-- What holds of the machine of a host at any time. -/
structure Sound (registry : List String) (h : DockerHost) (m : Machine) : Prop where
  ordered : ∀ f ∈ h.prepared, After (f ∈ ·) (.container h.container ∈ ·) (Passes f)
    (Adds (.container h.container)) m.userData m.world
  making : Making (.container h.container ∈ ·) (Passes (.container h.container)) m.userData m.world
  created : ∀ c, .up c ∈ m.world → .container c ∈ m.world
  served : ∀ reference, .image reference ∈ m.world → reference ∈ registry

theorem sound_launch (h : DockerHost) : Sound registry h (launch h) where
  ordered f hf := by
    refine .inr ⟨Finset.notMem_empty _, fun q hq => ?_⟩
    obtain rfl := Option.some.inj hq
    exact before_container h hf
  making q hq := by
    obtain rfl := Option.some.inj hq
    exact .inr (makes_container h)
  created _ hc := absurd hc (Finset.notMem_empty _)
  served _ hi := absurd hi (Finset.notMem_empty _)

theorem sound_step {h : DockerHost} (hstep : step registry m e = some m')
    (hm : Sound registry h m) : Sound registry h m' := by
  rcases step_cases hstep with ⟨p, c, ok, hp, hc, heffect, hnext⟩ | ⟨huserData, hsame, hup⟩
  · have hordered := hm.ordered
    have hmaking := hm.making
    rw [hp] at hordered hmaking
    refine ⟨fun f hf => ?_, ?_, fun c' hc' => ?_, fun reference href => ?_⟩
    · rw [hnext]
      exact (hordered f hf).step (sequenced registry f _) hc heffect
    · rw [hnext]
      exact hmaking.step (sequenced registry _ (.container h.container)) hc heffect
    · rcases effect_adds heffect hc' with hold | ⟨-, hmakes, hok⟩
      · exact effect_keeps heffect (hm.created c' hold)
      · have hnotLeft : Fact.up c' ∉ leftovers c := by
          cases c <;> simp [leftovers]
        obtain rfl := hok.resolve_right hnotLeft
        have hcontainer : Fact.container c' ∈ makes c := by
          cases c <;> simp [makes] at hmakes ⊢
          exact hmakes
        exact (sequenced registry (.container c') (.container c')).passes heffect
          (List.mem_append_right _ hcontainer)
    · rcases effect_adds heffect href with hold | ⟨hserved, hmakes, -⟩
      · exact hm.served reference hold
      · cases c with
        | dockerPull user reference' =>
          obtain rfl := Fact.image.inj (List.mem_singleton.mp hmakes)
          exact hserved
        | dockerRun user c =>
          have heq : reference = c.image := by simpa [makes] using hmakes
          rw [heq]
          exact hserved.elim (hm.served c.image) id
        | _ => simp [makes] at hmakes
  · have hcontainer := hsame (.container h.container) rfl
    refine ⟨fun f hf => ?_, ?_, fun c hc => ?_, fun reference href => ?_⟩
    · have hvolatile : f.volatile = false := by
        simp only [DockerHost.prepared, List.mem_cons, List.not_mem_nil, or_false] at hf
        rcases hf with rfl | rfl | rfl | rfl | rfl | rfl <;> rfl
      exact (hm.ordered f hf).congr huserData (hsame f hvolatile) hcontainer
    · exact hm.making.congr huserData hcontainer
    · rw [hsame (.container c) rfl]
      exact (hup c hc).elim (hm.created c) id
    · exact hm.served reference ((hsame (.image reference) rfl).mp href)

/-- No security group is a peer. -/
def noMembers (group : Empty) : Address → Prop := nomatch group

/-- The container of the host can be got to from an address at a port. -/
structure Answers (h : DockerHost) (m : Machine) (source : Address) (port : Nat) : Prop where
  admitted : Admits noMembers h.ingressRules source port
  published : port ∈ h.container.ports.map Prod.fst
  up : .up h.container ∈ m.world

/-- At the port that is given out, the host admits the VPC, and the container is published there. -/
theorem answers_of_up {redisEndpoint : String} {h : DockerHost} (hh : h ∈ dockerHosts redisEndpoint)
    (hup : .up h.container ∈ m.world) (source : VpcAddress) : Answers h m source h.port := by
  simp only [dockerHosts, List.mem_cons, List.not_mem_nil, or_false] at hh
  refine ⟨?_, ?_, hup⟩
  · rcases hh with rfl | rfl | rfl
    · simp [qdrant, Peer.Matches, source.2]
    · simp [zipkin, Peer.Matches, source.2]
    · simp [redisInsight, matches_anyIpv4]
  · rcases hh with rfl | rfl | rfl <;> simp [qdrant, zipkin, redisInsight]

/-- A boot brings the container of a prepared host up again. -/
theorem exists_up {h : DockerHost} (hrestart : h.container.restart = .always)
    (hm : Sound registry h m) (hcontainer : .container h.container ∈ m.world) :
    ∃ m', exec (step registry) m [.boot, .dockerd, .restart h.container] = some m' ∧
      .up h.container ∈ m'.world := by
  have hinstalled := (hm.ordered (.installed "docker") (by simp [DockerHost.prepared])).holds
    hcontainer
  have henabled := (hm.ordered (.enabled "docker") (by simp [DockerHost.prepared])).holds
    hcontainer
  refine ⟨⟨none, insert (.up h.container) (insert (.active "docker") (settled m.world))⟩, ?_, ?_⟩
  · simp [exec, step, hinstalled, henabled, hcontainer, hrestart, Fact.volatile]
  · exact Finset.mem_insert_self ..

/-- A host whose user data is over without a container never gets one. -/
theorem lost_step {h : DockerHost} (hstep : step registry m e = some m')
    (hm : m.userData = none ∧ .container h.container ∉ m.world) :
    m'.userData = none ∧ .container h.container ∉ m'.world := by
  rcases step_cases hstep with ⟨p, c, ok, hp, -⟩ | ⟨huserData, hsame, -⟩
  · rw [hm.1] at hp
    cases hp
  · rw [hsame (.container h.container) rfl]
    exact ⟨huserData.elim (fun heq => heq.trans hm.1) id, hm.2⟩

/-- What a maintainer counts on at any time of the life of a host. -/
structure Life (registry : List String) (h : DockerHost) (m : Machine) : Prop where
  /-- only a host that is fully prepared, with an image that the registry served, is ever got to -/
  prepared : ∀ source port, Answers h m source port →
    (∀ f ∈ h.prepared, f ∈ m.world) ∧ h.pulled ∈ registry
  /-- user data that has come to its end has made the container -/
  made : m.userData = some .exit → .container h.container ∈ m.world
  /-- then a boot brings it up, and the whole VPC gets to it at the port that is given out -/
  recovers : .container h.container ∈ m.world →
    ∃ m', exec (step registry) m [.boot, .dockerd, .restart h.container] = some m' ∧
      ∀ source : VpcAddress, Answers h m' source h.port
  /-- a host without it whose user data is over is never got to again -/
  lost : m.userData = none → .container h.container ∉ m.world →
    ∀ es m', exec (step registry) m es = some m' → ∀ source port, ¬ Answers h m' source port

/-- Each Docker host lives so, whatever the registry serves, through any failures of its user data,
any crashes of the container and the daemon and any boots. -/
theorem dockerHost_life {redisEndpoint : String} {h : DockerHost} (hh : h ∈ dockerHosts redisEndpoint)
    (registry : List String) (es : List Event) :
    Always (step registry) (launch h) es (Life registry h) := by
  have hsound : Always (step registry) (launch h) es (Sound registry h) :=
    always_of_invariant (sound_launch h) (fun _ _ _ => sound_step) es
  refine hsound.mono fun m hm => ⟨fun source port hanswers => ?_, fun hexit => ?_,
    fun hcontainer => ?_, fun hover hmissing es' m' hexec source port hanswers => ?_⟩
  · have hcontainer := hm.created _ hanswers.up
    have hprepared : ∀ f ∈ h.prepared, f ∈ m.world := fun f hf => (hm.ordered f hf).holds hcontainer
    exact ⟨hprepared, hm.served _ (hprepared (.image h.pulled) (by simp [DockerHost.prepared]))⟩
  · have hmaking := hm.making
    rw [hexit] at hmaking
    exact hmaking.exit
  · have hrestart : h.container.restart = .always := by
      simp only [dockerHosts, List.mem_cons, List.not_mem_nil, or_false] at hh
      rcases hh with rfl | rfl | rfl <;> rfl
    obtain ⟨m', hexec, hup⟩ := exists_up hrestart hm hcontainer
    exact ⟨m', hexec, answers_of_up hh hup⟩
  · have hlost : Always (step registry) m es' fun m =>
        m.userData = none ∧ .container h.container ∉ m.world :=
      always_of_invariant ⟨hover, hmissing⟩ (fun _ _ _ => lost_step) es'
    have hm' : Always (step registry) m es' (Sound registry h) :=
      always_of_invariant hm (fun _ _ _ => sound_step) es'
    have hcontainer := (hm' es' m' (List.prefix_refl _) hexec).created _ hanswers.up
    exact (hlost es' m' (List.prefix_refl _) hexec).2 hcontainer

end Run

/-- An update, Docker installed, then the instance goes down. -/
def cutOff : List Event :=
  [.userData true ∅, .userData true {.installed "docker"}, .boot]

theorem dockerHost_life_qdrant :
    Always (step ["qdrant/qdrant"]) (launch qdrant) cutOff (Life ["qdrant/qdrant"] qdrant) :=
  dockerHost_life (show qdrant ∈ dockerHosts "" from List.mem_cons_self) ["qdrant/qdrant"] cutOff

end ModulithInfra.Hosts
