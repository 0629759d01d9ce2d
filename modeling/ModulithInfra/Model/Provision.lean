import ModulithInfra.Model.Startup
import ModulithInfra.Systemd.Bringup

/-!
# The whole life of the model host

The user data of the model instance, which runs on its first boot only, if the image executes it at
all, and the units it leaves behind, which run on every later one.

The servers are enabled by the last commands of the user data, so no unit is ever started on a host
that is not fully prepared; and once a server is enabled it can always be brought up again, with all it
requires (`modelHost_life`).
-/

namespace ModulithInfra.Model

open Systemd Runs

/-! ### Commands of the user data -/

inductive Fact : Type where
  | package (name : String)
  | directory (path : String)
  | file (path : String)
  | executable (path : String)
  | enabled (unit : String)
  deriving DecidableEq

inductive Setup : Type where
  | dnfClean
  | dnfInstall (packages : List String)
  | cd (path : String)
  /-- `case $(uname -r) in version*)` -/
  | kernelIs (version : String)
  /-- `sed -i '$a…' path` -/
  | append (path : String)
  | enable (unit : String)
  | restart (unit : String)
  | usermod (group user : String)
  | nvidiaCtk
  /-- `tee path` -/
  | write (path : String)
  /-- `ec2-metadata -t | grep -q " p[lo-hi]"` -/
  | typeIsP (digits : List Char)
  | modprobe (module : String)
  | venv (path : String)
  | pipInstall (dir package : String)
  /-- `[ ! -x path ]` -/
  | isNotExecutable (path : String)
  /-- `exit 1` -/
  | exitError
  | hfVersion (path : String)
  /-- `[ ! -d path ]` -/
  | isNoDirectory (path : String)
  | gitClone (path : String)
  | chown (path : String)
  | chmodX (path : String)
  /-- `command -v tool` -/
  | commandV (tool : String)
  /-- `test -d path`, `test -f path` -/
  | test (f : Fact)
  | daemonReload
  | touch (path : String)
  | reboot
  deriving DecidableEq

/-- The machine image, and the repositories its packages come from. -/
structure Image where
  /-- `uname -r` -/
  kernel : String
  /-- the directories that the shell of the user data searches -/
  path : List String
  executables : List String
  /-- the executables that come with a package -/
  contents : String → List String
  /-- a user data text that begins so is executed -/
  executes : String → Bool

def instanceType : String := "g4dn.2xlarge"

/-- The unit file of a package, or one that the user data writes. -/
def unitSource (unit : String) : Fact :=
  if unit ∈ ["docker", "nvidia-fabricmanager"] then .package unit
  else .file ("/etc/systemd/system/" ++ unit)

/-- What has to hold for a command to succeed. -/
def Setup.needs : Setup → List Fact
  | .append path => [.file path]
  | .enable unit => [unitSource unit]
  | .restart unit => [unitSource unit]
  | .usermod group _ => [.package group]
  | .nvidiaCtk => [.package "nvidia-container-toolkit"]
  | .venv _ => [.package "python3.12"]
  | .pipInstall dir _ => [.directory dir]
  | .hfVersion path => [.executable path]
  | .gitClone _ => [.package "git"]
  | .chown path => [.directory path]
  | .chmodX path => [.file path]
  | .test f => [f]
  | _ => []

/-- What a command makes; one that fails may have made some of it. -/
def Setup.makes : Setup → List Fact
  | .dnfInstall packages => packages.map .package
  | .enable unit => [.enabled unit]
  | .write path => [.file path]
  | .venv path => [.directory path]
  | .pipInstall dir package =>
      if package = "huggingface_hub" then [.executable (dir ++ "/bin/hf")] else []
  | .gitClone path => [.directory path]
  | .chmodX path => [.executable path]
  | .touch path => [.file path]
  | _ => []

abbrev Facts := Finset Fact

section Effect

variable (image : Image)

/-- An executable comes with a fact. -/
def Fact.Provides (path : String) : Fact → Prop
  | .package name => path ∈ image.contents name
  | .executable path' => path' = path
  | _ => False

instance (path : String) (f : Fact) : Decidable (f.Provides image path) :=
  match f with
  | .package name => inferInstanceAs (Decidable (path ∈ image.contents name))
  | .executable path' => inferInstanceAs (Decidable (path' = path))
  | .directory _ | .file _ | .enabled _ => .isFalse id

/-- The shell of the user data finds the tool. -/
def OnPath (w : Facts) (tool : String) : Prop :=
  ∃ dir ∈ image.path, ∃ f ∈ w, f.Provides image (dir ++ "/" ++ tool)

instance (w : Facts) (tool : String) : Decidable (OnPath image w tool) :=
  inferInstanceAs (Decidable (∃ dir ∈ image.path, ∃ f ∈ w, f.Provides image (dir ++ "/" ++ tool)))

/-- The answer of a test. -/
def Setup.answer (w : Facts) : Setup → Option Bool
  | .kernelIs version => some (decide (version.toList <+: image.kernel.toList))
  | .typeIsP digits =>
      some (digits.any fun d => [' ', 'p', d] <:+: ("instance-type: " ++ instanceType).toList)
  | .isNotExecutable path => some (decide (.executable path ∉ w))
  | .isNoDirectory path => some (decide (.directory path ∉ w))
  | .exitError => some false
  | .commandV tool => some (decide (OnPath image w tool))
  | .test f => some (decide (f ∈ w))
  | _ => none

/-- A command that is no test succeeds, or fails half way. -/
def Setup.attempt (c : Setup) (w : Facts) : Bool → Facts → Prop
  | true, w' => (∀ f ∈ c.needs, f ∈ w) ∧ w' = w ∪ c.makes.toFinset
  | false, w' => w ⊆ w' ∧ w' ⊆ w ∪ c.makes.toFinset

instance (c : Setup) (w : Facts) (ok : Bool) (w' : Facts) : Decidable (c.attempt w ok w') :=
  match ok with
  | true =>
    have := List.decidableBAll (· ∈ w) c.needs
    inferInstanceAs (Decidable ((∀ f ∈ c.needs, f ∈ w) ∧ w' = w ∪ c.makes.toFinset))
  | false => inferInstanceAs (Decidable (w ⊆ w' ∧ w' ⊆ w ∪ c.makes.toFinset))

/-- What a command may do. -/
def setup : Effect Setup Facts := fun c w ok w' =>
  match c.answer image w with
  | some answer => w' = w ∧ ok = answer
  | none => c.attempt w ok w'

instance (c : Setup) (w : Facts) (ok : Bool) (w' : Facts) : Decidable (setup image c w ok w') :=
  match h : c.answer image w with
  | some answer => decidable_of_iff (w' = w ∧ ok = answer) (by simp only [setup, h])
  | none => decidable_of_iff (c.attempt w ok w') (by simp only [setup, h])

variable {image} {c : Setup} {w w' : Facts} {ok : Bool}

theorem setup_keeps (h : setup image c w ok w') : w ⊆ w' := by
  unfold setup at h
  split at h
  · rw [h.1]
  · cases ok with
    | true => exact h.2 ▸ Finset.subset_union_left
    | false => exact h.1

theorem setup_adds (h : setup image c w ok w') {f : Fact} (hf : f ∈ w') : f ∈ w ∨ f ∈ c.makes := by
  unfold setup at h
  split at h
  · exact .inl (h.1 ▸ hf)
  · have hsub : w' ⊆ w ∪ c.makes.toFinset := by
      cases ok with
      | true => exact h.2 ▸ Finset.Subset.refl _
      | false => exact h.2
    exact (Finset.mem_union.mp (hsub hf)).imp_right List.mem_toFinset.mp

/-- A command that succeeds found what it needs, and made what it makes. -/
theorem setup_sure (h : setup image c w true w') {f : Fact} (hf : f ∈ c.needs ++ c.makes) :
    f ∈ w' := by
  unfold setup at h
  split at h
  case h_1 answer hanswer =>
    cases c <;> simp [Setup.answer] at hanswer <;> simp [Setup.needs, Setup.makes] at hf
    subst hf hanswer
    simpa [h.1] using h.2.symm
  case h_2 =>
    rw [h.2]
    rcases List.mem_append.mp hf with hf | hf
    · exact Finset.mem_union_left _ (h.1 f hf)
    · exact Finset.mem_union_right _ (List.mem_toFinset.mpr hf)

theorem setup_commandV {tool : String} (h : setup image (.commandV tool) w true w') :
    OnPath image w' tool := by
  obtain ⟨rfl, hanswer⟩ := h
  exact of_decide_eq_true hanswer.symm

theorem onPath_mono (h : w ⊆ w') {tool : String} (htool : OnPath image w tool) :
    OnPath image w' tool := by
  obtain ⟨dir, hdir, f, hf, hprovides⟩ := htool
  exact ⟨dir, hdir, f, h hf, hprovides⟩

end Effect

/-! ### The user data -/

def hfVenv : String := "/home/" ++ user ++ "/hf-venv"

def hf : String := hfVenv ++ "/bin/hf"

def scripts : List String :=
  ["/usr/local/bin/build-llama.sh", "/usr/local/bin/download-llama-model.sh",
    "/usr/local/bin/download-nomic-embed.sh"]

def HostUnit.name : HostUnit → String
  | .llamaBuild => "llama-build.service"
  | .llamaDownload => "llama-download.service"
  | .nomicEmbedDownload => "nomic-embed-download.service"
  | .llamaServer => "llama-server.service"
  | .nomicEmbedServer => "nomic-embed-server.service"

def HostUnit.file (u : HostUnit) : Fact := .file ("/etc/systemd/system/" ++ u.name)

/-- The tools of the final verification. -/
def verified : List String := ["nvidia-smi", "nvcc", "cmake", "git", "docker", "python3.12"]

/-- `/var/lib/ec2-provisioning-complete` -/
def provisioningComplete : Fact := .file "/var/lib/ec2-provisioning-complete"

/-- Commands one after the other, then the rest of a script. -/
def runAll (commands : List Setup) (rest : Script Setup) : Script Setup :=
  commands.foldr .run rest

/-- From the verification on. -/
def verification : Script Setup :=
  runAll (verified.map .commandV ++
    [.hfVersion hf, .test (.directory llamaDir)] ++ scripts.map (.test <| .file ·) ++
    [.daemonReload, .touch "/var/lib/ec2-provisioning-complete", .enable "llama-server.service",
      .enable "nomic-embed-server.service", .reboot]) .exit

/-- The scripts and the unit files. -/
def writeUnits : Script Setup :=
  runAll
    [.write "/usr/local/bin/build-llama.sh", .chmodX "/usr/local/bin/build-llama.sh",
      .write "/etc/systemd/system/llama-build.service",
      .write "/usr/local/bin/download-llama-model.sh",
      .chmodX "/usr/local/bin/download-llama-model.sh",
      .write "/etc/systemd/system/llama-download.service",
      .write "/usr/local/bin/download-nomic-embed.sh",
      .chmodX "/usr/local/bin/download-nomic-embed.sh",
      .write "/etc/systemd/system/nomic-embed-download.service",
      .write "/etc/systemd/system/llama-server.service",
      .write "/etc/systemd/system/nomic-embed-server.service"]
    verification

def cloneLlama : Script Setup :=
  .cond (.isNoDirectory llamaDir)
    (.run (.gitClone llamaDir) (.run (.chown llamaDir) writeUnits))
    (.run (.chown llamaDir) writeUnits)

def installHf : Script Setup :=
  runAll
    [.dnfInstall ["python3.12", "python3.12-pip"], .venv hfVenv, .pipInstall hfVenv "pip",
      .pipInstall hfVenv "huggingface_hub"]
    (.cond (.isNotExecutable hf)
      (.run .exitError .exit)
      (.run (.hfVersion hf) cloneLlama))

/-- The fabric manager, on an instance of type `p`. -/
def installFabricManager : Script Setup :=
  .cond (.typeIsP ['0', '1', '2', '3', '4', '5', '6', '7', '8', '9'])
    (.run (.dnfInstall ["nvidia-fabricmanager", "libnvidia-nscq", "libnvsdm", "nvidia-imex"])
      (.cond (.typeIsP ['6', '7', '8', '9'])
        (runAll
          [.dnfInstall ["nvlsm", "nvlink5"], .write "/etc/modules-load.d/modules.conf",
            .modprobe "ib_umad", .enable "nvidia-fabricmanager"]
          installHf)
        (.run (.enable "nvidia-fabricmanager") installHf)))
    installHf

def installDrivers : Script Setup :=
  runAll
    [.dnfClean, .cd "/tmp", .dnfInstall ["nvidia-release"], .dnfClean, .dnfInstall ["nvidia-open"],
      .dnfInstall ["nvidia-xconfig"], .dnfInstall ["cmake", "git", "openssl-devel"],
      .dnfInstall ["cuda-toolkit"], .append ("/home/" ++ user ++ "/.bashrc"),
      .append ("/home/" ++ user ++ "/.bashrc"), .dnfInstall ["docker"], .enable "docker",
      .usermod "docker" user, .dnfInstall ["nvidia-container-toolkit"], .nvidiaCtk,
      .restart "docker", .write "/etc/dnf/vars/releasever"]
    installFabricManager

/-- `$(echo $K_VER | cut -d. -f1-2)` -/
def majorVersion (kernel : String) : String :=
  ".".intercalate ((kernel.splitOn ".").take 2)

/-- The packages for a kernel of version 6.1, by their install commands. -/
def kernel61Packages (kernel : String) : List (List String) :=
  [["kernel-headers-" ++ kernel, "kernel-devel-" ++ kernel], ["kernel-modules-extra-" ++ kernel]]

/-- Those for another kernel. -/
def kernelPackages (kernel : String) : List (List String) :=
  let name := "kernel" ++ majorVersion kernel
  [[name ++ "-headers-" ++ kernel, name ++ "-devel-" ++ kernel],
    [name ++ "-modules-extra-" ++ kernel]]

/-- What the text of the user data begins with: a newline stands before the `#!`. -/
def userDataHead : String := "\n#!/bin/bash\n"

def userData (kernel : String) : Script Setup :=
  runAll [.dnfClean, .dnfInstall ["dkms"]] <|
  .cond (.kernelIs "6.1.")
    (runAll ((kernel61Packages kernel).map .dnfInstall) installDrivers)
    (runAll ((kernelPackages kernel).map .dnfInstall) installDrivers)

/-! ### The order of the user data -/

/-- What there is on a host before a server is enabled. -/
def prepared : List Fact :=
  [provisioningComplete, .directory llamaDir, .executable hf] ++ scripts.map .executable ++
    [HostUnit.llamaBuild, .llamaDownload, .nomicEmbedDownload, .llamaServer, .nomicEmbedServer].map
      HostUnit.file

def Passes (f : Fact) (c : Setup) : Prop := f ∈ c.needs ++ c.makes

def Finds (tool : String) (c : Setup) : Prop := c = .commandV tool

def Adds (f : Fact) (c : Setup) : Prop := f ∈ c.makes

instance (f : Fact) : DecidablePred (Passes f) :=
  fun c => inferInstanceAs (Decidable (f ∈ c.needs ++ c.makes))

instance (tool : String) : DecidablePred (Finds tool) :=
  fun c => inferInstanceAs (Decidable (c = .commandV tool))

instance (f : Fact) : DecidablePred (Adds f) := fun c => inferInstanceAs (Decidable (f ∈ c.makes))

def servers : List HostUnit := [.llamaServer, .nomicEmbedServer]

def HostUnit.enabled (u : HostUnit) : Fact := .enabled u.name

theorem before_enabled :
    ∀ u ∈ servers, (∀ f ∈ prepared, installDrivers.Before (Passes f) (Adds u.enabled)) ∧
      ∀ tool ∈ verified, installDrivers.Before (Finds tool) (Adds u.enabled) := by
  decide +kernel

theorem before_runAll {passes adds : Setup → Prop} {commands : List Setup} {rest : Script Setup}
    (hcommands : ∀ c ∈ commands, ¬ adds c) (hrest : rest.Before passes adds) :
    (runAll commands rest).Before passes adds := by
  induction commands with
  | nil => exact hrest
  | cons c commands ih =>
    refine ⟨hcommands c List.mem_cons_self, .inr (ih fun c' hc' => ?_)⟩
    exact hcommands c' (List.mem_cons_of_mem _ hc')

/-- Whatever the kernel is, nothing is enabled while its packages are installed. -/
theorem before_userData {passes : Setup → Prop} {u : HostUnit}
    (h : installDrivers.Before passes (Adds u.enabled)) (kernel : String) :
    (userData kernel).Before passes (Adds u.enabled) := by
  have hinstall : ∀ packages, ¬ Adds u.enabled (.dnfInstall packages) := by
    intro packages
    simp [Adds, Setup.makes, HostUnit.enabled]
  have hpackages : ∀ lists : List (List String),
      (runAll (lists.map .dnfInstall) installDrivers).Before passes (Adds u.enabled) := by
    intro lists
    refine before_runAll (fun c hc => ?_) h
    obtain ⟨packages, -, rfl⟩ := List.mem_map.mp hc
    exact hinstall packages
  refine before_runAll (fun c hc => ?_) ⟨List.not_mem_nil, .inr (hpackages _), hpackages _⟩
  rcases List.mem_cons.mp hc with rfl | hc
  · exact List.not_mem_nil
  · rw [List.mem_singleton.mp hc]
    exact hinstall _

theorem sequenced_fact (image : Image) (f g : Fact) :
    Sequenced (setup image) (f ∈ ·) (g ∈ ·) (Passes f) (Adds g) where
  keeps h hf := setup_keeps h hf
  adds h hg := setup_adds h hg
  passes h hf := setup_sure h hf

theorem sequenced_tool (image : Image) (tool : String) (g : Fact) :
    Sequenced (setup image) (OnPath image · tool) (g ∈ ·) (Finds tool) (Adds g) where
  keeps h htool := onPath_mono (setup_keeps h) htool
  adds h hg := setup_adds h hg
  passes h hfinds := setup_commandV (hfinds ▸ h)

/-! ### Machines -/

structure Machine where
  /-- what is left of the user data; `none` once it failed or the machine was booted again -/
  userData : Option (Script Setup)
  facts : Facts
  host : Host HostUnit Command Disk

inductive Life : Type where
  /-- the user data executes its next command -/
  | userData (ok : Bool) (w : Facts)
  /-- something happens to the units; a boot ends the user data as well -/
  | unit (e : Event HostUnit Disk)

/-- The units a server pulls in, itself included. -/
def pulls (u : HostUnit) : List HostUnit :=
  ((service u).requires.flatMap fun r => (service r).requires) ++ (service u).requires ++ [u]

/-- Some enabled server pulls the unit in. -/
def Wanted (w : Facts) (u : HostUnit) : Prop := ∃ s ∈ servers, s.enabled ∈ w ∧ u ∈ pulls s

instance (w : Facts) (u : HostUnit) : Decidable (Wanted w u) :=
  inferInstanceAs (Decidable (∃ s ∈ servers, s.enabled ∈ w ∧ u ∈ pulls s))

/-- A unit is only started once the machine was booted with it enabled, from its unit file. -/
def Machine.Starts (m : Machine) : Event HostUnit Disk → Prop
  | .start u => m.userData = none ∧ Wanted m.facts u ∧ u.file ∈ m.facts
  | _ => True

instance (m : Machine) (e : Event HostUnit Disk) : Decidable (m.Starts e) :=
  match e with
  | .start u =>
    have : Decidable (m.userData = none) := decidable_of_iff (m.userData.isNone = true) (by simp)
    inferInstanceAs (Decidable (m.userData = none ∧ Wanted m.facts u ∧ u.file ∈ m.facts))
  | .command _ _ _ | .exited _ | .crash _ | .boot => .isTrue trivial

/-- What a boot leaves of the user data. -/
def userDataAfter (p : Option (Script Setup)) : Event HostUnit Disk → Option (Script Setup)
  | .boot => none
  | _ => p

section Run

variable (image : Image)

def live (m : Machine) : Life → Option Machine
  | .userData ok w =>
    match m.userData.bind Script.current with
    | some c =>
      if setup image c m.facts ok w then
        some { m with userData := m.userData.bind (·.next ok), facts := w }
      else none
    | none => none
  | .unit e =>
    if m.Starts e then
      (step service effect m.host e).map fun host =>
        { m with userData := userDataAfter m.userData e, host := host }
    else none

/-- The first boot of an instance: the executables of the image, and the home of its user. -/
def launch (disk : Disk) : Machine where
  userData := if image.executes userDataHead then some (userData image.kernel) else none
  facts := insert (.file ("/home/" ++ user ++ "/.bashrc")) (image.executables.map .executable).toFinset
  host := down disk

variable {image} {m m' : Machine} {e : Life}

/-- What a step can be. -/
theorem live_cases (h : live image m e = some m') :
    (∃ p c ok, m.userData = some p ∧ p.current = some c ∧ setup image c m.facts ok m'.facts ∧
      m'.userData = p.next ok ∧ m'.host = m.host) ∨
    (∃ a, e = .unit a ∧ m.Starts a ∧ step service effect m.host a = some m'.host ∧
      m'.facts = m.facts ∧ (m'.userData = m.userData ∨ m'.userData = none)) := by
  cases e with
  | userData ok w =>
    simp only [live] at h
    split at h
    case h_1 c hc =>
      split_ifs at h with hsetup
      obtain ⟨p, hp, hcurrent⟩ := Option.bind_eq_some_iff.mp hc
      obtain rfl := Option.some.inj h
      exact .inl ⟨p, c, ok, hp, hcurrent, hsetup, by rw [hp, Option.bind_some], rfl⟩
    case h_2 => cases h
  | unit a =>
    simp only [live] at h
    split_ifs at h with hstarts
    obtain ⟨host, hhost, rfl⟩ := Option.map_eq_some_iff.mp h
    refine .inr ⟨a, rfl, hstarts, hhost, rfl, ?_⟩
    cases a with
    | boot => exact .inr rfl
    | _ => exact .inl rfl

/-- A unit that is not inactive was not before, or has just been started. -/
theorem inactive_step {h h' : Host HostUnit Command Disk} {a : Event HostUnit Disk}
    (hstep : step service effect h a = some h') {u : HostUnit} (hu : h'.unit u ≠ .inactive) :
    h.unit u ≠ .inactive ∨ a = .start u := by
  have hupdate : ∀ {v : HostUnit} {s : State Command},
      Function.update h.unit v s u ≠ .inactive → h.unit u ≠ .inactive ∨ u = v := by
    intro v s hu
    by_cases huv : u = v
    · exact .inr huv
    · rw [Function.update_of_ne huv] at hu
      exact .inl hu
  cases a with
  | start v =>
    simp only [step] at hstep
    split_ifs at hstep
    obtain rfl := Option.some.inj hstep
    exact (hupdate hu).imp_right fun huv => by rw [huv]
  | command v ok w =>
    simp only [step] at hstep
    split at hstep
    case h_1 c hc =>
      split_ifs at hstep
      obtain rfl := Option.some.inj hstep
      refine .inl ((hupdate hu).elim id ?_)
      rintro rfl hinactive
      simp [Host.current, hinactive] at hc
    case h_2 => cases hstep
  | exited v =>
    simp only [step] at hstep
    split at hstep
    case h_1 hexit =>
      obtain rfl := Option.some.inj hstep
      refine .inl ((hupdate hu).elim id ?_)
      rintro rfl hinactive
      simp [hinactive] at hexit
    case h_2 => cases hstep
  | crash v =>
    simp only [step] at hstep
    split at hstep
    case h_1 hactive =>
      obtain rfl := Option.some.inj hstep
      refine .inl ((hupdate hu).elim id ?_)
      rintro rfl hinactive
      simp [hinactive] at hactive
    case h_2 => cases hstep
  | boot =>
    obtain rfl := Option.some.inj hstep
    exact absurd rfl hu

/-! ### Whole lives -/

/-- What holds of the machine at any time. -/
structure Sound (image : Image) (m : Machine) : Prop where
  facts : ∀ s ∈ servers, ∀ f ∈ prepared, After (f ∈ ·) (s.enabled ∈ ·) (Passes f) (Adds s.enabled)
    m.userData m.facts
  tools : ∀ s ∈ servers, ∀ tool ∈ verified, After (OnPath image · tool) (s.enabled ∈ ·) (Finds tool)
    (Adds s.enabled) m.userData m.facts
  host : startup.Invariant m.host
  wanted : ∀ u, m.host.unit u ≠ .inactive → Wanted m.facts u

theorem notMem_launch (disk : Disk) {unit : String} :
    Fact.enabled unit ∉ (launch image disk).facts := by
  simp [launch]

theorem userData_launch {disk : Disk} {q : Script Setup} (h : (launch image disk).userData = some q) :
    q = userData image.kernel := by
  simp only [launch] at h
  split_ifs at h
  exact (Option.some.inj h).symm

theorem sound_launch (disk : Disk) : Sound image (launch image disk) where
  facts s hs f hf := by
    refine .inr ⟨notMem_launch disk, fun q hq => ?_⟩
    obtain rfl := userData_launch hq
    exact before_userData ((before_enabled s hs).1 f hf) image.kernel
  tools s hs tool htool := by
    refine .inr ⟨notMem_launch disk, fun q hq => ?_⟩
    obtain rfl := userData_launch hq
    exact before_userData ((before_enabled s hs).2 tool htool) image.kernel
  host _ := trivial
  wanted _ hu := absurd rfl hu

theorem Wanted.mono {w w' : Facts} (h : w ⊆ w') {u : HostUnit} (hu : Wanted w u) : Wanted w' u := by
  obtain ⟨s, hs, henabled, hpulls⟩ := hu
  exact ⟨s, hs, h henabled, hpulls⟩

theorem sound_live (h : live image m e = some m') (hm : Sound image m) : Sound image m' := by
  rcases live_cases h with ⟨p, c, ok, hp, hc, hsetup, hnext, hhost⟩ |
    ⟨a, -, hstarts, hstep, hfacts, huserData⟩
  · have hfacts := hm.facts
    have htools := hm.tools
    rw [hp] at hfacts htools
    refine ⟨fun s hs f hf => ?_, fun s hs tool htool => ?_, hhost ▸ hm.host, fun u hu => ?_⟩
    · rw [hnext]
      exact (hfacts s hs f hf).step (sequenced_fact image f _) hc hsetup
    · rw [hnext]
      exact (htools s hs tool htool).step (sequenced_tool image tool _) hc hsetup
    · rw [hhost] at hu
      exact (hm.wanted u hu).mono (setup_keeps hsetup)
  · refine ⟨fun s hs f hf => ?_, fun s hs tool htool => ?_,
      startup.invariant_step hstep hm.host, fun u hu => ?_⟩
    · exact (hm.facts s hs f hf).congr huserData (by rw [hfacts]) (by rw [hfacts])
    · exact (hm.tools s hs tool htool).congr huserData (by rw [hfacts]) (by rw [hfacts])
    · rw [hfacts]
      rcases inactive_step hstep hu with hbefore | rfl
      · exact hm.wanted u hbefore
      · exact hstarts.2.1

/-! ### Bringing a server up -/

/-- The build script comes to its end from any disk. -/
theorem completes_buildLlama (d : Disk) : ∃ d', buildLlama.Completes effect d d' := by
  by_cases hserver : llamaDir ++ "/build/bin/llama-server" ∈ d
  · have htest : effect (.isExecutable (llamaDir ++ "/build/bin/llama-server")) d true d :=
      ⟨rfl, by simp [hserver]⟩
    exact ⟨d, .run rfl <| .loop rfl <| .run rfl <| .run rfl <| .run rfl <| .yes htest .exit⟩
  · have htest : effect (.isExecutable (llamaDir ++ "/build/bin/llama-server")) d false d :=
      ⟨rfl, by simp [hserver]⟩
    exact ⟨_, .run rfl <| .loop rfl <| .run rfl <| .run rfl <| .run rfl <| .no htest <|
      .run rfl <| .run rfl <| .run rfl .exit⟩

theorem completes_download (modelDir repo file : String) (d : Disk) :
    ∃ d', (download modelDir repo file).Completes effect d d' := by
  by_cases hmodel : modelDir ++ "/" ++ file ∈ d
  · have htest : effect (.isNoFile (modelDir ++ "/" ++ file)) d false d := ⟨rfl, by simp [hmodel]⟩
    exact ⟨d, .run rfl <| .no htest .exit⟩
  · have htest : effect (.isNoFile (modelDir ++ "/" ++ file)) d true d := ⟨rfl, by simp [hmodel]⟩
    exact ⟨_, .run rfl <| .yes htest <| .run rfl .exit⟩

theorem completes_script {u : HostUnit} {p : Script Command} (hp : (service u).script = some p)
    (d : Disk) : ∃ d', p.Completes effect d d' := by
  cases u with
  | llamaBuild => exact Option.some.inj hp ▸ completes_buildLlama d
  | llamaDownload => exact Option.some.inj hp ▸ completes_download _ _ _ d
  | nomicEmbedDownload => exact Option.some.inj hp ▸ completes_download _ _ _ d
  | llamaServer => cases hp
  | nomicEmbedServer => cases hp

theorem ordered_pulls : ∀ s ∈ servers,
    Rollout.Ordered (fun u => (service u).requires) [] (pulls s) ∧ (pulls s).Nodup := by
  decide

/-- Every unit that a server pulls in has its unit file among what is prepared. -/
theorem file_mem_prepared (u : HostUnit) : u.file ∈ prepared := by
  cases u <;> simp [prepared]

/-- The units are brought up on the machine as on their own. -/
theorem live_of_leads (m : Machine) {s : HostUnit} (hs : s ∈ servers) (hover : m.userData = none)
    (henabled : s.enabled ∈ m.facts) (hfiles : ∀ u : HostUnit, u.file ∈ m.facts)
    {es : List (Event HostUnit Disk)} (hes : ∀ a ∈ es, a.Within (pulls s))
    {host : Host HostUnit Command Disk} (hexec : exec (step service effect) m.host es = some host) :
    exec (live image) m (es.map .unit) = some { m with host := host } := by
  induction es generalizing m with
  | nil =>
    obtain rfl := Option.some.inj hexec
    rfl
  | cons a es ih =>
    obtain ⟨host₁, hstep, hrest⟩ := Option.bind_eq_some_iff.mp hexec
    have hwithin := hes a List.mem_cons_self
    have hstarts : m.Starts a := by
      cases a with
      | start u => exact ⟨hover, ⟨s, hs, henabled, hwithin⟩, hfiles u⟩
      | _ => trivial
    have huserData : userDataAfter m.userData a = none := by
      cases a with
      | boot => exact hwithin.elim
      | _ => exact hover
    have hlive : live image m (.unit a) = some { m with userData := none, host := host₁ } := by
      rw [live, if_pos hstarts, hstep, Option.map_some, huserData]
    rw [List.map_cons, exec, hlive, Option.bind_some]
    have hih := ih (m := { m with userData := none, host := host₁ }) rfl henabled hfiles
      (fun b hb => hes b (List.mem_cons_of_mem _ hb)) hrest
    rw [hih]
    simp [hover]

/-- After a boot an enabled server can be brought up, with all it requires. -/
theorem exists_serving (hm : Sound image m) {s : HostUnit} (hs : s ∈ servers)
    (henabled : s.enabled ∈ m.facts) :
    ∃ (es : List (Event HostUnit Disk)) (m' : Machine),
      exec (live image) m (.unit .boot :: es.map .unit) = some m' ∧
        ∀ u ∈ pulls s, (m'.host.unit u).isActive = true := by
  obtain ⟨hordered, hnodup⟩ := ordered_pulls s hs
  have hfiles : ∀ u : HostUnit, u.file ∈ m.facts :=
    fun u => (hm.facts s hs _ (file_mem_prepared u)).holds henabled
  obtain ⟨host, ⟨es, hexec, hes⟩, hactive, -⟩ := exists_allActive (h := down m.host.world)
    (pulls s) (List.Subset.refl _) (fun u _ p hp d => completes_script hp d) hordered hnodup
    (by simp) (fun _ _ => rfl) (by simp)
  have hlive : exec (live image) { m with userData := none, host := down m.host.world }
      (es.map .unit) = some { m with userData := none, host := host } :=
    live_of_leads { m with userData := none, host := down m.host.world } hs rfl henabled hfiles hes
      hexec
  exact ⟨es, { m with userData := none, host := host }, hlive, hactive⟩

/-- What a maintainer counts on at any time of the life of the host. -/
structure Dependable (image : Image) (m : Machine) : Prop where
  /-- units are only ever started on a host that is fully prepared -/
  started : ∀ u, m.host.unit u ≠ .inactive →
    (∀ f ∈ prepared, f ∈ m.facts) ∧ ∀ tool ∈ verified, OnPath image m.facts tool
  /-- a server only runs where its files are -/
  serving : ∀ u exec, execStart u = some exec → (m.host.unit u).isActive = true →
    exec.program ∈ m.host.world ∧ exec.model ∈ m.host.world
  /-- after a boot an enabled server can be brought up, with all it requires -/
  recovers : ∀ s ∈ servers, s.enabled ∈ m.facts →
    ∃ (es : List (Event HostUnit Disk)) (m' : Machine),
      exec (live image) m (.unit .boot :: es.map .unit) = some m' ∧
        ∀ u ∈ pulls s, (m'.host.unit u).isActive = true
  /-- a host with none enabled whose user data is over never starts a unit -/
  lost : m.userData = none → (∀ s ∈ servers, s.enabled ∉ m.facts) →
    ∀ es m', exec (live image) m es = some m' → ∀ u, m'.host.unit u = .inactive

theorem lost_live (h : live image m e = some m')
    (hm : m.userData = none ∧ ∀ s ∈ servers, s.enabled ∉ m.facts) :
    m'.userData = none ∧ ∀ s ∈ servers, s.enabled ∉ m'.facts := by
  rcases live_cases h with ⟨p, c, ok, hp, -⟩ | ⟨a, -, -, -, hfacts, huserData⟩
  · rw [hm.1] at hp
    cases hp
  · rw [hfacts]
    exact ⟨huserData.elim (fun heq => heq.trans hm.1) id, hm.2⟩

theorem Sound.not_wanted (hm : Sound image m) (hnone : ∀ s ∈ servers, s.enabled ∉ m.facts)
    (u : HostUnit) : m.host.unit u = .inactive := by
  by_contra hu
  obtain ⟨s, hs, henabled, -⟩ := hm.wanted u hu
  exact hnone s hs henabled

theorem dependable_of_sound (hm : Sound image m) : Dependable image m := by
  refine ⟨fun u hu => ?_, fun u exec hexec hactive => ?_, fun s hs henabled => ?_,
    fun hover hnone es m' hexec u => ?_⟩
  · obtain ⟨s, hs, henabled, -⟩ := hm.wanted u hu
    exact ⟨fun f hf => (hm.facts s hs f hf).holds henabled,
      fun tool htool => (hm.tools s hs tool htool).holds henabled⟩
  · obtain ⟨-, hprogram, hmodel⟩ := execStart_files hexec
    have hholds : Holds u m.host.world := startup.holds_of_active hm.host hactive
    exact ⟨hholds _ hprogram, hholds _ hmodel⟩
  · exact exists_serving hm hs henabled
  · have hsound : Always (live image) m es (Sound image) :=
      always_of_invariant hm (fun _ _ _ => sound_live) es
    have hlost : Always (live image) m es fun m =>
        m.userData = none ∧ ∀ s ∈ servers, s.enabled ∉ m.facts :=
      always_of_invariant ⟨hover, hnone⟩ (fun _ _ _ => lost_live) es
    exact (hsound es m' (List.prefix_refl _) hexec).not_wanted
      (hlost es m' (List.prefix_refl _) hexec).2 u

end Run

end ModulithInfra.Model
