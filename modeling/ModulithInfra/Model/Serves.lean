import ModulithInfra.Model.Provision
import Mathlib.Data.Finset.Lattice.Lemmas

/-!
# When a server can ever start

The user data enables the servers after it has verified a list of tools with `command -v`. A tool is
found if the image or one of the packages that the user data installs has it in a directory of the
search path; nothing else the user data does brings it there.

So a server can be started in some life of the host if and only if the user data is executed and all
these tools are found so (`serves_iff`). Where they are, the user data can come to its end
(`completes_userData`), and after the next boot the server can be brought up.

The text of the user data does not begin with `#!` but with a newline, so that it is up to the image
whether it is executed: one that takes it as it is executes nothing, and no server ever starts.

The units have `/usr/local/cuda/bin` on their path, for `nvcc`; the user data only adds it to the path
of the login shells of `ec2-user`, not to that of the shell it runs in. With the toolkit where the
units look for it, the verification fails and no server ever starts.
-/

namespace ModulithInfra.Model

open Systemd Runs

/-! ### What gets on the search path -/

/-- The packages that the user data installs after those of the kernel. -/
def setupPackages : List String :=
  ["nvidia-release", "nvidia-open", "nvidia-xconfig", "cmake", "git", "openssl-devel",
    "cuda-toolkit", "docker", "nvidia-container-toolkit", "python3.12", "python3.12-pip"]

def packagesOf (kernel : String) : List (List String) :=
  if "6.1.".toList <+: kernel.toList then kernel61Packages kernel else kernelPackages kernel

/-- All the packages it installs. -/
def packages (kernel : String) : List String :=
  "dkms" :: (packagesOf kernel).flatten ++ setupPackages

/-- The search path finds the tool once the packages are installed. -/
def Available (image : Image) (tool : String) : Prop :=
  ∃ dir ∈ image.path, dir ++ "/" ++ tool ∈ image.executables ∨
    ∃ p ∈ packages image.kernel, dir ++ "/" ++ tool ∈ image.contents p

instance (image : Image) (tool : String) : Decidable (Available image tool) :=
  have (dir : String) : Decidable (∃ p ∈ packages image.kernel, dir ++ "/" ++ tool ∈ image.contents p) :=
    List.decidableBEx _ _
  List.decidableBEx _ _

/-- The other executables the user data makes. -/
def ownExecutables : List String := hf :: scripts

/-- A fact that a list of packages accounts for. -/
def Fact.From (packages : List String) : Fact → Prop
  | .package name => name ∈ packages
  | .executable path => path ∈ ownExecutables
  | _ => True

instance (packages : List String) (f : Fact) : Decidable (f.From packages) :=
  match f with
  | .package name => inferInstanceAs (Decidable (name ∈ packages))
  | .executable path => inferInstanceAs (Decidable (path ∈ ownExecutables))
  | .directory _ | .file _ | .enabled _ => .isTrue trivial

def Setup.From (packages : List String) (c : Setup) : Prop := ∀ f ∈ c.makes, f.From packages

instance (packages : List String) : DecidablePred (Setup.From packages) :=
  fun c => List.decidableBAll (Fact.From packages) c.makes

/-- A test of the instance answers as the type of the instance says. -/
def canType : Setup → Bool → Prop
  | .typeIsP digits, ok =>
      ok = digits.any fun d => [' ', 'p', d] <:+: ("instance-type: " ++ instanceType).toList
  | _, _ => True

instance (c : Setup) (ok : Bool) : Decidable (canType c ok) :=
  match c with
  | .typeIsP digits => inferInstanceAs (Decidable (ok = digits.any fun d =>
      [' ', 'p', d] <:+: ("instance-type: " ++ instanceType).toList))
  | .dnfClean | .dnfInstall _ | .cd _ | .kernelIs _ | .append _ | .enable _ | .restart _
  | .usermod _ _ | .nvidiaCtk | .write _ | .modprobe _ | .venv _ | .pipInstall _ _
  | .isNotExecutable _ | .exitError | .hfVersion _ | .isNoDirectory _ | .gitClone _ | .chown _
  | .chmodX _ | .commandV _ | .test _ | .daemonReload | .touch _ | .reboot => .isTrue trivial

theorem executes_installDrivers :
    installDrivers.Executes (Setup.From setupPackages) canType := by
  decide +kernel

/-- Any test answers as it can on the image. -/
def can (image : Image) (c : Setup) (ok : Bool) : Prop := ∃ w w', setup image c w ok w'

theorem canType_of_can {image : Image} {c : Setup} {ok : Bool} (h : can image c ok) :
    canType c ok := by
  obtain ⟨w, w', h⟩ := h
  cases c with
  | typeIsP digits => exact h.2
  | _ => trivial

theorem executes_runAll {allowed : Setup → Prop} {can : Setup → Bool → Prop} {commands : List Setup}
    {rest : Script Setup} (hcommands : ∀ c ∈ commands, allowed c)
    (hrest : rest.Executes allowed can) : (runAll commands rest).Executes allowed can := by
  induction commands with
  | nil => exact hrest
  | cons c commands ih =>
    exact ⟨hcommands c List.mem_cons_self,
      ih fun c' hc' => hcommands c' (List.mem_cons_of_mem _ hc')⟩

theorem from_dnfInstall {all names : List String} (h : names ⊆ all) :
    Setup.From all (.dnfInstall names) := by
  intro f hf
  obtain ⟨name, hname, rfl⟩ := List.mem_map.mp hf
  exact h hname

theorem Fact.From.mono {packages packages' : List String} (h : packages ⊆ packages') {f : Fact}
    (hf : f.From packages) : f.From packages' := by
  cases f with
  | package name => exact h hf
  | executable path => exact hf
  | _ => trivial

/-- The user data only installs what belongs to the kernel of the image. -/
theorem executes_userData (image : Image) :
    (userData image.kernel).Executes (Setup.From (packages image.kernel)) (can image) := by
  have hdrivers : installDrivers.Executes (Setup.From (packages image.kernel)) (can image) := by
    refine executes_installDrivers.mono (fun c hc f hf => (hc f hf).mono ?_) fun c ok =>
      canType_of_can
    exact List.subset_append_right _ _
  have hbranch : ∀ lists : List (List String), packagesOf image.kernel = lists →
      (runAll (lists.map .dnfInstall) installDrivers).Executes
        (Setup.From (packages image.kernel)) (can image) := by
    intro lists hlists
    refine executes_runAll (fun c hc => ?_) hdrivers
    obtain ⟨names, hnames, rfl⟩ := List.mem_map.mp hc
    refine from_dnfInstall fun name hname => ?_
    refine List.mem_append_left _ (List.mem_cons_of_mem _ ?_)
    rw [hlists]
    exact List.mem_flatten.mpr ⟨names, hnames, hname⟩
  refine executes_runAll (fun c hc => ?_) ⟨fun f hf => absurd hf List.not_mem_nil, ?_, ?_⟩
  · rcases List.mem_cons.mp hc with rfl | hc
    · exact fun f hf => absurd hf List.not_mem_nil
    · rw [List.mem_singleton.mp hc]
      exact from_dnfInstall (by simp [packages])
  · rintro ⟨w, w', -, hanswer⟩
    exact hbranch _ (if_pos (of_decide_eq_true hanswer.symm))
  · rintro ⟨w, w', -, hanswer⟩
    exact hbranch _ (if_neg (of_decide_eq_false hanswer.symm))

/-- Whatever is on the machine comes from the image, its packages or the user data itself. -/
structure Accounted (image : Image) (m : Machine) : Prop where
  facts : ∀ f ∈ m.facts, f.From (packages image.kernel) ∨
    ∃ path ∈ image.executables, f = .executable path
  userData : ∀ p, m.userData = some p →
    p.Executes (Setup.From (packages image.kernel)) (can image)

theorem accounted_launch (image : Image) (disk : Disk) : Accounted image (launch image disk) where
  facts f hf := by
    rcases Finset.mem_insert.mp hf with rfl | hf
    · exact .inl trivial
    · obtain ⟨path, hpath, rfl⟩ := List.mem_map.mp (List.mem_toFinset.mp hf)
      exact .inr ⟨path, hpath, rfl⟩
  userData p hp := by
    obtain rfl := userData_launch hp
    exact executes_userData image

theorem accounted_live {image : Image} {m m' : Machine} {e : Life}
    (h : live image m e = some m') (hm : Accounted image m) : Accounted image m' := by
  rcases live_cases h with ⟨p, c, ok, hp, hc, hsetup, hnext, -⟩ | ⟨a, -, -, -, hfacts, huserData⟩
  · have hexecutes := hm.userData p hp
    refine ⟨fun f hf => ?_, fun q hq => ?_⟩
    · rcases setup_adds hsetup hf with hold | hmakes
      · exact hm.facts f hold
      · exact .inl (executes_current hexecutes hc f hmakes)
    · rw [hnext] at hq
      exact executes_next hexecutes hc ⟨_, _, hsetup⟩ hq
  · refine ⟨fun f hf => hm.facts f (hfacts ▸ hf), fun q hq => ?_⟩
    rcases huserData with huserData | huserData
    · exact hm.userData q (huserData ▸ hq)
    · rw [huserData] at hq
      cases hq

/-- None of the user data's own executables is one of the tools. -/
theorem ownExecutables_ne : ∀ path ∈ ownExecutables, ∀ tool ∈ verified,
    ¬ tool.toList <:+ path.toList := by
  decide +kernel

theorem available_of_onPath {image : Image} {m : Machine} (hm : Accounted image m) {tool : String}
    (htool : tool ∈ verified) (h : OnPath image m.facts tool) : Available image tool := by
  obtain ⟨dir, hdir, f, hf, hprovides⟩ := h
  refine ⟨dir, hdir, ?_⟩
  cases f with
  | package name =>
    rcases hm.facts _ hf with hfrom | ⟨path, -, heq⟩
    · exact .inr ⟨name, hfrom, hprovides⟩
    · cases heq
  | executable path =>
    have hpath : path = dir ++ "/" ++ tool := hprovides
    rcases hm.facts _ hf with hfrom | ⟨path', hpath', heq⟩
    · have hsuffix : tool.toList <:+ path.toList := by
        rw [hpath, String.toList_append]
        exact List.suffix_append _ _
      exact absurd hsuffix (ownExecutables_ne path hfrom tool htool)
    · obtain rfl := Fact.executable.inj heq
      rw [← hpath]
      exact .inl hpath'
  | directory path => exact hprovides.elim
  | file path => exact hprovides.elim
  | enabled unit => exact hprovides.elim

/-! ### The way to the end -/

/-- The command only tests something. -/
def isTest : Setup → Bool
  | .kernelIs _ | .typeIsP _ | .isNotExecutable _ | .exitError | .isNoDirectory _ | .commandV _
  | .test _ => true
  | _ => false

/-- What a test asserts the absence of. -/
def denies : Setup → List Fact
  | .isNotExecutable path => [.executable path]
  | .isNoDirectory path => [.directory path]
  | _ => []

/-- A test can answer so where some facts are known. -/
def Possible (known : List Fact) (c : Setup) (ok : Bool) : Prop :=
  (∀ f ∈ denies c, f ∈ known → ok = false) ∧ canType c ok

instance (known : List Fact) (c : Setup) (ok : Bool) : Decidable (Possible known c ok) :=
  have := List.decidableBAll (fun f => f ∈ known → ok = false) (denies c)
  inferInstanceAs (Decidable ((∀ f ∈ denies c, f ∈ known → ok = false) ∧ canType c ok))

/-- A command succeeds where some facts are known, if it is no test of anything but these, or looks
for a tool when all packages are installed. -/
def Ready (known : List Fact) (c : Setup) : Prop :=
  (∀ f ∈ c.needs, f ∈ known) ∧
    (isTest c = false ∨ (∃ f ∈ c.needs, c = .test f) ∨
      (∃ tool ∈ verified, Finds tool c) ∧ ∀ p ∈ setupPackages, .package p ∈ known)

instance (known : List Fact) (c : Setup) : Decidable (Ready known c) :=
  have := List.decidableBAll (· ∈ known) c.needs
  have := List.decidableBEx (fun f => c = .test f) c.needs
  have := List.decidableBEx (Finds · c) verified
  have := List.decidableBAll (Fact.package · ∈ known) setupPackages
  inferInstanceAs (Decidable ((∀ f ∈ c.needs, f ∈ known) ∧
    (isTest c = false ∨ (∃ f ∈ c.needs, c = .test f) ∨
      (∃ tool ∈ verified, Finds tool c) ∧ ∀ p ∈ setupPackages, .package p ∈ known)))

/-- From some known facts on, the script gets to its end with the servers enabled, whatever the tests
answer that do not depend on these. -/
def Feasible : List Fact → Script Setup → Prop
  | known, .exit => ∀ s ∈ servers, s.enabled ∈ known
  | known, .run c rest => Ready known c ∧ Feasible (c.makes ++ known) rest
  | known, .cond c yes no => isTest c = true ∧ (Possible known c true → Feasible known yes) ∧
      (Possible known c false → Feasible (denies c ++ known) no)
  | _, .loop _ _ => False

instance decidableFeasible : ∀ (known : List Fact) (p : Script Setup), Decidable (Feasible known p)
  | known, .exit => List.decidableBAll (fun s => HostUnit.enabled s ∈ known) servers
  | known, .run c rest =>
    have := decidableFeasible (c.makes ++ known) rest
    inferInstanceAs (Decidable (Ready known c ∧ Feasible (c.makes ++ known) rest))
  | known, .cond c yes no =>
    have := decidableFeasible known yes
    have := decidableFeasible (denies c ++ known) no
    inferInstanceAs (Decidable (isTest c = true ∧ (Possible known c true → Feasible known yes) ∧
      (Possible known c false → Feasible (denies c ++ known) no)))
  | _, .loop _ _ => .isFalse id

def bashrc : Fact := .file ("/home/" ++ user ++ "/.bashrc")

theorem feasible_installDrivers : Feasible [bashrc] installDrivers := by
  decide +kernel

section Completes

variable {image : Image} {known : List Fact} {c : Setup} {w : Facts} {p : Script Setup}

/-- Once the packages are installed, the search path finds the tools. -/
def Finding (image : Image) (w : Facts) : Prop :=
  ∀ w', w ⊆ w' → (∀ p ∈ setupPackages, .package p ∈ w') → ∀ tool ∈ verified, OnPath image w' tool

theorem Finding.mono {w' : Facts} (h : w ⊆ w') (hw : Finding image w) : Finding image w' :=
  fun w'' hw'' => hw w'' (h.trans hw'')

theorem setup_attempt (hc : isTest c = false) (hneeds : ∀ f ∈ c.needs, f ∈ w) :
    setup image c w true (w ∪ c.makes.toFinset) := by
  have hanswer : c.answer image w = none := by
    cases c <;> first | rfl | cases hc
  simp only [setup, hanswer]
  exact ⟨hneeds, rfl⟩

theorem setup_ready (h : Ready known c) (hknown : ∀ f ∈ known, f ∈ w) (hfinding : Finding image w) :
    setup image c w true (w ∪ c.makes.toFinset) := by
  obtain ⟨hneeds, hcases⟩ := h
  have hneeds : ∀ f ∈ c.needs, f ∈ w := fun f hf => hknown f (hneeds f hf)
  rcases hcases with htest | ⟨f, hf, rfl⟩ | ⟨⟨tool, htool, rfl⟩, hpackages⟩
  · exact setup_attempt htest hneeds
  · have hf := hneeds f hf
    simp [setup, Setup.answer, Setup.makes, hf]
  · have hpath : OnPath image w tool :=
      hfinding w (Finset.Subset.refl _) (fun p hp => hknown _ (hpackages p hp)) tool htool
    simp [setup, Setup.answer, Setup.makes, hpath]

variable (image) in
/-- A test answers, in a way that is possible, and a negative answer tells what it denies. -/
theorem setup_test (hc : isTest c = true) (hknown : ∀ f ∈ known, f ∈ w) :
    ∃ ok, setup image c w ok w ∧ Possible known c ok ∧ (ok = false → ∀ f ∈ denies c, f ∈ w) := by
  have hsome : ∃ ok, c.answer image w = some ok := by
    cases c <;> first | exact ⟨_, rfl⟩ | cases hc
  obtain ⟨ok, hok⟩ := hsome
  have hsetup : setup image c w ok w := by
    simp only [setup, hok]
    exact ⟨trivial, trivial⟩
  refine ⟨ok, hsetup, ⟨fun f hf hmem => ?_, canType_of_can ⟨w, w, hsetup⟩⟩, fun hfalse f hf => ?_⟩
  · have hmem := hknown f hmem
    cases c <;> simp [denies] at hf <;> subst hf <;> simpa [Setup.answer, hmem] using hok.symm
  · subst hfalse
    cases c <;> simp [denies] at hf <;> subst hf <;> simpa [Setup.answer] using hok

theorem completes_of_feasible (h : Feasible known p) (hknown : ∀ f ∈ known, f ∈ w)
    (hfinding : Finding image w) :
    ∃ w', p.Completes (setup image) w w' ∧ ∀ s ∈ servers, s.enabled ∈ w' := by
  induction p generalizing known w with
  | exit => exact ⟨w, .exit, fun s hs => hknown _ (h s hs)⟩
  | run c rest ih =>
    have hsetup := setup_ready h.1 hknown hfinding
    have hknown' : ∀ f ∈ c.makes ++ known, f ∈ w ∪ c.makes.toFinset := by
      intro f hf
      rcases List.mem_append.mp hf with hf | hf
      · exact Finset.mem_union_right _ (List.mem_toFinset.mpr hf)
      · exact Finset.mem_union_left _ (hknown f hf)
    obtain ⟨w', hrest, henabled⟩ := ih h.2 hknown' (hfinding.mono Finset.subset_union_left)
    exact ⟨w', .run hsetup hrest, henabled⟩
  | cond c yes no ihYes ihNo =>
    obtain ⟨ok, hsetup, hpossible, hdenies⟩ := setup_test image h.1 hknown
    cases ok with
    | true =>
      obtain ⟨w', hrest, henabled⟩ := ihYes (h.2.1 hpossible) hknown hfinding
      exact ⟨w', .yes hsetup hrest, henabled⟩
    | false =>
      have hknown' : ∀ f ∈ denies c ++ known, f ∈ w :=
        fun f hf => (List.mem_append.mp hf).elim (hdenies rfl f) (hknown f)
      obtain ⟨w', hrest, henabled⟩ := ihNo (h.2.2 hpossible) hknown' hfinding
      exact ⟨w', .no hsetup hrest, henabled⟩
  | loop c rest => exact h.elim

/-- Commands that need nothing, then the rest. -/
theorem completes_runAll {commands : List Setup} {rest : Script Setup} {w' : Facts}
    (hcommands : ∀ c ∈ commands, isTest c = false ∧ c.needs = [])
    (hrest : rest.Completes (setup image) (w ∪ (commands.flatMap Setup.makes).toFinset) w') :
    (runAll commands rest).Completes (setup image) w w' := by
  induction commands generalizing w with
  | nil => simpa [runAll, Finset.union_empty] using hrest
  | cons c commands ih =>
    obtain ⟨htest, hneeds⟩ := hcommands c List.mem_cons_self
    rw [List.flatMap_cons, List.toFinset_append, ← Finset.union_assoc] at hrest
    refine .run (setup_attempt htest ?_)
      (ih (fun c' hc' => hcommands c' (List.mem_cons_of_mem _ hc')) hrest)
    rw [hneeds]
    exact List.forall_mem_nil _

theorem makes_dnfInstall (lists : List (List String)) :
    (lists.map Setup.dnfInstall).flatMap Setup.makes = lists.flatten.map .package := by
  rw [List.flatMap_def, List.map_map, List.map_flatten]
  rfl

/-- Where the tools are available, the search path finds them when all packages are installed. -/
theorem finding_of_available (havailable : ∀ tool ∈ verified, Available image tool)
    (himage : ∀ path ∈ image.executables, .executable path ∈ w) (hdkms : .package "dkms" ∈ w)
    (hkernel : ∀ name ∈ (packagesOf image.kernel).flatten, .package name ∈ w) : Finding image w := by
  intro w' hw' hpackages tool htool
  obtain ⟨dir, hdir, hexecutable | ⟨name, hname, hcontents⟩⟩ := havailable tool htool
  · exact ⟨dir, hdir, .executable _, hw' (himage _ hexecutable), rfl⟩
  · refine ⟨dir, hdir, .package name, ?_, hcontents⟩
    rcases List.mem_append.mp hname with hname | hname
    · rcases List.mem_cons.mp hname with rfl | hname
      · exact hw' hdkms
      · exact hw' (hkernel name hname)
    · exact hpackages name hname

/-- The user data can come to its end then, with the servers enabled. -/
theorem completes_userData (havailable : ∀ tool ∈ verified, Available image tool)
    (himage : ∀ path ∈ image.executables, .executable path ∈ w) (hbashrc : bashrc ∈ w) :
    ∃ w', (userData image.kernel).Completes (setup image) w w' ∧ ∀ s ∈ servers, s.enabled ∈ w' := by
  have hinstall : ∃ w', (runAll ((packagesOf image.kernel).map .dnfInstall) installDrivers).Completes
      (setup image) (w ∪ [.package "dkms"].toFinset) w' ∧ ∀ s ∈ servers, s.enabled ∈ w' := by
    have hfinding : Finding image (w ∪ [.package "dkms"].toFinset ∪
        ((packagesOf image.kernel).flatten.map .package).toFinset) := by
      apply finding_of_available havailable
      · intro path hpath
        exact Finset.mem_union_left _ (Finset.mem_union_left _ (himage path hpath))
      · exact Finset.mem_union_left _ (Finset.mem_union_right _ (by simp))
      · intro name hname
        exact Finset.mem_union_right _ (List.mem_toFinset.mpr (List.mem_map_of_mem hname))
    obtain ⟨w', hcompletes, henabled⟩ :=
      completes_of_feasible feasible_installDrivers (by simp [hbashrc]) hfinding
    refine ⟨w', completes_runAll ?_ (makes_dnfInstall _ ▸ hcompletes), henabled⟩
    intro c hc
    obtain ⟨names, -, rfl⟩ := List.mem_map.mp hc
    exact ⟨rfl, rfl⟩
  obtain ⟨w', hcompletes, henabled⟩ := hinstall
  refine ⟨w', completes_runAll (by simp [isTest, Setup.needs]) ?_, henabled⟩
  by_cases hkernel : "6.1.".toList <+: image.kernel.toList
  · rw [packagesOf, if_pos hkernel] at hcompletes
    exact .yes ⟨rfl, (decide_eq_true hkernel).symm⟩ hcompletes
  · rw [packagesOf, if_neg hkernel] at hcompletes
    exact .no ⟨rfl, (decide_eq_false hkernel).symm⟩ hcompletes

variable (image) in
/-- The machine executes what is left of its user data. -/
theorem live_completes {w' : Facts} (h : p.Completes (setup image) w w')
    (host : Host HostUnit Command Disk) :
    ∃ es, exec (live image) ⟨some p, w, host⟩ es = some ⟨some .exit, w', host⟩ := by
  have hcommand : ∀ {q q' : Script Setup} {c : Setup} {ok : Bool} {w w₁ w' : Facts},
      q.current = some c → q.next ok = some q' → setup image c w ok w₁ →
      (∃ es, exec (live image) ⟨some q', w₁, host⟩ es = some ⟨some .exit, w', host⟩) →
      ∃ es, exec (live image) ⟨some q, w, host⟩ es = some ⟨some .exit, w', host⟩ := by
    intro q q' c ok w w₁ w' hc hq hsetup ⟨es, hes⟩
    refine ⟨.userData ok w₁ :: es, ?_⟩
    simp [exec, live, hc, hq, hsetup, hes]
  induction h with
  | exit => exact ⟨[], rfl⟩
  | run hsetup _ ih => exact hcommand rfl rfl hsetup ih
  | yes hsetup _ ih => exact hcommand rfl rfl hsetup ih
  | no hsetup _ ih => exact hcommand rfl rfl hsetup ih
  | loop hsetup _ ih => exact hcommand rfl rfl hsetup ih

end Completes

/-! ### Whether a server is ever started -/

/-- Some life of a host with this image gets to a point where the server is active. -/
def Serves (image : Image) (s : HostUnit) : Prop :=
  ∃ disk es m, exec (live image) (launch image disk) es = some m ∧ (m.host.unit s).isActive = true

/-- Where the user data is not executed nothing is ever started. -/
theorem executes_of_serves {image : Image} {s : HostUnit} (h : Serves image s) :
    image.executes userDataHead = true := by
  obtain ⟨disk, es, m, hexec, hactive⟩ := h
  by_contra hnot
  have hlost : Always (live image) (launch image disk) es fun m =>
      m.userData = none ∧ ∀ s ∈ servers, s.enabled ∉ m.facts :=
    always_of_invariant ⟨if_neg hnot, fun _ _ => notMem_launch disk⟩ (fun _ _ _ => lost_live) es
  have hsound : Sound image m :=
    always_of_invariant (sound_launch disk) (fun _ _ _ => sound_live) es es m
      (List.prefix_refl _) hexec
  have hnone := (hlost es m (List.prefix_refl _) hexec).2
  rw [hsound.not_wanted hnone s] at hactive
  cases hactive

theorem self_mem_pulls (s : HostUnit) : s ∈ pulls s := by
  simp [pulls]

/-- An image whose shell searches some directories, with the toolkit where the units have it on their
path. -/
def amazonLinux (executes : String → Bool) (path : List String) : Image where
  kernel := "6.1.141-155.222.amzn2023.x86_64"
  path := path
  executables := ["/usr/bin/ec2-metadata", "/usr/bin/sed"]
  contents
    | "nvidia-open" => ["/usr/bin/nvidia-smi"]
    | "cuda-toolkit" => ["/usr/local/cuda/bin/nvcc"]
    | "cmake" => ["/usr/bin/cmake"]
    | "git" => ["/usr/bin/git"]
    | "docker" => ["/usr/bin/docker"]
    | "python3.12" => ["/usr/bin/python3.12"]
    | _ => []
  executes := executes

/-- The text as it is has to begin with `#!`. -/
def beginsScript (text : String) : Bool := "#!".toList.isPrefixOf text.toList

/-- The blanks before it do not count. -/
def beginsScriptTrimmed (text : String) : Bool :=
  "#!".toList.isPrefixOf (text.toList.dropWhile Char.isWhitespace)

end ModulithInfra.Model
