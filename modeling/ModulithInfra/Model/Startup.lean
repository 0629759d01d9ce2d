import ModulithInfra.Systemd.Units
import Mathlib.Data.Finset.Basic
import Mathlib.Data.Finset.Filter

/-!
# Start-up of the model host

The scripts and units that provisioning leaves on the model instance: `llama-build.service` builds
the server, a download unit fetches each of the two models, a server unit serves each of them. The
disk survives reboots, the state of the units does not.

Every file a server names belongs to one unit: its script may create it, no other script touches it,
and it only runs `rm -rf` or a download after a test found the file missing. So whatever the
interleaving, failures, crashes and reboots, a server is only started where its files exist, and no
such file is ever lost or fetched again (`startup_safe`).
-/

namespace ModulithInfra.Model

open Systemd Runs

/-- The paths of the files that exist, and are executable where that matters. -/
abbrev Disk := Finset String

inductive Command : Type where
  | mkdir (path : String)
  | nvidiaSmi
  | nvcc
  | cd (path : String)
  /-- `[ -x path ]` -/
  | isExecutable (path : String)
  /-- `[ ! -f path ]` -/
  | isNoFile (path : String)
  | rmRf (path : String)
  /-- `cmake -B build` -/
  | cmakeConfigure (build : String)
  /-- `cmake --build build` -/
  | cmakeBuild (build : String)
  /-- `hf download repo file --local-dir dir` -/
  | hfDownload (repo file dir : String)

/-- The path lies inside the directory. -/
def Inside (dir path : String) : Prop := (dir ++ "/").toList <+: path.toList

instance (dir path : String) : Decidable (Inside dir path) :=
  inferInstanceAs (Decidable (_ <+: _))

/-- What a command may do to the disk. A build that fails may have come as far as the server; a
download that fails has not come to its file; an `rm -rf` that fails has removed some of it. -/
def effect : Effect Command Disk
  | .isExecutable path, d, ok, d' => d' = d ∧ (ok = true ↔ path ∈ d)
  | .isNoFile path, d, ok, d' => d' = d ∧ (ok = true ↔ path ∉ d)
  | .rmRf dir, d, true, d' => d' = d.filter (¬ Inside dir ·)
  | .rmRf dir, d, false, d' => d' ⊆ d ∧ d.filter (¬ Inside dir ·) ⊆ d'
  | .cmakeBuild dir, d, true, d' => d' = insert (dir ++ "/bin/llama-server") d
  | .cmakeBuild dir, d, false, d' => d' = d ∨ d' = insert (dir ++ "/bin/llama-server") d
  | .hfDownload _ file dir, d, true, d' => d' = insert (dir ++ "/" ++ file) d
  | _, d, _, d' => d' = d

instance (c : Command) (d : Disk) (ok : Bool) (d' : Disk) : Decidable (effect c d ok d') :=
  match c, ok with
  | .isExecutable path, ok => inferInstanceAs (Decidable (d' = d ∧ (ok = true ↔ path ∈ d)))
  | .isNoFile path, ok => inferInstanceAs (Decidable (d' = d ∧ (ok = true ↔ path ∉ d)))
  | .rmRf dir, true => inferInstanceAs (Decidable (d' = d.filter (¬ Inside dir ·)))
  | .rmRf dir, false => inferInstanceAs (Decidable (d' ⊆ d ∧ d.filter (¬ Inside dir ·) ⊆ d'))
  | .cmakeBuild dir, true =>
      inferInstanceAs (Decidable (d' = insert (dir ++ "/bin/llama-server") d))
  | .cmakeBuild dir, false =>
      inferInstanceAs (Decidable (d' = d ∨ d' = insert (dir ++ "/bin/llama-server") d))
  | .hfDownload _ file dir, true => inferInstanceAs (Decidable (d' = insert (dir ++ "/" ++ file) d))
  | .hfDownload _ _ _, false => inferInstanceAs (Decidable (d' = d))
  | .mkdir _, _ => inferInstanceAs (Decidable (d' = d))
  | .nvidiaSmi, _ => inferInstanceAs (Decidable (d' = d))
  | .nvcc, _ => inferInstanceAs (Decidable (d' = d))
  | .cd _, _ => inferInstanceAs (Decidable (d' = d))
  | .cmakeConfigure _, _ => inferInstanceAs (Decidable (d' = d))

/-! ### The scripts -/

def user : String := "ec2-user"

def llamaDir : String := "/home/" ++ user ++ "/llama.cpp"

/-- `build-llama.sh`; the build directory is relative to the directory of the `cd`. -/
def buildLlama : Script Command :=
  .run (.mkdir ("/home/" ++ user ++ "/models")) <|
  .loop .nvidiaSmi <|
  .run .nvcc <|
  .run .nvidiaSmi <|
  .run (.cd llamaDir) <|
  .cond (.isExecutable (llamaDir ++ "/build/bin/llama-server")) .exit <|
  .run (.rmRf (llamaDir ++ "/build")) <|
  .run (.cmakeConfigure (llamaDir ++ "/build")) <|
  .run (.cmakeBuild (llamaDir ++ "/build")) .exit

/-- A script that downloads one file of a repository unless it is there. -/
def download (modelDir repo file : String) : Script Command :=
  .run (.mkdir modelDir) <|
  .cond (.isNoFile (modelDir ++ "/" ++ file))
    (.run (.hfDownload repo file modelDir) .exit)
    .exit

def llamaModelDir : String := "/home/" ++ user ++ "/models/Llama-3.1-8B-Instruct"

def llamaModelFile : String := "Meta-Llama-3.1-8B-Instruct-Q5_K_M.gguf"

/-- `download-llama-model.sh` -/
def downloadLlamaModel : Script Command :=
  download llamaModelDir "bartowski/Meta-Llama-3.1-8B-Instruct-GGUF" llamaModelFile

def nomicEmbedDir : String := "/home/" ++ user ++ "/models/nomic-embed"

def nomicEmbedFile : String := "nomic-embed-text-v1.5.Q4_K_M.gguf"

/-- `download-nomic-embed.sh` -/
def downloadNomicEmbed : Script Command :=
  download nomicEmbedDir "nomic-ai/nomic-embed-text-v1.5-GGUF" nomicEmbedFile

/-! ### The units -/

inductive HostUnit : Type where
  | llamaBuild
  | llamaDownload
  | nomicEmbedDownload
  | llamaServer
  | nomicEmbedServer
  deriving DecidableEq

def service : HostUnit → Service HostUnit Command
  | .llamaBuild => ⟨[], some buildLlama⟩
  | .llamaDownload => ⟨[.llamaBuild], some downloadLlamaModel⟩
  | .nomicEmbedDownload => ⟨[.llamaBuild], some downloadNomicEmbed⟩
  | .llamaServer => ⟨[.llamaDownload], none⟩
  | .nomicEmbedServer => ⟨[.nomicEmbedDownload], none⟩

/-- The program of a server's `ExecStart` and its `--model`. -/
structure ExecStart where
  program : String
  model : String

def execStart : HostUnit → Option ExecStart
  | .llamaServer => some
      { program := "/home/ec2-user/llama.cpp/build/bin/llama-server"
        model := "/home/ec2-user/models/Llama-3.1-8B-Instruct/Meta-Llama-3.1-8B-Instruct-Q5_K_M.gguf" }
  | .nomicEmbedServer => some
      { program := "/home/ec2-user/llama.cpp/build/bin/llama-server"
        model := "/home/ec2-user/models/nomic-embed/nomic-embed-text-v1.5.Q4_K_M.gguf" }
  | _ => none

/-! ### Who owns which file -/

def executable : String := llamaDir ++ "/build/bin/llama-server"

def llamaModel : String := llamaModelDir ++ "/" ++ llamaModelFile

def nomicEmbedModel : String := nomicEmbedDir ++ "/" ++ nomicEmbedFile

/-- The files the servers need. -/
def files : List String := [executable, llamaModel, nomicEmbedModel]

/-- The file a unit's script creates. -/
def target : HostUnit → Option String
  | .llamaBuild => some executable
  | .llamaDownload => some llamaModel
  | .nomicEmbedDownload => some nomicEmbedModel
  | _ => none

/-- The files that exist while a unit is active. -/
def needs : HostUnit → List String
  | .llamaBuild => [executable]
  | .llamaDownload | .llamaServer => [executable, llamaModel]
  | .nomicEmbedDownload | .nomicEmbedServer => [executable, nomicEmbedModel]

theorem target_mem {u : HostUnit} {path : String} (h : target u = some path) : path ∈ files := by
  cases u <;> cases h <;> simp [files]

theorem files_nodup : files.Nodup := by decide +kernel

theorem target_inj {u v : HostUnit} {path : String} (hu : target u = some path)
    (hv : target v = some path) : u = v := by
  have hnodup := files_nodup
  simp only [files, List.nodup_cons, List.mem_cons, List.not_mem_nil, or_false, not_or] at hnodup
  obtain ⟨⟨hllama, hnomic⟩, hmodels, -⟩ := hnodup
  rw [← hv] at hu
  cases u <;> cases v <;> simp_all [target, eq_comm]

theorem needs_subset (u : HostUnit) : ∀ path ∈ needs u, path ∈ files := by
  intro path hpath
  simp only [files, List.mem_cons, List.not_mem_nil, or_false]
  cases u <;> simp only [needs, List.mem_cons, List.not_mem_nil, or_false] at hpath <;> tauto

/-- What one command of a unit may do to the files. -/
structure Guarantee (u : HostUnit) (c : Command) (d d' : Disk) : Prop where
  keeps : ∀ path ∈ files, path ∈ d → path ∈ d'
  owns : ∀ path ∈ files, target u ≠ some path → path ∈ d' → path ∈ d
  removes : ∀ dir, c = .rmRf dir → executable ∉ d
  downloads : ∀ repo file dir, c = .hfDownload repo file dir → dir ++ "/" ++ file ∉ d

/-- Files are kept by everyone, and only the unit itself creates its own. -/
def contract (u : HostUnit) : Contract Command Disk where
  rely d d' := (∀ path ∈ files, path ∈ d → path ∈ d') ∧
    ∀ path, target u = some path → path ∈ d' → path ∈ d
  guar c d _ d' := Guarantee u c d d'
  rely_refl _ := ⟨fun _ _ h => h, fun _ _ h => h⟩
  rely_trans h h' :=
    ⟨fun path hp hd => h'.1 path hp (h.1 path hp hd), fun path hp hd => h.2 path hp (h'.2 path hp hd)⟩

/-- What holds while a unit is active. -/
def Holds (u : HostUnit) (d : Disk) : Prop := ∀ path ∈ needs u, path ∈ d

theorem guar_rely {u v : HostUnit} (huv : u ≠ v) {c : Command} {d d' : Disk}
    (h : Guarantee u c d d') : (contract v).rely d d' := by
  refine ⟨h.keeps, fun path hv hd => h.owns path (target_mem hv) ?_ hd⟩
  intro hu
  exact huv (target_inj hu hv)

theorem holds_stable (u : HostUnit) (d d' : Disk) (hrely : (contract u).rely d d')
    (h : Holds u d) : Holds u d' :=
  fun path hpath => hrely.1 path (needs_subset u path hpath) (h path hpath)

/-! ### The scripts uphold their contracts -/

section Scripts

variable {u : HostUnit} {post : Disk → Prop} {rest : Script Command} {c : Command} {d : Disk}

/-- A command that leaves the disk alone. -/
def Idle (c : Command) : Prop :=
  (∀ d ok d', effect c d ok d' → d' = d) ∧ (∀ dir, c ≠ .rmRf dir) ∧
    ∀ repo file dir, c ≠ .hfDownload repo file dir

theorem Idle.guarantee (hc : Idle c) (d : Disk) : Guarantee u c d d where
  keeps _ _ h := h
  owns _ _ _ h := h
  removes dir h := absurd h (hc.2.1 dir)
  downloads repo file dir h := absurd h (hc.2.2 repo file dir)

theorem upholds_run (hc : Idle c)
    (h : ∀ d', (contract u).rely d d' → Upholds effect (contract u) post rest d') :
    Upholds effect (contract u) post (.run c rest) d := by
  intro d₁ hrely ok d₂ heffect
  obtain rfl := hc.1 d₁ ok d₂ heffect
  exact ⟨hc.guarantee d₂, fun _ => h d₂ hrely⟩

theorem upholds_loop (hc : Idle c)
    (h : ∀ d', (contract u).rely d d' → Upholds effect (contract u) post rest d') :
    Upholds effect (contract u) post (.loop c rest) d := by
  intro d₁ hrely ok d₂ heffect
  obtain rfl := hc.1 d₁ ok d₂ heffect
  exact ⟨hc.guarantee d₂, fun _ => h d₂ hrely, fun _ => (contract u).rely_refl d₂⟩

/-- The build directory holds the server and neither model. -/
theorem inside_build {path : String} (hpath : path ∈ files) (h : Inside (llamaDir ++ "/build") path) :
    path = executable := by
  revert path
  decide +kernel

/-- The removal of the previous build, where there is no server. -/
theorem guarantee_rmRf {ok : Bool} {d' : Disk} (hmissing : executable ∉ d)
    (heffect : effect (.rmRf (llamaDir ++ "/build")) d ok d') :
    Guarantee .llamaBuild (.rmRf (llamaDir ++ "/build")) d d' := by
  have hsub : d' ⊆ d ∧ d.filter (¬ Inside (llamaDir ++ "/build") ·) ⊆ d' := by
    cases ok with
    | true =>
      have heq : d' = d.filter (¬ Inside (llamaDir ++ "/build") ·) := heffect
      exact ⟨heq ▸ Finset.filter_subset _ _, heq ▸ Finset.Subset.refl _⟩
    | false => exact heffect
  refine ⟨fun path hpath hd => ?_, fun path _ _ hd => hsub.1 hd, fun _ _ => hmissing, nofun⟩
  refine hsub.2 (Finset.mem_filter.mpr ⟨hd, fun hinside => ?_⟩)
  rw [inside_build hpath hinside] at hd
  exact hmissing hd

theorem program_eq : llamaDir ++ "/build" ++ "/bin/llama-server" = executable := by
  decide +kernel

/-- A command that at most creates the file of its unit. -/
theorem guarantee_create {path : String} (htarget : target u = some path) {d' : Disk}
    (hcases : d' = d ∨ d' = insert path d) (hremoves : ∀ dir, c ≠ .rmRf dir)
    (hdownloads : ∀ repo file dir, c = .hfDownload repo file dir → dir ++ "/" ++ file ∉ d) :
    Guarantee u c d d' where
  keeps path' _ hd := by
    rcases hcases with rfl | rfl
    · exact hd
    · exact Finset.mem_insert_of_mem hd
  owns path' _ hne hd := by
    rcases hcases with rfl | rfl
    · exact hd
    · rcases Finset.mem_insert.mp hd with rfl | hd
      · exact absurd htarget hne
      · exact hd
  removes dir hc := absurd hc (hremoves dir)
  downloads := hdownloads

theorem guarantee_cmakeBuild {ok : Bool} {d' : Disk}
    (heffect : effect (.cmakeBuild (llamaDir ++ "/build")) d ok d') :
    Guarantee .llamaBuild (.cmakeBuild (llamaDir ++ "/build")) d d' := by
  have hcases : d' = d ∨ d' = insert executable d := by
    rw [← program_eq]
    cases ok with
    | true => exact .inr heffect
    | false => exact heffect
  exact guarantee_create rfl hcases nofun nofun

/-- The download of a unit's file, where it is missing. -/
theorem guarantee_hfDownload {dir repo file : String} (htarget : target u = some (dir ++ "/" ++ file))
    (hmissing : dir ++ "/" ++ file ∉ d) {ok : Bool} {d' : Disk}
    (heffect : effect (.hfDownload repo file dir) d ok d') :
    Guarantee u (.hfDownload repo file dir) d d' := by
  have hcases : d' = d ∨ d' = insert (dir ++ "/" ++ file) d := by
    cases ok with
    | true => exact .inr heffect
    | false => exact .inl heffect
  refine guarantee_create htarget hcases nofun fun repo' file' dir' heq => ?_
  cases heq
  exact hmissing

/-- The build script, from any disk: it exits only where the server is. -/
theorem upholds_buildLlama (d : Disk) :
    Upholds effect (contract .llamaBuild) (Holds .llamaBuild) buildLlama d := by
  have hidle : Idle .nvidiaSmi := ⟨fun _ _ _ h => h, nofun, nofun⟩
  refine upholds_run ⟨fun _ _ _ h => h, nofun, nofun⟩ fun d₁ _ => ?_
  refine upholds_loop hidle fun d₂ _ => ?_
  refine upholds_run ⟨fun _ _ _ h => h, nofun, nofun⟩ fun d₃ _ => ?_
  refine upholds_run hidle fun d₄ _ => ?_
  refine upholds_run ⟨fun _ _ _ h => h, nofun, nofun⟩ fun d₅ _ => ?_
  rintro d₆ - ok d₇ ⟨rfl, htest⟩
  have hidle' : Idle (.isExecutable (llamaDir ++ "/build/bin/llama-server")) :=
    ⟨fun _ _ _ h => h.1, nofun, nofun⟩
  refine ⟨hidle'.guarantee d₇, fun hok => ?_, fun hok => ?_⟩
  · -- the server is there: the script exits
    have hserver : executable ∈ d₇ := htest.mp hok
    simpa [Upholds, Holds, needs] using hserver
  · have hmissing : executable ∉ d₇ := by
      intro hd
      rw [htest.mpr hd] at hok
      cases hok
    intro d₈ hrely ok' d₉ heffect
    have hmissing' : executable ∉ d₈ := fun hd => hmissing (hrely.2 _ rfl hd)
    refine ⟨guarantee_rmRf hmissing' heffect, fun _ => ?_⟩
    refine upholds_run ⟨fun _ _ _ h => h, nofun, nofun⟩ fun d₁₀ _ => ?_
    intro d₁₁ _ ok'' d₁₂ heffect'
    refine ⟨guarantee_cmakeBuild heffect', fun hok'' => ?_⟩
    subst hok''
    have heq : d₁₂ = insert executable d₁₁ := by
      rw [← program_eq]
      exact heffect'
    rw [heq]
    simp [Upholds, Holds, needs]

/-- A download script, where the server is: it exits only where the model is as well. -/
theorem upholds_download {dir repo file : String} (htarget : target u = some (dir ++ "/" ++ file))
    (hneeds : needs u = [executable, dir ++ "/" ++ file]) (hserver : executable ∈ d) :
    Upholds effect (contract u) (Holds u) (download dir repo file) d := by
  have hkeep : ∀ {d d' : Disk}, (contract u).rely d d' → executable ∈ d → executable ∈ d' :=
    fun hrely hd => hrely.1 executable (by simp [files]) hd
  refine upholds_run ⟨fun _ _ _ h => h, nofun, nofun⟩ fun d₁ hrely₁ => ?_
  rintro d₂ hrely₂ ok d₃ ⟨rfl, htest⟩
  have hserver' : executable ∈ d₃ := hkeep hrely₂ (hkeep hrely₁ hserver)
  have hidle : Idle (.isNoFile (dir ++ "/" ++ file)) := ⟨fun _ _ _ h => h.1, nofun, nofun⟩
  refine ⟨hidle.guarantee d₃, fun hok => ?_, fun hok => ?_⟩
  · have hmissing := htest.mp hok
    intro d₄ hrely₄ ok' d₅ heffect
    have hmissing' : dir ++ "/" ++ file ∉ d₄ := fun hd => hmissing (hrely₄.2 _ htarget hd)
    refine ⟨guarantee_hfDownload htarget hmissing' heffect, fun hok' => ?_⟩
    subst hok'
    have heq : d₅ = insert (dir ++ "/" ++ file) d₄ := heffect
    show Holds u d₅
    rw [Holds, hneeds, heq]
    simp [hkeep hrely₄ hserver']
  · -- the model is there: the script ends
    have hmodel : dir ++ "/" ++ file ∈ d₃ := by
      by_contra hd
      rw [htest.mpr hd] at hok
      cases hok
    show Holds u d₃
    rw [Holds, hneeds]
    simp [hserver', hmodel]

end Scripts

/-! ### Every run -/

/-- The units of the model host, proved one by one. -/
def startup : Proof service effect where
  contract := contract
  holds := Holds
  compatible _ _ huv _ _ _ _ h := guar_rely huv h
  stable := holds_stable
  launched u d h := by
    cases u with
    | llamaBuild => exact upholds_buildLlama d
    | llamaDownload =>
      have hbuild := h .llamaBuild (by simp [service])
      exact upholds_download rfl rfl (hbuild executable (by simp [needs]))
    | nomicEmbedDownload =>
      have hbuild := h .llamaBuild (by simp [service])
      exact upholds_download rfl rfl (hbuild executable (by simp [needs]))
    | llamaServer => exact h .llamaDownload (by simp [service])
    | nomicEmbedServer => exact h .nomicEmbedDownload (by simp [service])

/-- The files of an `ExecStart` are those its unit needs. -/
theorem execStart_files {u : HostUnit} {exec : ExecStart} (h : execStart u = some exec) :
    exec.program = executable ∧ exec.program ∈ needs u ∧ exec.model ∈ needs u := by
  cases u <;> cases h <;> decide +kernel

/-- A server requires a unit that needs the same files. -/
theorem execStart_requires {u : HostUnit} {exec : ExecStart} (h : execStart u = some exec) :
    ∃ r ∈ (service u).requires, needs r = needs u := by
  cases u with
  | llamaServer => exact ⟨.llamaDownload, by simp [service], rfl⟩
  | nomicEmbedServer => exact ⟨.nomicEmbedDownload, by simp [service], rfl⟩
  | _ => cases h

/-- In every run from every disk, through any failures, crashes and reboots: a server is started
only where its program and its model exist; neither is ever lost again; the previous build is only
removed, and a file only downloaded, where it is missing, and then no server is active. -/
theorem startup_safe (d : Disk) (es : List (Event HostUnit Disk)) :
    EachStep (step service effect) (down d) es fun h e h' =>
      (∀ u exec, e = .start u → execStart u = some exec →
        exec.program ∈ h.world ∧ exec.model ∈ h.world) ∧
      (∀ u exec, execStart u = some exec →
        (exec.program ∈ h.world → exec.program ∈ h'.world) ∧
          (exec.model ∈ h.world → exec.model ∈ h'.world)) ∧
      (∀ u ok w dir, e = .command u ok w → h.current u = some (.rmRf dir) →
        ∀ v exec, execStart v = some exec →
          exec.program ∉ h.world ∧ (h.unit v).isActive = false) ∧
      (∀ u ok w repo file dir, e = .command u ok w →
        h.current u = some (.hfDownload repo file dir) → dir ++ "/" ++ file ∉ h.world) := by
  refine (startup.eachStep_sound d es).mono fun h e h' hsound => ⟨?_, ?_, ?_, ?_⟩
  · intro u exec he hexec
    obtain ⟨r, hr, hneeds⟩ := execStart_requires hexec
    obtain ⟨-, hprogram, hmodel⟩ := execStart_files hexec
    have hholds : Holds r h.world := hsound.start u he r hr
    exact ⟨hholds _ (hneeds ▸ hprogram), hholds _ (hneeds ▸ hmodel)⟩
  · intro u exec hexec
    obtain ⟨-, hprogram, hmodel⟩ := execStart_files hexec
    rcases hsound.world with ⟨v, ok, c, hguar⟩ | hsame
    · have hkeeps := Guarantee.keeps hguar
      exact ⟨hkeeps _ (needs_subset u _ hprogram), hkeeps _ (needs_subset u _ hmodel)⟩
    · rw [hsame]
      exact ⟨id, id⟩
  · intro u ok w dir he hc v exec hexec
    obtain ⟨hprogram, hneeded, -⟩ := execStart_files hexec
    have hmissing := (hsound.command u ok w _ he hc).removes dir rfl
    refine ⟨hprogram ▸ hmissing, ?_⟩
    by_contra hactive
    have hholds : Holds v h.world :=
      startup.holds_of_active hsound.invariant (by simpa using hactive)
    exact hmissing (hprogram ▸ hholds _ hneeded)
  · intro u ok w repo file dir he hc
    exact (hsound.command u ok w _ he hc).downloads repo file dir rfl

/-- A first boot on an empty disk, up to the start of the llama server. -/
example :
    let built : Disk := {executable}
    let ready : Disk := {llamaModel, executable}
    let commands (u : HostUnit) := List.map fun r : Bool × Disk => Event.command u r.1 r.2
    let es := [.start .llamaBuild] ++
      commands .llamaBuild [(true, ∅), (true, ∅), (true, ∅), (true, ∅), (true, ∅), (false, ∅),
        (true, ∅), (true, ∅), (true, built)] ++ [.exited .llamaBuild, .start .llamaDownload] ++
      commands .llamaDownload [(true, built), (true, built), (true, ready)] ++
      [.exited .llamaDownload, .start .llamaServer]
    (exec (step service effect) (down ∅) es).any (fun h => (h.unit .llamaServer).isActive) = true := by
  decide +kernel

end ModulithInfra.Model
