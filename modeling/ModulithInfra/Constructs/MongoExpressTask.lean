import ModulithInfra.Constructs.MongoExpress
import ModulithInfra.Ecs.Task

/-!
# The tasks of Mongo Express

A task has two containers and a volume between them: `cert-init` copies the certificates of the
authorities there and exits, then Mongo Express is started, which mounts the volume to read. So no
console ever runs without the file that its environment names; a task whose copy failed never gets to
run one, and any other task that is not stopped before can (`mongoExpress_tasks`).
-/

namespace ModulithInfra.Constructs

open Ecs Runs

inductive TaskContainer : Type where
  | certInit
  | mongoExpress
  deriving DecidableEq

/-- What a container is started with. -/
structure ContainerSettings where
  containerName : String
  image : String
  command : List String
  environment : List (String × String)
  definition : ContainerDefinition TaskContainer

/-- `_add_cert_init` -/
def addCertInit (s3Uri logPrefix : String) : ContainerSettings where
  containerName := logPrefix ++ "-cert-init"
  image := "amazon/aws-cli:latest"
  command := ["s3", "cp", s3Uri, "/certs/ca-bundle.pem"]
  environment := []
  definition :=
    { essential := false
      mountPoints := [⟨"/certs", "certs", false⟩]
      success := [] }

def caBundleS3Uri : String := "s3://all-purpose-utility/certs/ca-bundle.pem"

def certInit : ContainerSettings := addCertInit caBundleS3Uri "documentdb"

def mainContainer (secret : DocumentDbSecret) : ContainerSettings where
  containerName := "mongo-express"
  image := "mongo-express:latest"
  command := []
  environment :=
    [("ME_CONFIG_MONGODB_URL", documentDbUri secret), ("ME_CONFIG_MONGODB_SSL", "true"),
      ("ME_CONFIG_BASICAUTH_USERNAME", "admin"), ("ME_CONFIG_BASICAUTH_PASSWORD", "password123"),
      ("ME_CONFIG_MONGODB_AUTH_DATABASE", "admin"), ("ME_CONFIG_MONGODB_AUTH_SOURCE", "admin"),
      ("ME_CONFIG_MONGODB_CA_FILE", "/certs/ca-bundle.pem"),
      ("ME_CONFIG_HEALTH_CHECK_PATH", "/status")]
  definition :=
    { essential := true
      mountPoints := [⟨"/certs", "certs", true⟩]
      success := [.certInit] }

section Task

variable (secret : DocumentDbSecret)

def settings : TaskContainer → ContainerSettings
  | .certInit => certInit
  | .mongoExpress => mainContainer secret

def containers (c : TaskContainer) : ContainerDefinition TaskContainer :=
  (settings secret c).definition

/-- `aws s3 cp` exits with code 0 once the file is at its target. -/
def achieves (c : TaskContainer) (files : Finset File) : Prop :=
  match (settings secret c).command with
  | ["s3", "cp", _, target] => Sees (containers secret c).mountPoints files target
  | _ => True

instance (c : TaskContainer) (files : Finset File) : Decidable (achieves secret c files) := by
  unfold achieves
  split <;> infer_instance

/-- The certificates are where Mongo Express looks for them. -/
def HasCertificates (files : Finset File) : Prop :=
  ("certs", "ca-bundle.pem") ∈ files

variable {secret} {t t' : Ecs.Task TaskContainer}

theorem concerns_certificates : Concerns "certs" HasCertificates :=
  fun _ _ hsame h => (hsame _ rfl).mp h

theorem achieves_certInit {files : Finset File} :
    achieves secret .certInit files ↔ HasCertificates files := by
  have happend : ∀ {name : String}, "/certs" ++ "/" ++ name = "/certs/ca-bundle.pem" →
      name = "ca-bundle.pem" := by
    intro name h
    have hlist := congrArg String.toList h
    rw [String.toList_append, show "/certs/ca-bundle.pem".toList =
      ("/certs" ++ "/").toList ++ "ca-bundle.pem".toList by decide +kernel] at hlist
    exact String.toList_injective (List.append_cancel_left hlist)
  constructor
  · rintro ⟨m, hm, f, hf, hvolume, hpath⟩
    obtain rfl := List.mem_singleton.mp hm
    have heq : f = ("certs", "ca-bundle.pem") := Prod.ext hvolume (happend hpath)
    rwa [heq] at hf
  · intro h
    exact ⟨⟨"/certs", "certs", false⟩, List.mem_singleton.mpr rfl, _, h, rfl, by decide +kernel⟩

theorem writes_certs {c : TaskContainer} (h : (containers secret c).Writes "certs") : c = .certInit := by
  cases c with
  | certInit => rfl
  | mongoExpress =>
    obtain ⟨m, hm, -, hwrites⟩ := h
    obtain rfl := List.mem_singleton.mp hm
    cases hwrites

/-! ### Starting the console -/

/-- What a maintainer counts on in a task at any time. -/
structure Attended (secret : DocumentDbSecret) (t : Ecs.Task TaskContainer) : Prop where
  /-- the console only runs where it sees the file that its environment names -/
  certificates : t.status .mongoExpress ≠ .pending →
    ∀ path, ("ME_CONFIG_MONGODB_CA_FILE", path) ∈ (mainContainer secret).environment →
      Sees (containers secret .mongoExpress).mountPoints t.files path
  /-- the task ends with the console -/
  ends : ∀ code, t.status .mongoExpress = .exited code → t.stopping = true
  /-- a task whose copy failed never gets to it -/
  failed : ∀ code, code ≠ 0 → t.status .certInit = .exited code → ∀ es t',
    exec (step (containers secret) (achieves secret)) t es = some t' →
      t'.status .mongoExpress = .pending
  /-- any other gets there unless it is stopped -/
  starts : t.stopping = false → (∀ code, t.status .certInit = .exited code → code = 0) →
    ∃ es t', exec (step (containers secret) (achieves secret)) t es = some t' ∧
      t'.status .mongoExpress = .running

/-- The invariant behind it. -/
abbrev Prepared (secret : DocumentDbSecret) : Ecs.Task TaskContainer → Prop :=
  Ecs.Sound (containers secret) .certInit HasCertificates

theorem prepared_step {e : Ecs.Event TaskContainer}
    (h : step (containers secret) (achieves secret) t e = some t') (ht : Prepared secret t) :
    Prepared secret t' :=
  sound_step concerns_certificates (fun _ => achieves_certInit.mp) (fun _ => writes_certs) h ht

theorem success_certInit : TaskContainer.certInit ∈ (containers secret .mongoExpress).success :=
  List.mem_singleton.mpr rfl

/-- Both containers have the same mount point. -/
theorem sees_of_hasCertificates {files : Finset File} (h : HasCertificates files) :
    Sees (containers secret .mongoExpress).mountPoints files "/certs/ca-bundle.pem" :=
  ⟨⟨"/certs", "certs", true⟩, List.mem_singleton.mpr rfl, _, h, rfl, by decide +kernel⟩

/-- The console starts once the copy has succeeded. -/
theorem starts_of_exited (ht : Prepared secret t) (hstopping : t.stopping = false)
    (hinit : t.status .certInit = .exited 0) :
    ∃ es t', exec (step (containers secret) (achieves secret)) t es = some t' ∧
      t'.status .mongoExpress = .running := by
  cases hmain : t.status .mongoExpress with
  | running => exact ⟨[], t, rfl, hmain⟩
  | exited code =>
    have hstopped := ht.essential .mongoExpress code rfl hmain
    rw [hstopping] at hstopped
    cases hstopped
  | pending =>
    have hsuccess : ∀ j ∈ (containers secret .mongoExpress).success, t.status j = .exited 0 := by
      intro j hj
      rwa [List.mem_singleton.mp hj]
    have hstart : step (containers secret) (achieves secret) t (.start .mongoExpress) =
        some { t with status := Function.update t.status .mongoExpress .running } :=
      if_pos ⟨hmain, hstopping, hsuccess⟩
    refine ⟨[.start .mongoExpress], _, by rw [exec, hstart]; rfl, ?_⟩
    exact Function.update_self TaskContainer.mongoExpress Status.running t.status

/-- The copy succeeds if nothing goes wrong. -/
theorem starts_of_running (ht : Prepared secret t) (hstopping : t.stopping = false)
    (hinit : t.status .certInit = .running) :
    ∃ es t', exec (step (containers secret) (achieves secret)) t es = some t' ∧
      t'.status .mongoExpress = .running := by
  let t₁ : Ecs.Task TaskContainer := { t with files := insert ("certs", "ca-bundle.pem") t.files }
  have hleaves : Leaves (containers secret) .certInit t.files t₁.files := by
    intro f hf
    rcases Finset.mem_union.mp hf with hold | hnew
    · exact .inr ⟨hold, Finset.mem_insert_of_mem hold⟩
    · rcases Finset.mem_insert.mp hnew with rfl | hold
      · exact .inl ⟨⟨"/certs", "certs", false⟩, List.mem_singleton.mpr rfl, rfl, rfl⟩
      · exact .inr ⟨hold, Finset.mem_insert_of_mem hold⟩
  have hwrite : step (containers secret) (achieves secret) t (.write .certInit t₁.files) = some t₁ :=
    if_pos ⟨hinit, hleaves⟩
  let t₂ : Ecs.Task TaskContainer :=
    { t₁ with
      status := Function.update t.status .certInit (.exited 0)
      stopping := t.stopping || false }
  have hexit : step (containers secret) (achieves secret) t₁ (.exit .certInit 0) = some t₂ :=
    if_pos ⟨hinit, fun _ => achieves_certInit.mpr (Finset.mem_insert_self _ _)⟩
  have hexited : t₂.status .certInit = .exited 0 :=
    Function.update_self TaskContainer.certInit (Status.exited 0) t.status
  obtain ⟨es, t', hexec, hrunning⟩ := starts_of_exited
    (prepared_step hexit (prepared_step hwrite ht)) (by simp [t₂, hstopping]) hexited
  refine ⟨.write .certInit t₁.files :: .exit .certInit 0 :: es, t', ?_, hrunning⟩
  rw [exec, hwrite, Option.bind_some, exec, hexit, Option.bind_some, hexec]

theorem attended_of_prepared (ht : Prepared secret t) : Attended secret t where
  certificates hstarted path hpath := by
    have hpath : path = "/certs/ca-bundle.pem" := by simpa [mainContainer] using hpath
    rw [hpath]
    exact sees_of_hasCertificates (ht.holds_of_started success_certInit hstarted)
  ends code hcode := ht.essential .mongoExpress code rfl hcode
  failed code hne hcode es t' hexec := by
    have hfailed : Always (step (containers secret) (achieves secret)) t es fun t =>
        t.status .certInit = .exited code :=
      always_of_invariant (P := fun t : Ecs.Task TaskContainer => t.status .certInit = .exited code)
        hcode (fun _ _ _ => exited_step) es
    have hprepared : Always (step (containers secret) (achieves secret)) t es (Prepared secret) :=
      always_of_invariant ht (fun _ _ _ => prepared_step) es
    have hcode' := hfailed es t' (List.prefix_refl _) hexec
    by_contra hstarted
    have hsuccess := (hprepared es t' (List.prefix_refl _) hexec).started _ hstarted _
      success_certInit
    rw [hcode'] at hsuccess
    exact hne (Status.exited.inj hsuccess)
  starts hstopping hcode := by
    cases hinit : t.status .certInit with
    | running => exact starts_of_running ht hstopping hinit
    | exited code =>
      obtain rfl := hcode code hinit
      exact starts_of_exited ht hstopping hinit
    | pending =>
      let t₁ : Ecs.Task TaskContainer :=
        { t with status := Function.update t.status .certInit .running }
      have hstart : step (containers secret) (achieves secret) t (.start .certInit) = some t₁ :=
        if_pos ⟨hinit, hstopping, fun j hj => absurd hj List.not_mem_nil⟩
      have hrunning : t₁.status .certInit = .running :=
        Function.update_self TaskContainer.certInit Status.running t.status
      obtain ⟨es, t', hexec, hrunning⟩ := starts_of_running (prepared_step hstart ht) hstopping
        hrunning
      refine ⟨.start .certInit :: es, t', ?_, hrunning⟩
      rw [exec, hstart, Option.bind_some, hexec]

end Task

/-- So are all the tasks that the service ever launches, whatever their containers do and however they
end. -/
theorem mongoExpress_tasks (secret : DocumentDbSecret)
    (es : List (Nat × Ecs.Event TaskContainer)) :
    Always (serviceStep (containers secret) (achieves secret)) (fun _ => launch) es fun tasks =>
      ∀ k, Attended secret (tasks k) :=
  (always_tasks sound_launch (fun _ _ _ => prepared_step) es).mono
    fun _ htasks k => attended_of_prepared (htasks k)

end ModulithInfra.Constructs
