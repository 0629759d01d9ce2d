import ModulithInfra.Runs.History
import Mathlib.Data.Finset.Basic
import Mathlib.Logic.Function.Basic

/-!
# Tasks of containers

A task starts each of its containers at most once, and one that depends on the success of others only
after these have exited with code 0. The containers share the volumes of the task: a running container
does what it likes to the files of those it has mounted to write, and nothing to others. Once an
essential container has exited, or for a reason of its own, the task is stopped: it starts no container
any more and kills those that run.

What a container has achieved when it exits with code 0 then holds for all that are started after it,
if it concerns a volume that no other container can write (`holds_of_started`).
-/

namespace Ecs

open Runs

structure MountPoint where
  containerPath : String
  sourceVolume : String
  readOnly : Bool
  deriving DecidableEq

structure ContainerDefinition (ι : Type) where
  essential : Bool
  mountPoints : List MountPoint
  /-- the containers that have to exit with code 0 before -/
  success : List ι

inductive Status : Type where
  | pending
  | running
  | exited (code : Nat)
  deriving DecidableEq

/-- A file by its volume and its name there. -/
abbrev File := String × String

structure Task (ι : Type) where
  status : ι → Status
  files : Finset File
  stopping : Bool

inductive Event (ι : Type) : Type where
  | start (i : ι)
  /-- a running container leaves the volumes with these files -/
  | write (i : ι) (files : Finset File)
  | exit (i : ι) (code : Nat)
  | stop
  | kill (i : ι)

/-- The container sees a file under a path. -/
def Sees (mountPoints : List MountPoint) (files : Finset File) (path : String) : Prop :=
  ∃ m ∈ mountPoints, ∃ f ∈ files, f.1 = m.sourceVolume ∧ m.containerPath ++ "/" ++ f.2 = path

instance (mountPoints : List MountPoint) (files : Finset File) (path : String) :
    Decidable (Sees mountPoints files path) :=
  inferInstanceAs (Decidable (∃ m ∈ mountPoints, ∃ f ∈ files,
    f.1 = m.sourceVolume ∧ m.containerPath ++ "/" ++ f.2 = path))

/-- The container has a volume mounted to write. -/
def ContainerDefinition.Writes {ι : Type} (c : ContainerDefinition ι) (volume : String) : Prop :=
  ∃ m ∈ c.mountPoints, m.sourceVolume = volume ∧ m.readOnly = false

instance {ι : Type} (c : ContainerDefinition ι) : DecidablePred c.Writes :=
  fun volume => inferInstanceAs (Decidable (∃ m ∈ c.mountPoints,
    m.sourceVolume = volume ∧ m.readOnly = false))

section Sound

variable {ι : Type} (containers : ι → ContainerDefinition ι)

/-- Only files of volumes that the container writes may differ. -/
def Leaves (i : ι) (files files' : Finset File) : Prop :=
  ∀ f ∈ files ∪ files', (containers i).Writes f.1 ∨ f ∈ files ∧ f ∈ files'

instance (i : ι) (files files' : Finset File) : Decidable (Leaves containers i files files') :=
  inferInstanceAs (Decidable (∀ f ∈ files ∪ files',
    (containers i).Writes f.1 ∨ f ∈ files ∧ f ∈ files'))

/-- A task on empty volumes. -/
def launch : Task ι where
  status _ := .pending
  files := ∅
  stopping := false

variable {containers} {t : Task ι} {i j : ι}

/-- A fact about the files of one volume. -/
def Concerns (volume : String) (P : Finset File → Prop) : Prop :=
  ∀ files files' : Finset File, (∀ f : File, f.1 = volume → (f ∈ files ↔ f ∈ files')) →
    P files → P files'

/-- What holds of the containers and what they achieve at any time. -/
structure Sound (containers : ι → ContainerDefinition ι) (j : ι) (P : Finset File → Prop)
    (t : Task ι) : Prop where
  /-- a container was only started after those whose success it depends on -/
  started : ∀ i, t.status i ≠ .pending → ∀ k ∈ (containers i).success, t.status k = .exited 0
  achieved : t.status j = .exited 0 → P t.files
  /-- the exit of an essential container stops the task -/
  essential : ∀ i code, (containers i).essential = true → t.status i = .exited code →
    t.stopping = true

theorem sound_launch {P : Finset File → Prop} : Sound containers j P (launch : Task ι) where
  started _ hi := absurd rfl hi
  achieved h := by cases h
  essential _ _ _ h := by cases h

/-- A container that does not write the volume leaves what concerns it. -/
theorem Concerns.leaves {volume : String} {P : Finset File → Prop} (hP : Concerns volume P)
    {files files' : Finset File} (hleaves : Leaves containers i files files')
    (hwrites : ¬ (containers i).Writes volume) (h : P files) : P files' := by
  refine hP files files' (fun f hf => ⟨fun hmem => ?_, fun hmem => ?_⟩) h
  · rcases hleaves f (Finset.mem_union_left _ hmem) with hw | hboth
    · exact absurd (hf ▸ hw) hwrites
    · exact hboth.2
  · rcases hleaves f (Finset.mem_union_right _ hmem) with hw | hboth
    · exact absurd (hf ▸ hw) hwrites
    · exact hboth.1

/-- What a container has achieved holds for those that depend on its success, while they run and
after. -/
theorem Sound.holds_of_started {P : Finset File → Prop} (ht : Sound containers j P t)
    (hj : j ∈ (containers i).success) (hi : t.status i ≠ .pending) : P t.files :=
  ht.achieved (ht.started i hi j hj)

end Sound

section Step

variable {ι : Type} [DecidableEq ι] (containers : ι → ContainerDefinition ι)
variable (achieves : ι → Finset File → Prop) [∀ i files, Decidable (achieves i files)]

def step (t : Task ι) : Event ι → Option (Task ι)
  | .start i =>
    if t.status i = .pending ∧ t.stopping = false ∧
        ∀ j ∈ (containers i).success, t.status j = .exited 0 then
      some { t with status := Function.update t.status i .running }
    else none
  | .write i files =>
    if t.status i = .running ∧ Leaves containers i t.files files then
      some { t with files := files }
    else none
  | .exit i code =>
    if t.status i = .running ∧ (code = 0 → achieves i t.files) then
      some
        { t with
          status := Function.update t.status i (.exited code)
          stopping := t.stopping || (containers i).essential }
    else none
  | .stop => some { t with stopping := true }
  | .kill i =>
    if t.stopping = true ∧ t.status i = .running then
      some { t with status := Function.update t.status i (.exited 137) }
    else none

variable {containers achieves} {t t' : Task ι} {e : Event ι} {i j : ι}

/-- What a step can be: a container is started, writes, or has exited, or nothing but the end of the
task is decided. -/
theorem step_cases (h : step containers achieves t e = some t') :
    (∃ i, t.status i = .pending ∧ (∀ j ∈ (containers i).success, t.status j = .exited 0) ∧
      t'.status = Function.update t.status i .running ∧ t'.files = t.files ∧
      t'.stopping = t.stopping) ∨
    (∃ i, t.status i = .running ∧ Leaves containers i t.files t'.files ∧ t'.status = t.status ∧
      t'.stopping = t.stopping) ∨
    (∃ i code, t.status i = .running ∧ (code = 0 → achieves i t.files) ∧
      t'.status = Function.update t.status i (.exited code) ∧ t'.files = t.files ∧
      ((containers i).essential = true ∨ t.stopping = true → t'.stopping = true)) ∨
    t'.status = t.status ∧ t'.files = t.files ∧ t'.stopping = true := by
  cases e with
  | start i =>
    simp only [step] at h
    split_ifs at h with hguard
    obtain rfl := Option.some.inj h
    exact .inl ⟨i, hguard.1, hguard.2.2, rfl, rfl, rfl⟩
  | write i files =>
    simp only [step] at h
    split_ifs at h with hguard
    obtain rfl := Option.some.inj h
    exact .inr (.inl ⟨i, hguard.1, hguard.2, rfl, rfl⟩)
  | exit i code =>
    simp only [step] at h
    split_ifs at h with hguard
    obtain rfl := Option.some.inj h
    refine .inr (.inr (.inl ⟨i, code, hguard.1, hguard.2, rfl, rfl, ?_⟩))
    rintro (hessential | hstopping)
    · simp [hessential]
    · simp [hstopping]
  | stop =>
    obtain rfl := Option.some.inj h
    exact .inr (.inr (.inr ⟨rfl, rfl, rfl⟩))
  | kill i =>
    simp only [step] at h
    split_ifs at h with hguard
    obtain rfl := Option.some.inj h
    exact .inr (.inr (.inl ⟨i, 137, hguard.2, nofun, rfl, rfl, fun _ => hguard.1⟩))

/-- A container exits once. -/
theorem exited_step {code : Nat} (h : step containers achieves t e = some t')
    (hi : t.status i = .exited code) : t'.status i = .exited code := by
  have hother : ∀ k, t.status k ≠ .exited code → i ≠ k := by
    rintro k hk rfl
    exact hk hi
  rcases step_cases h with ⟨k, hk, -, hstatus, -⟩ | ⟨k, -, -, hstatus, -⟩ |
    ⟨k, c, hk, -, hstatus, -⟩ | ⟨hstatus, -⟩
  · rw [hstatus, Function.update_of_ne (hother k (by simp [hk])), hi]
  · rw [hstatus, hi]
  · rw [hstatus, Function.update_of_ne (hother k (by simp [hk])), hi]
  · rw [hstatus, hi]

/-- One that has exited had done so before, or does it now. -/
theorem exited_cases {code : Nat} (h : step containers achieves t e = some t')
    (hi : t'.status i = .exited code) :
    t.status i = .exited code ∨ t.status i = .running ∧ (code = 0 → achieves i t.files) ∧
      t'.files = t.files ∧ ((containers i).essential = true → t'.stopping = true) := by
  rcases step_cases h with ⟨k, -, -, hstatus, -⟩ | ⟨k, -, -, hstatus, -⟩ |
    ⟨k, c, hk, hcode, hstatus, hfiles, hstopping⟩ | ⟨hstatus, -⟩
  · rw [hstatus] at hi
    by_cases hik : i = k
    · simp [hik] at hi
    · rw [Function.update_of_ne hik] at hi
      exact .inl hi
  · exact .inl (hstatus ▸ hi)
  · rw [hstatus] at hi
    by_cases hik : i = k
    · subst hik
      rw [Function.update_self] at hi
      obtain rfl := Status.exited.inj hi
      exact .inr ⟨hk, hcode, hfiles, fun hessential => hstopping (.inl hessential)⟩
    · rw [Function.update_of_ne hik] at hi
      exact .inl hi
  · exact .inl (hstatus ▸ hi)

/-- One that has been started was started before, or is now. -/
theorem started_cases (h : step containers achieves t e = some t') (hi : t'.status i ≠ .pending) :
    t.status i ≠ .pending ∨ ∀ j ∈ (containers i).success, t.status j = .exited 0 := by
  rcases step_cases h with ⟨k, -, hsuccess, hstatus, -⟩ | ⟨k, -, -, hstatus, -⟩ |
    ⟨k, c, hk, -, hstatus, -⟩ | ⟨hstatus, -⟩
  · rw [hstatus] at hi
    by_cases hik : i = k
    · exact .inr (hik ▸ hsuccess)
    · rw [Function.update_of_ne hik] at hi
      exact .inl hi
  · exact .inl (hstatus ▸ hi)
  · rw [hstatus] at hi
    by_cases hik : i = k
    · exact .inl (by simp [hik, hk])
    · rw [Function.update_of_ne hik] at hi
      exact .inl hi
  · exact .inl (hstatus ▸ hi)

/-- A task that is being stopped goes on to be. -/
theorem stopping_step (h : step containers achieves t e = some t') (ht : t.stopping = true) :
    t'.stopping = true := by
  rcases step_cases h with ⟨-, -, -, -, -, hstopping⟩ | ⟨-, -, -, -, hstopping⟩ |
    ⟨i, code, -, -, -, -, hstopping⟩ | ⟨-, -, hstopping⟩
  · rw [hstopping, ht]
  · rw [hstopping, ht]
  · exact hstopping (.inr ht)
  · exact hstopping

/-- The files only change by a container that runs. -/
theorem files_cases (h : step containers achieves t e = some t') :
    t'.files = t.files ∨ ∃ i, t.status i = .running ∧ Leaves containers i t.files t'.files := by
  rcases step_cases h with ⟨-, -, -, -, hfiles, -⟩ | ⟨i, hi, hleaves, -⟩ |
    ⟨-, -, -, -, -, hfiles, -⟩ | ⟨-, hfiles, -⟩
  · exact .inl hfiles
  · exact .inr ⟨i, hi, hleaves⟩
  · exact .inl hfiles
  · exact .inl hfiles

theorem sound_step {volume : String} {P : Finset File → Prop} (hP : Concerns volume P)
    (hachieves : ∀ files, achieves j files → P files)
    (honly : ∀ k, (containers k).Writes volume → k = j)
    (h : step containers achieves t e = some t') (ht : Sound containers j P t) :
    Sound containers j P t' := by
  refine ⟨fun i hi k hk => exited_step h ?_, fun hj => ?_, fun i code hessential hi => ?_⟩
  · rcases started_cases h hi with hbefore | hsuccess
    · exact ht.started i hbefore k hk
    · exact hsuccess k hk
  · rcases exited_cases h hj with hbefore | ⟨-, hcode, hfiles, -⟩
    · rcases files_cases h with hfiles | ⟨k, hk, hleaves⟩
      · rw [hfiles]
        exact ht.achieved hbefore
      · -- the container that writes still runs, so it is not the one that has exited
        refine hP.leaves hleaves (fun hwrites => ?_) (ht.achieved hbefore)
        rw [honly k hwrites, hbefore] at hk
        cases hk
    · rw [hfiles]
      exact hachieves _ (hcode rfl)
  · rcases exited_cases h hi with hbefore | ⟨-, -, -, hstopping⟩
    · exact stopping_step h (ht.essential i code hessential hbefore)
    · exact hstopping hessential

/-! ### Services -/

variable (containers achieves) in
/-- The tasks of a service, launched one by one over time, each on its own. -/
def serviceStep (tasks : Nat → Task ι) (e : Nat × Event ι) : Option (Nat → Task ι) :=
  (step containers achieves (tasks e.1) e.2).map fun t => Function.update tasks e.1 t

/-- An invariant of a task holds of all tasks of a service. -/
theorem always_tasks {I : Task ι → Prop} (h0 : I launch)
    (h : ∀ t e t', step containers achieves t e = some t' → I t → I t') (es : List (Nat × Event ι)) :
    Always (serviceStep containers achieves) (fun _ => launch) es fun tasks => ∀ k, I (tasks k) := by
  refine always_of_invariant (fun _ => h0) (fun tasks e tasks' hstep htasks k => ?_) es
  obtain ⟨t, ht, rfl⟩ := Option.map_eq_some_iff.mp hstep
  by_cases hk : k = e.1
  · rw [hk, Function.update_self]
    exact h _ _ _ ht (htasks e.1)
  · rw [Function.update_of_ne hk]
    exact htasks k

end Step

end Ecs
