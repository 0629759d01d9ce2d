import ModulithInfra.App.Names
import ModulithInfra.Text.Rule

/-!
# The environment

`app.py` takes the environment from a variable and puts it in front of every stack id. Nothing checks
it but CDK, which checks the stack ids. They all pass if and only if the environment has their form
itself and leaves room for the longest of them (`accepted_iff`).
-/

namespace ModulithInfra.App

open Text

/-- `[A-Za-z][A-Za-z0-9-]*`. -/
def stackNamePattern : Rule where
  minLength := 1
  first := Char.isAlpha
  char c := c.isAlphanum || c = '-'

/-- CDK's check of a stack id. -/
def stackName : Rule := { stackNamePattern with maxLength := some 128 }

/-- An environment in the form of a stack name. -/
structure Environment where
  name : String
  obeys : stackNamePattern.Obeys name

theorem obeys_prod : stackNamePattern.Obeys "prod" := by decide +kernel

/-- The environment where the variable is not set. -/
def Environment.prod : Environment := ⟨"prod", obeys_prod⟩

/-- Every stack id of the app passes the check. -/
def Accepted (environment : String) : Prop :=
  ∀ s ∈ appStacks environment, stackName.Obeys (Name.stack environment s)

instance (environment : String) : Decidable (Accepted environment) :=
  inferInstanceAs (Decidable (∀ s ∈ _, _))

/-! ### Accepted environments -/

/-- The endings of the stack ids, none of them longer than that of `PostgresConfigStack`. -/
theorem ends_className (s : Stack) :
    stackName.Ends ("-" ++ s.className) ∧ ("-" ++ s.className).toList.length ≤ 20 := by
  cases s <;> decide +kernel

theorem stack_obeys_iff {environment : String} (hne : environment ≠ "") (s : Stack) :
    stackName.Obeys (Name.stack environment s) ↔
      stackName.Room environment ("-" ++ s.className).toList.length := by
  rw [Name.stack, String.append_assoc]
  exact Rule.obeys_append_iff hne (ends_className s).1

/-- Without an environment a stack id begins with a hyphen. -/
theorem Accepted.ne_empty {environment : String} (h : Accepted environment) : environment ≠ "" := by
  rintro rfl
  obtain ⟨-, -, hfirst, -⟩ := h .vpcStack (by simp [appStacks])
  simp [Name.stack, stackName, stackNamePattern] at hfirst

/-- The stack ids pass if and only if the environment has the form of one, with 108 characters at
most. -/
theorem accepted_iff (environment : String) :
    Accepted environment ↔
      stackNamePattern.Obeys environment ∧ environment.toList.length ≤ 108 := by
  constructor
  · intro h
    have hne := h.ne_empty
    have hlength : environment.toList.length ≠ 0 := by simpa using hne
    obtain ⟨-, hmax, hfirst, hchar, -⟩ :=
      (stack_obeys_iff hne .postgresConfigStack).mp (h _ (by simp [appStacks]))
    have hbound : environment.toList.length + 20 ≤ 128 := hmax 128 rfl
    refine ⟨⟨Nat.one_le_iff_ne_zero.mpr hlength, nofun, hfirst, hchar, nofun, nofun, nofun⟩, ?_⟩
    omega
  · rintro ⟨⟨hmin, -, hfirst, hchar, -⟩, hbound⟩ s -
    have hne : environment ≠ "" := by
      rintro rfl
      simp [stackNamePattern] at hmin
    have hending := (ends_className s).2
    refine (stack_obeys_iff hne s).mpr ⟨Nat.le_add_right_of_le hmin, ?_, hfirst, hchar, nofun, nofun⟩
    intro n hn
    obtain rfl := Option.some.inj hn
    omega

namespace Environment

variable (environment : Environment)

theorem char {c : Char} (hc : c ∈ environment.name.toList) : c.isAlphanum = true ∨ c = '-' := by
  obtain ⟨-, -, -, hchar, -⟩ := environment.obeys
  simpa [stackNamePattern] using List.all_eq_true.mp hchar c hc

end Environment

end ModulithInfra.App
