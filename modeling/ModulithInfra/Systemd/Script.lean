import Mathlib.Logic.Basic

/-!
# Shell scripts under `set -e`

A script is the tree of the commands it may execute: a command whose failure ends the script, a test
with a branch for each answer, a loop that repeats a command until it succeeds. The world changes
only through commands; what a command may do and whether it succeeds is a relation `effect`.

`Upholds` is a rely-guarantee specification of a script from a world: whatever others do to the
world within `rely`, every command it executes respects `guar`, and where it exits with status 0,
`post` holds.
-/

namespace Systemd

inductive Script (Cmd : Type) : Type where
  /-- the end of the script, or `exit 0` -/
  | exit
  /-- a command whose failure ends the script -/
  | run (c : Cmd) (rest : Script Cmd)
  /-- `if c; then …; else …; fi`, each branch with the rest of the script -/
  | cond (c : Cmd) (yes no : Script Cmd)
  /-- `until c; do sleep …; done` -/
  | loop (c : Cmd) (rest : Script Cmd)

namespace Script

variable {Cmd : Type}

/-- The command the script executes next. -/
def current : Script Cmd → Option Cmd
  | .exit => none
  | .run c _ => some c
  | .cond c _ _ => some c
  | .loop c _ => some c

/-- What is left after the next command, which succeeded or failed; `none` if that was an error. -/
def next : Script Cmd → Bool → Option (Script Cmd)
  | .exit, _ => none
  | .run _ rest, ok => if ok then some rest else none
  | .cond _ yes no, ok => some (if ok then yes else no)
  | .loop c rest, ok => some (if ok then rest else .loop c rest)

end Script

/-- What a command may do to the world, and whether it succeeds. -/
abbrev Effect (Cmd World : Type) := Cmd → World → Bool → World → Prop

/-- A rely-guarantee specification of a script. -/
structure Contract (Cmd World : Type) where
  /-- what others may do to the world -/
  rely : World → World → Prop
  /-- what each command does -/
  guar : Effect Cmd World
  rely_refl : ∀ w, rely w w
  rely_trans : ∀ {w w' w''}, rely w w' → rely w' w'' → rely w w''

section Upholds

variable {Cmd World : Type} (effect : Effect Cmd World) (contract : Contract Cmd World)

/-- The script respects its contract from world `w` on and exits only where `post` holds. A round of
a loop that fails must not do more than others may. -/
def Upholds (post : World → Prop) : Script Cmd → World → Prop
  | .exit, w => post w
  | .run c rest, w => ∀ w₁, contract.rely w w₁ → ∀ ok w₂, effect c w₁ ok w₂ →
      contract.guar c w₁ ok w₂ ∧ (ok = true → Upholds post rest w₂)
  | .cond c yes no, w => ∀ w₁, contract.rely w w₁ → ∀ ok w₂, effect c w₁ ok w₂ →
      contract.guar c w₁ ok w₂ ∧ (ok = true → Upholds post yes w₂) ∧
        (ok = false → Upholds post no w₂)
  | .loop c rest, w => ∀ w₁, contract.rely w w₁ → ∀ ok w₂, effect c w₁ ok w₂ →
      contract.guar c w₁ ok w₂ ∧ (ok = true → Upholds post rest w₂) ∧
        (ok = false → contract.rely w₁ w₂)

variable {effect contract} {post : World → Prop} {p q : Script Cmd} {w w' : World} {c : Cmd}

/-- What others do does not matter, as long as they cannot break the postcondition. -/
theorem Upholds.rely (hpost : ∀ w w', contract.rely w w' → post w → post w')
    (hrely : contract.rely w w') (h : Upholds effect contract post p w) :
    Upholds effect contract post p w' := by
  cases p with
  | exit => exact hpost w w' hrely h
  | run c rest => exact fun w₁ hw₁ => h w₁ (contract.rely_trans hrely hw₁)
  | cond c yes no => exact fun w₁ hw₁ => h w₁ (contract.rely_trans hrely hw₁)
  | loop c rest => exact fun w₁ hw₁ => h w₁ (contract.rely_trans hrely hw₁)

/-- A command of the script respects the guarantee and leaves the rest of the script upheld. -/
theorem Upholds.step (hpost : ∀ w w', contract.rely w w' → post w → post w')
    (h : Upholds effect contract post p w) (hc : p.current = some c) {ok : Bool}
    (heffect : effect c w ok w') :
    contract.guar c w ok w' ∧ ∀ q, p.next ok = some q → Upholds effect contract post q w' := by
  cases p with
  | exit => cases hc
  | run d rest =>
    obtain rfl := Option.some.inj hc
    obtain ⟨hguar, hrest⟩ := h w (contract.rely_refl w) ok w' heffect
    refine ⟨hguar, fun q hq => ?_⟩
    cases ok with
    | false => cases hq
    | true =>
      obtain rfl := Option.some.inj hq
      exact hrest rfl
  | cond d yes no =>
    obtain rfl := Option.some.inj hc
    obtain ⟨hguar, hyes, hno⟩ := h w (contract.rely_refl w) ok w' heffect
    refine ⟨hguar, fun q hq => ?_⟩
    obtain rfl := Option.some.inj hq
    cases ok with
    | false => exact hno rfl
    | true => exact hyes rfl
  | loop d rest =>
    obtain rfl := Option.some.inj hc
    obtain ⟨hguar, hrest, hround⟩ := h w (contract.rely_refl w) ok w' heffect
    refine ⟨hguar, fun q hq => ?_⟩
    obtain rfl := Option.some.inj hq
    cases ok with
    | false => exact h.rely hpost (hround rfl)
    | true => exact hrest rfl

end Upholds

end Systemd
