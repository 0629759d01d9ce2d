import ModulithInfra.Runs.History
import ModulithInfra.Systemd.Script
import Mathlib.Logic.Function.Basic

/-!
# Units of a service manager

Services that require others (`Requires=` together with `After=`) share a world that survives a
reboot. A oneshot unit runs a script and stays active after it exited with status 0; any other unit
runs until it crashes. A unit is started, any number of times, only while the units it requires are
active; a boot, which may come at any moment, resets the units and leaves the world as it is.

`Proof` is what there is to show about the units one by one: the contracts of their scripts and what
holds while each is active. `Proof.always_invariant` and `Proof.eachStep_sound` are what follows for
every run of all of them.
-/

namespace Systemd

open Runs

/-- The part of a unit file that decides what runs when. -/
structure Service (ι Cmd : Type) where
  /-- `Requires=`, with `After=` for the same units -/
  requires : List ι
  /-- the script of a oneshot unit; `none` for a unit that runs until it crashes -/
  script : Option (Script Cmd)

inductive State (Cmd : Type) : Type where
  | inactive
  | activating (p : Script Cmd)
  | active
  | failed

def State.isActive {Cmd : Type} : State Cmd → Bool
  | .active => true
  | _ => false

/-- The unit can be started: it is neither active nor on its way. -/
def State.isDown {Cmd : Type} : State Cmd → Bool
  | .inactive => true
  | .failed => true
  | _ => false

structure Host (ι Cmd World : Type) where
  unit : ι → State Cmd
  world : World

inductive Event (ι World : Type) : Type where
  /-- the unit's `ExecStart` is executed -/
  | start (u : ι)
  /-- the unit's script executes its next command -/
  | command (u : ι) (ok : Bool) (w : World)
  | exited (u : ι)
  | crash (u : ι)
  | boot

section Step

variable {ι Cmd World : Type} [DecidableEq ι] (service : ι → Service ι Cmd)
variable (effect : Effect Cmd World) [∀ c w ok w', Decidable (effect c w ok w')]

/-- The state of a unit whose `ExecStart` was just executed. -/
def Service.launched (s : Service ι Cmd) : State Cmd :=
  match s.script with
  | some p => .activating p
  | none => .active

/-- The command a unit is about to execute. -/
def Host.current (h : Host ι Cmd World) (u : ι) : Option Cmd :=
  match h.unit u with
  | .activating p => p.current
  | _ => none

/-- The state of a unit after its script executed a command. -/
def State.advance (s : State Cmd) (ok : Bool) : State Cmd :=
  match s with
  | .activating p =>
    match p.next ok with
    | some q => .activating q
    | none => .failed
  | _ => s

def step (h : Host ι Cmd World) : Event ι World → Option (Host ι Cmd World)
  | .start u =>
    if (h.unit u).isDown ∧ ∀ r ∈ (service u).requires, (h.unit r).isActive then
      some { h with unit := Function.update h.unit u (service u).launched }
    else none
  | .command u ok w =>
    match h.current u with
    | some c =>
      if effect c h.world ok w then
        some ⟨Function.update h.unit u ((h.unit u).advance ok), w⟩
      else none
    | none => none
  | .exited u =>
    match h.unit u with
    | .activating .exit => some { h with unit := Function.update h.unit u .active }
    | _ => none
  | .crash u =>
    match (service u).script, h.unit u with
    | none, .active => some { h with unit := Function.update h.unit u .failed }
    | _, _ => none
  | .boot => some { h with unit := fun _ => .inactive }

/-- All units down. -/
def down (w : World) : Host ι Cmd World := ⟨fun _ => .inactive, w⟩

variable {service effect} {h h' : Host ι Cmd World} {e : Event ι World}

/-- What a step can be. -/
theorem step_cases (hstep : step service effect h e = some h') :
    (∃ u, e = .start u ∧ (∀ r ∈ (service u).requires, (h.unit r).isActive = true) ∧
      h' = { h with unit := Function.update h.unit u (service u).launched }) ∨
    (∃ u ok w c, e = .command u ok w ∧ h.current u = some c ∧ effect c h.world ok w ∧
      h' = ⟨Function.update h.unit u ((h.unit u).advance ok), w⟩) ∨
    (∃ u, e = .exited u ∧ h.unit u = .activating .exit ∧
      h' = { h with unit := Function.update h.unit u .active }) ∨
    (∃ u, e = .crash u ∧ h' = { h with unit := Function.update h.unit u .failed }) ∨
    (e = .boot ∧ h' = { h with unit := fun _ => .inactive }) := by
  cases e with
  | start u =>
    simp only [step] at hstep
    split_ifs at hstep with hguard
    exact .inl ⟨u, rfl, hguard.2, (Option.some.inj hstep).symm⟩
  | command u ok w =>
    simp only [step] at hstep
    split at hstep
    case h_1 c hc =>
      split_ifs at hstep with heffect
      exact .inr (.inl ⟨u, ok, w, c, rfl, hc, heffect, (Option.some.inj hstep).symm⟩)
    case h_2 => cases hstep
  | exited u =>
    simp only [step] at hstep
    split at hstep
    case h_1 hexit =>
      exact .inr (.inr (.inl ⟨u, rfl, hexit, (Option.some.inj hstep).symm⟩))
    case h_2 => cases hstep
  | crash u =>
    simp only [step] at hstep
    split at hstep
    case h_1 =>
      exact .inr (.inr (.inr (.inl ⟨u, rfl, (Option.some.inj hstep).symm⟩)))
    case h_2 => cases hstep
  | boot => exact .inr (.inr (.inr (.inr ⟨rfl, (Option.some.inj hstep).symm⟩)))

end Step

/-! ### Units proved one by one -/

section Proof

variable {ι Cmd World : Type}

/-- What holds of a unit in some state: its script upholds its contract, or left what it was for. -/
def State.Sound (effect : Effect Cmd World) (contract : Contract Cmd World) (holds : World → Prop)
    (w : World) : State Cmd → Prop
  | .activating p => Upholds effect contract holds p w
  | .active => holds w
  | _ => True

structure Proof (service : ι → Service ι Cmd) (effect : Effect Cmd World) where
  contract : ι → Contract Cmd World
  /-- what holds while the unit is active -/
  holds : ι → World → Prop
  compatible : ∀ u v, u ≠ v → ∀ c w ok w', (contract u).guar c w ok w' → (contract v).rely w w'
  stable : ∀ u w w', (contract u).rely w w' → holds u w → holds u w'
  launched : ∀ u w, (∀ r ∈ (service u).requires, holds r w) →
    (service u).launched.Sound effect (contract u) (holds u) w

variable {service : ι → Service ι Cmd} {effect : Effect Cmd World}

namespace Proof

/-- Every unit is sound in its state. -/
def Invariant (P : Proof service effect) (h : Host ι Cmd World) : Prop :=
  ∀ u, (h.unit u).Sound effect (P.contract u) (P.holds u) h.world

variable (P : Proof service effect) {h h' : Host ι Cmd World}

/-- What others do to the world leaves a unit sound. -/
theorem sound_rely {u : ι} {s : State Cmd} {w w' : World} (hrely : (P.contract u).rely w w')
    (hs : s.Sound effect (P.contract u) (P.holds u) w) :
    s.Sound effect (P.contract u) (P.holds u) w' := by
  cases s with
  | inactive => trivial
  | activating p => exact Upholds.rely (P.stable u) hrely hs
  | active => exact P.stable u w w' hrely hs
  | failed => trivial

theorem holds_of_active (hI : P.Invariant h) {u : ι} (hu : (h.unit u).isActive = true) :
    P.holds u h.world := by
  have hs := hI u
  cases hunit : h.unit u with
  | active =>
    rw [hunit] at hs
    exact hs
  | inactive => simp [hunit, State.isActive] at hu
  | activating p => simp [hunit, State.isActive] at hu
  | failed => simp [hunit, State.isActive] at hu

/-- A command of a unit respects the guarantee of its contract, and leaves the unit sound. -/
theorem sound_command (hI : P.Invariant h) {u : ι} {c : Cmd} (hc : h.current u = some c) {ok : Bool}
    {w : World} (heffect : effect c h.world ok w) :
    (P.contract u).guar c h.world ok w ∧
      ((h.unit u).advance ok).Sound effect (P.contract u) (P.holds u) w := by
  have hs := hI u
  unfold Host.current at hc
  cases hunit : h.unit u with
  | activating p =>
    rw [hunit] at hs hc
    obtain ⟨hguar, hnext⟩ := Upholds.step (P.stable u) hs hc heffect
    refine ⟨hguar, ?_⟩
    simp only [State.advance]
    cases hq : p.next ok with
    | none => trivial
    | some q => exact hnext q hq
  | inactive => simp [hunit] at hc
  | active => simp [hunit] at hc
  | failed => simp [hunit] at hc

variable [DecidableEq ι]

/-- One unit changes its state, and perhaps the world. -/
theorem invariant_update {u : ι} {s : State Cmd} {w : World}
    (hu : s.Sound effect (P.contract u) (P.holds u) w)
    (hothers : ∀ v, v ≠ u → (h.unit v).Sound effect (P.contract v) (P.holds v) w) :
    P.Invariant ⟨Function.update h.unit u s, w⟩ := by
  intro v
  show (Function.update h.unit u s v).Sound effect _ _ w
  by_cases hvu : v = u
  · subst hvu
    rw [Function.update_self]
    exact hu
  · rw [Function.update_of_ne hvu]
    exact hothers v hvu

variable [∀ c w ok w', Decidable (effect c w ok w')]

theorem invariant_step {e : Event ι World} (hstep : step service effect h e = some h')
    (hI : P.Invariant h) : P.Invariant h' := by
  rcases step_cases hstep with ⟨u, -, hactive, rfl⟩ | ⟨u, ok, w, c, -, hc, heffect, rfl⟩ |
    ⟨u, -, hexit, rfl⟩ | ⟨u, -, rfl⟩ | ⟨-, rfl⟩
  · have hlaunched := P.launched u h.world fun r hr => P.holds_of_active hI (hactive r hr)
    exact P.invariant_update hlaunched fun v _ => hI v
  · obtain ⟨hguar, hadvance⟩ := P.sound_command hI hc heffect
    refine P.invariant_update hadvance fun v hvu => ?_
    exact P.sound_rely (P.compatible u v (Ne.symm hvu) _ _ _ _ hguar) (hI v)
  · have hs := hI u
    rw [hexit] at hs
    exact P.invariant_update hs fun v _ => hI v
  · exact P.invariant_update trivial fun v _ => hI v
  · exact fun _ => trivial

theorem always_invariant (w : World) (es : List (Event ι World)) :
    Always (step service effect) (down w) es P.Invariant :=
  always_of_invariant (fun _ => trivial) (fun _ _ _ => P.invariant_step) es

/-- What a proof says of one step: a unit is started only where what it requires holds, every command
respects the contract of its unit, and nothing else changes the world. -/
structure StepSound (h : Host ι Cmd World) (e : Event ι World) (h' : Host ι Cmd World) : Prop where
  invariant : P.Invariant h
  start : ∀ u, e = .start u → ∀ r ∈ (service u).requires, P.holds r h.world
  command : ∀ u ok w c, e = .command u ok w → h.current u = some c →
    (P.contract u).guar c h.world ok w
  world : (∃ u ok c, (P.contract u).guar c h.world ok h'.world) ∨ h'.world = h.world

theorem eachStep_sound (w : World) (es : List (Event ι World)) :
    EachStep (step service effect) (down w) es P.StepSound := by
  intro past e h h' hpast hh hstep
  have hI : P.Invariant h :=
    P.always_invariant w es past h ((List.prefix_append _ _).trans hpast) hh
  rcases step_cases hstep with ⟨u, rfl, hactive, rfl⟩ | ⟨u, ok, w', c, rfl, hc, heffect, rfl⟩ |
    ⟨u, rfl, -, rfl⟩ | ⟨u, rfl, rfl⟩ | ⟨rfl, rfl⟩
  · refine ⟨hI, fun v hv r hr => ?_, nofun, .inr rfl⟩
    obtain rfl := Event.start.inj hv
    exact P.holds_of_active hI (hactive r hr)
  · have hguar := (P.sound_command hI hc heffect).1
    refine ⟨hI, nofun, fun v ok' w c' hv hc' => ?_, .inl ⟨u, ok, c, hguar⟩⟩
    obtain ⟨rfl, rfl, rfl⟩ := Event.command.inj hv
    rw [hc] at hc'
    obtain rfl := Option.some.inj hc'
    exact hguar
  · exact ⟨hI, nofun, nofun, .inr rfl⟩
  · exact ⟨hI, nofun, nofun, .inr rfl⟩
  · exact ⟨hI, nofun, nofun, .inr rfl⟩

end Proof

end Proof

end Systemd
