import ModulithInfra.Runs.Bringup
import ModulithInfra.Systemd.Before
import ModulithInfra.Systemd.Units

/-!
# Bringing units up

Where the script of each unit can come to its end from any world, every list of units that puts each
of them after the units it requires can be brought up, one after the other (`exists_allActive`).
-/

namespace Systemd

open Runs

variable {ι Cmd World : Type}

/-- The event starts none but some units, and is no boot. -/
def Event.Within (units : List ι) : Event ι World → Prop
  | .start u => u ∈ units
  | .boot => False
  | _ => True

variable [DecidableEq ι] (service : ι → Service ι Cmd)
variable (effect : Effect Cmd World) [∀ c w ok w', Decidable (effect c w ok w')]

/-- Without a boot, and starting none but some units, the host can get from one state to another. -/
def Leads (units : List ι) (h h' : Host ι Cmd World) : Prop :=
  ∃ es, exec (step service effect) h es = some h' ∧ ∀ e ∈ es, e.Within units

variable {service effect} {units units' : List ι} {h h' h'' : Host ι Cmd World} {u : ι}

namespace Leads

theorem refl (units : List ι) (h : Host ι Cmd World) : Leads service effect units h h :=
  ⟨[], rfl, by simp⟩

theorem step {e : Event ι World} (he : e.Within units) (hstep : step service effect h e = some h') :
    Leads service effect units h h' := by
  refine ⟨[e], by simp [exec, hstep], fun e' he' => ?_⟩
  rw [List.mem_singleton.mp he']
  exact he

theorem trans (hleads : Leads service effect units h h') (hleads' : Leads service effect units h' h'') :
    Leads service effect units h h'' := by
  obtain ⟨es, hexec, hes⟩ := hleads
  obtain ⟨es', hexec', hes'⟩ := hleads'
  refine ⟨es ++ es', by rw [exec_append, hexec, Option.bind_some, hexec'], fun e he => ?_⟩
  rcases List.mem_append.mp he with he | he
  · exact hes e he
  · exact hes' e he

end Leads

theorem leads_command {p q : Script Cmd} {c : Cmd} {ok : Bool} {w : World}
    (hunit : h.unit u = .activating p) (hc : p.current = some c) (hq : p.next ok = some q)
    (heffect : effect c h.world ok w) :
    Leads service effect units h ⟨Function.update h.unit u (.activating q), w⟩ := by
  have hcurrent : h.current u = some c := by simp [Host.current, hunit, hc]
  have hstep : step service effect h (.command u ok w) =
      some ⟨Function.update h.unit u (.activating q), w⟩ := by
    simp [step, hcurrent, heffect, hunit, State.advance, hq]
  exact .step (e := .command u ok w) trivial hstep

/-- A script that can come to its end is brought there, the other units left alone. -/
theorem leads_exit {p : Script Cmd} {w w' : World} (hcompletes : p.Completes effect w w')
    {unit : ι → State Cmd} (hunit : unit u = .activating p) :
    Leads service effect units ⟨unit, w⟩ ⟨Function.update unit u (.activating .exit), w'⟩ := by
  induction hcompletes generalizing unit with
  | exit =>
    rw [← hunit, Function.update_eq_self]
    exact .refl _ _
  | run heffect _ ih =>
    have hrest := ih (Function.update_self u (.activating _) unit)
    rw [Function.update_idem] at hrest
    exact (leads_command hunit rfl rfl heffect).trans hrest
  | yes heffect _ ih =>
    have hrest := ih (Function.update_self u (.activating _) unit)
    rw [Function.update_idem] at hrest
    exact (leads_command hunit rfl rfl heffect).trans hrest
  | no heffect _ ih =>
    have hrest := ih (Function.update_self u (.activating _) unit)
    rw [Function.update_idem] at hrest
    exact (leads_command hunit rfl rfl heffect).trans hrest
  | loop heffect _ ih =>
    have hrest := ih (Function.update_self u (.activating _) unit)
    rw [Function.update_idem] at hrest
    exact (leads_command hunit rfl rfl heffect).trans hrest

/-- A unit that is down, while those it requires are active, can be brought up. -/
theorem exists_active (hu : u ∈ units) (hdown : (h.unit u).isDown = true)
    (hrequires : ∀ r ∈ (service u).requires, (h.unit r).isActive = true)
    (hscript : ∀ p, (service u).script = some p → ∃ w', p.Completes effect h.world w') :
    ∃ w', Leads service effect units h ⟨Function.update h.unit u .active, w'⟩ := by
  have hstart : Leads service effect units h
      ⟨Function.update h.unit u (service u).launched, h.world⟩ :=
    .step (e := .start u) hu (if_pos ⟨hdown, hrequires⟩)
  cases hs : (service u).script with
  | none =>
    refine ⟨h.world, ?_⟩
    simpa only [Service.launched, hs] using hstart
  | some p =>
    obtain ⟨w', hcompletes⟩ := hscript p hs
    have hlaunched : (service u).launched = .activating p := by simp only [Service.launched, hs]
    rw [hlaunched] at hstart
    have hexit : Leads service effect units _ _ :=
      leads_exit hcompletes (Function.update_self u (.activating p) h.unit)
    rw [Function.update_idem] at hexit
    have hexited : Leads service effect units
        ⟨Function.update h.unit u (.activating .exit), w'⟩ ⟨Function.update h.unit u .active, w'⟩ := by
      refine .step (e := .exited u) trivial ?_
      simp [step]
    exact ⟨w', (hstart.trans hexit).trans hexited⟩

/-- Units that are down can be brought up together, in an order of their requirements. -/
theorem exists_allActive (pending : List ι) (hpending : pending ⊆ units)
    (hscripts : ∀ u ∈ pending, ∀ p, (service u).script = some p →
      ∀ w, ∃ w', p.Completes effect w w')
    {seen : List ι} (hordered : Rollout.Ordered (fun u => (service u).requires) seen pending)
    (hnodup : pending.Nodup) (hdisjoint : ∀ u ∈ pending, u ∉ seen)
    (hdown : ∀ u ∈ pending, (h.unit u).isDown = true)
    (hseen : ∀ u ∈ seen, (h.unit u).isActive = true) :
    ∃ h', Leads service effect units h h' ∧
      (∀ u ∈ pending, (h'.unit u).isActive = true) ∧ ∀ u ∈ seen, (h'.unit u).isActive = true := by
  induction pending generalizing h seen with
  | nil => exact ⟨h, .refl _ _, by simp, hseen⟩
  | cons u pending ih =>
    obtain ⟨hrequires, hrest⟩ := hordered
    obtain ⟨hnotMem, hnodup⟩ := List.nodup_cons.mp hnodup
    obtain ⟨w', hleads⟩ := exists_active (hpending List.mem_cons_self)
      (hdown u List.mem_cons_self) (fun r hr => hseen r (hrequires r hr))
      (fun p hp => hscripts u List.mem_cons_self p hp h.world)
    have hsame : ∀ v, v ≠ u → Function.update h.unit u .active v = h.unit v :=
      fun v hv => Function.update_of_ne hv _ _
    have hdisjoint' : ∀ v ∈ pending, v ∉ u :: seen := by
      intro v hv hmem
      rcases List.mem_cons.mp hmem with rfl | hmem
      · exact hnotMem hv
      · exact hdisjoint v (List.mem_cons_of_mem _ hv) hmem
    have hdown' : ∀ v ∈ pending, (Function.update h.unit u .active v).isDown = true := by
      intro v hv
      rw [hsame v fun heq => hnotMem (heq ▸ hv)]
      exact hdown v (List.mem_cons_of_mem _ hv)
    have hseen' : ∀ v ∈ u :: seen, (Function.update h.unit u .active v).isActive = true := by
      intro v hv
      by_cases hvu : v = u
      · rw [hvu, Function.update_self]
        rfl
      · rw [hsame v hvu]
        exact hseen v ((List.mem_cons.mp hv).resolve_left hvu)
    obtain ⟨h', hleads', hactive, hactive'⟩ :=
      ih (h := ⟨Function.update h.unit u .active, w'⟩) (fun v hv => hpending (List.mem_cons_of_mem _ hv))
        (fun v hv => hscripts v (List.mem_cons_of_mem _ hv)) hrest hnodup hdisjoint' hdown' hseen'
    refine ⟨h', hleads.trans hleads', fun v hv => ?_, fun v hv => ?_⟩
    · rcases List.mem_cons.mp hv with rfl | hv
      · exact hactive' v List.mem_cons_self
      · exact hactive v hv
    · exact hactive' v (List.mem_cons_of_mem _ hv)

end Systemd
