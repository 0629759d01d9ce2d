import ModulithInfra.Systemd.Script

/-!
# What a script does before what

Two facts of the world, `F` and `G`, of which commands never undo the first: the commands that `adds`
holds of are the only ones that may bring `G` about, and the success of one that `passes` holds of
brings `F` about or shows that it is there.

`Script.Before` says of a script that no path of it comes to a command that adds `G` without one that
passes for `F` before it. From any world without `G`, such a script then leaves a world that has `G`
only together with `F`, wherever it fails or is cut off (`After.step`). `Script.Makes` says that it
does not come to its end without `F`. `Script.Completes` is the other side: from some world, the
script can come to its end.
-/

namespace Systemd

variable {Cmd World : Type}

/-- What commands do about `F` and `G`. -/
structure Sequenced (effect : Effect Cmd World) (F G : World → Prop) (passes adds : Cmd → Prop) :
    Prop where
  keeps : ∀ {c w ok w'}, effect c w ok w' → F w → F w'
  adds : ∀ {c w ok w'}, effect c w ok w' → G w' → G w ∨ adds c
  passes : ∀ {c w w'}, effect c w true w' → passes c → F w'

namespace Script

section Paths

variable (passes adds : Cmd → Prop)

/-- No path of the script adds `G` before it has passed for `F`. -/
def Before : Script Cmd → Prop
  | .exit => True
  | .run c rest => ¬ adds c ∧ (passes c ∨ Before rest)
  | .cond c yes no => ¬ adds c ∧ (passes c ∨ Before yes) ∧ Before no
  | .loop c rest => ¬ adds c ∧ (passes c ∨ Before rest)

/-- The script does not come to its end without passing for `F`. -/
def Makes : Script Cmd → Prop
  | .exit => False
  | .run c rest => passes c ∨ Makes rest
  | .cond c yes no => (passes c ∨ Makes yes) ∧ Makes no
  | .loop c rest => passes c ∨ Makes rest

variable [DecidablePred passes] [DecidablePred adds]

instance decidableBefore : ∀ p : Script Cmd, Decidable (Before passes adds p)
  | .exit => .isTrue trivial
  | .run c rest =>
    have := decidableBefore rest
    inferInstanceAs (Decidable (¬ adds c ∧ (passes c ∨ Before passes adds rest)))
  | .cond c yes no =>
    have := decidableBefore yes
    have := decidableBefore no
    inferInstanceAs (Decidable
      (¬ adds c ∧ (passes c ∨ Before passes adds yes) ∧ Before passes adds no))
  | .loop c rest =>
    have := decidableBefore rest
    inferInstanceAs (Decidable (¬ adds c ∧ (passes c ∨ Before passes adds rest)))

end Paths

section Allowed

variable (allowed : Cmd → Prop) (can : Cmd → Bool → Prop)

/-- Every command that the script comes to, where tests answer as they can, is allowed. -/
def Executes : Script Cmd → Prop
  | .exit => True
  | .run c rest => allowed c ∧ Executes rest
  | .cond c yes no => allowed c ∧ (can c true → Executes yes) ∧ (can c false → Executes no)
  | .loop c rest => allowed c ∧ Executes rest

variable [DecidablePred allowed] [∀ c ok, Decidable (can c ok)]

instance decidableExecutes : ∀ p : Script Cmd, Decidable (Executes allowed can p)
  | .exit => .isTrue trivial
  | .run c rest =>
    have := decidableExecutes rest
    inferInstanceAs (Decidable (allowed c ∧ Executes allowed can rest))
  | .cond c yes no =>
    have := decidableExecutes yes
    have := decidableExecutes no
    inferInstanceAs (Decidable
      (allowed c ∧ (can c true → Executes allowed can yes) ∧ (can c false → Executes allowed can no)))
  | .loop c rest =>
    have := decidableExecutes rest
    inferInstanceAs (Decidable (allowed c ∧ Executes allowed can rest))

end Allowed

/-- From one world the script can come to its end in another. -/
inductive Completes (effect : Effect Cmd World) : Script Cmd → World → World → Prop
  | exit {w} : Completes effect .exit w w
  | run {c rest w w₁ w'} (h : effect c w true w₁) (hrest : Completes effect rest w₁ w') :
      Completes effect (.run c rest) w w'
  | yes {c yes no w w₁ w'} (h : effect c w true w₁) (hrest : Completes effect yes w₁ w') :
      Completes effect (.cond c yes no) w w'
  | no {c yes no w w₁ w'} (h : effect c w false w₁) (hrest : Completes effect no w₁ w') :
      Completes effect (.cond c yes no) w w'
  | loop {c rest w w₁ w'} (h : effect c w true w₁) (hrest : Completes effect rest w₁ w') :
      Completes effect (.loop c rest) w w'

end Script

section After

/-- `G` only holds together with `F`, and what is left of the script, if anything, goes on to respect
that. -/
def After (F G : World → Prop) (passes adds : Cmd → Prop) (p : Option (Script Cmd)) (w : World) :
    Prop :=
  F w ∨ ¬ G w ∧ ∀ q, p = some q → q.Before passes adds

/-- What is left of the script, if anything, has made `F` or goes on to make it. -/
def Making (F : World → Prop) (passes : Cmd → Prop) (p : Option (Script Cmd)) (w : World) : Prop :=
  ∀ q, p = some q → F w ∨ q.Makes passes

variable {F G : World → Prop} {passes adds : Cmd → Prop} {effect : Effect Cmd World}
variable {p : Script Cmd} {c : Cmd} {w w' : World} {ok : Bool}

theorem After.holds {p : Option (Script Cmd)} (h : After F G passes adds p w) (hG : G w) : F w := by
  rcases h with hF | ⟨hnot, -⟩
  · exact hF
  · exact absurd hG hnot

/-- What the rest of a script is, by the command executed and its success. -/
theorem next_cases {q : Script Cmd} (hc : p.current = some c) (hq : p.next ok = some q) :
    ok = true ∧ (p = .run c q ∨ (∃ no, p = .cond c q no) ∨ p = .loop c q) ∨
      ok = false ∧ ((∃ yes, p = .cond c yes q) ∨ ∃ rest, p = .loop c rest ∧ q = p) := by
  cases p with
  | exit => cases hc
  | run d rest =>
    obtain rfl := Option.some.inj hc
    cases ok with
    | false => cases hq
    | true =>
      obtain rfl := Option.some.inj hq
      exact .inl ⟨rfl, .inl rfl⟩
  | cond d yes no =>
    obtain rfl := Option.some.inj hc
    obtain rfl := Option.some.inj hq
    cases ok with
    | false => exact .inr ⟨rfl, .inl ⟨yes, rfl⟩⟩
    | true => exact .inl ⟨rfl, .inr (.inl ⟨no, rfl⟩)⟩
  | loop d rest =>
    obtain rfl := Option.some.inj hc
    obtain rfl := Option.some.inj hq
    cases ok with
    | false => exact .inr ⟨rfl, .inr ⟨rest, rfl, rfl⟩⟩
    | true => exact .inl ⟨rfl, .inr (.inr rfl)⟩

theorem before_current (hbefore : p.Before passes adds) (hc : p.current = some c) : ¬ adds c := by
  cases p with
  | exit => cases hc
  | run d rest => exact Option.some.inj hc ▸ hbefore.1
  | cond d yes no => exact Option.some.inj hc ▸ hbefore.1
  | loop d rest => exact Option.some.inj hc ▸ hbefore.1

/-- What is left of a script that respects the order respects it, or `F` was just passed for. -/
theorem before_next {q : Script Cmd} (hbefore : p.Before passes adds) (hc : p.current = some c)
    (hq : p.next ok = some q) : ok = true ∧ passes c ∨ q.Before passes adds := by
  rcases next_cases hc hq with ⟨rfl, rfl | ⟨no, rfl⟩ | rfl⟩ | ⟨rfl, ⟨yes, rfl⟩ | ⟨rest, -, rfl⟩⟩
  · exact hbefore.2.imp_left fun hpasses => ⟨rfl, hpasses⟩
  · exact hbefore.2.1.imp_left fun hpasses => ⟨rfl, hpasses⟩
  · exact hbefore.2.imp_left fun hpasses => ⟨rfl, hpasses⟩
  · exact .inr hbefore.2.2
  · exact .inr hbefore

/-- What is left of a script that makes `F` makes it, or `F` was just passed for. -/
theorem makes_next {q : Script Cmd} (hmakes : p.Makes passes) (hc : p.current = some c)
    (hq : p.next ok = some q) : ok = true ∧ passes c ∨ q.Makes passes := by
  rcases next_cases hc hq with ⟨rfl, rfl | ⟨no, rfl⟩ | rfl⟩ | ⟨rfl, ⟨yes, rfl⟩ | ⟨rest, -, rfl⟩⟩
  · exact hmakes.imp_left fun hpasses => ⟨rfl, hpasses⟩
  · exact hmakes.1.imp_left fun hpasses => ⟨rfl, hpasses⟩
  · exact hmakes.imp_left fun hpasses => ⟨rfl, hpasses⟩
  · exact .inr hmakes.2
  · exact .inr hmakes

theorem executes_current {allowed : Cmd → Prop} {can : Cmd → Bool → Prop}
    (h : p.Executes allowed can) (hc : p.current = some c) : allowed c := by
  cases p with
  | exit => cases hc
  | run d rest => exact Option.some.inj hc ▸ h.1
  | cond d yes no => exact Option.some.inj hc ▸ h.1
  | loop d rest => exact Option.some.inj hc ▸ h.1

theorem executes_next {allowed : Cmd → Prop} {can : Cmd → Bool → Prop} {q : Script Cmd}
    (h : p.Executes allowed can) (hc : p.current = some c) (hcan : can c ok)
    (hq : p.next ok = some q) : q.Executes allowed can := by
  rcases next_cases hc hq with ⟨rfl, rfl | ⟨no, rfl⟩ | rfl⟩ | ⟨rfl, ⟨yes, rfl⟩ | ⟨rest, -, rfl⟩⟩
  · exact h.2
  · exact h.2.1 hcan
  · exact h.2
  · exact h.2.2 hcan
  · exact h

theorem Script.Executes.mono {allowed allowed' : Cmd → Prop} {can can' : Cmd → Bool → Prop}
    (hallowed : ∀ c, allowed c → allowed' c) (hcan : ∀ c ok, can' c ok → can c ok)
    (h : p.Executes allowed can) : p.Executes allowed' can' := by
  induction p with
  | exit => trivial
  | run c rest ih => exact ⟨hallowed c h.1, ih h.2⟩
  | cond c yes no ihYes ihNo =>
    exact ⟨hallowed c h.1, fun hok => ihYes (h.2.1 (hcan c true hok)),
      fun hok => ihNo (h.2.2 (hcan c false hok))⟩
  | loop c rest ih => exact ⟨hallowed c h.1, ih h.2⟩

/-- A command of the script keeps the order. -/
theorem After.step (h : Sequenced effect F G passes adds)
    (hafter : After F G passes adds (some p) w) (hc : p.current = some c)
    (heffect : effect c w ok w') : After F G passes adds (p.next ok) w' := by
  rcases hafter with hF | ⟨hG, hbefore⟩
  · exact .inl (h.keeps heffect hF)
  · by_cases hF : F w'
    · exact .inl hF
    · have hG' : ¬ G w' := fun hG' =>
        (h.adds heffect hG').elim hG (before_current (hbefore p rfl) hc)
      refine .inr ⟨hG', fun q hq => (before_next (hbefore p rfl) hc hq).resolve_left ?_⟩
      rintro ⟨rfl, hpasses⟩
      exact hF (h.passes heffect hpasses)

/-- The order outlives the script, and whatever else changes nothing about the two facts. -/
theorem After.congr {p p' : Option (Script Cmd)} (h : After F G passes adds p w)
    (hp : p' = p ∨ p' = none) (hF : F w' ↔ F w) (hG : G w' ↔ G w) :
    After F G passes adds p' w' := by
  unfold After at h ⊢
  rw [hF, hG]
  refine h.imp_right fun ⟨hnot, hbefore⟩ => ⟨hnot, fun q hq => ?_⟩
  rcases hp with rfl | rfl
  · exact hbefore q hq
  · cases hq

theorem Making.step (h : Sequenced effect F G passes adds) (hmaking : Making F passes (some p) w)
    (hc : p.current = some c) (heffect : effect c w ok w') : Making F passes (p.next ok) w' := by
  intro q hq
  rcases hmaking p rfl with hF | hmakes
  · exact .inl (h.keeps heffect hF)
  · refine (makes_next hmakes hc hq).imp_left ?_
    rintro ⟨rfl, hpasses⟩
    exact h.passes heffect hpasses

theorem Making.congr {p p' : Option (Script Cmd)} (h : Making F passes p w)
    (hp : p' = p ∨ p' = none) (hF : F w' ↔ F w) : Making F passes p' w' := by
  intro q hq
  rw [hF]
  rcases hp with rfl | rfl
  · exact h q hq
  · cases hq

/-- A script that has come to its end has made what it makes. -/
theorem Making.exit (h : Making F passes (some .exit) w) : F w :=
  (h .exit rfl).resolve_right id

end After

end Systemd
