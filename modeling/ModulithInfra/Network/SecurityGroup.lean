import Mathlib.Data.List.Basic

/-!
# Security groups

Ingress rules for TCP. A rule admits a port from its peer: a block of addresses, or the members of
another security group. Which addresses those are at some moment is a parameter, `members`; the
groups are of any type.
-/

namespace Network

abbrev Address := BitVec 32

/-- The address `a.b.c.d`. -/
def address (a b c d : BitVec 8) : Address := a ++ b ++ c ++ d

/-- A block of addresses that agree in their first bits. -/
structure Cidr where
  network : Address
  prefixLength : Nat

def Cidr.Contains (block : Cidr) (a : Address) : Prop :=
  a >>> (32 - block.prefixLength) = block.network >>> (32 - block.prefixLength)

instance (block : Cidr) (a : Address) : Decidable (block.Contains a) :=
  inferInstanceAs (Decidable (_ = _))

inductive Peer (Group : Type) : Type where
  | ipv4 (block : Cidr)
  | securityGroup (group : Group)

/-- `0.0.0.0/0` -/
def Peer.anyIpv4 {Group : Type} : Peer Group := .ipv4 ⟨0, 0⟩

structure IngressRule (Group : Type) where
  peer : Peer Group
  port : Nat

section Admits

variable {Group : Type} (members : Group → Address → Prop)

def Peer.Matches : Peer Group → Address → Prop
  | .ipv4 block, a => block.Contains a
  | .securityGroup group, a => members group a

/-- Some rule admits the port from the address. -/
def Admits (rules : List (IngressRule Group)) (a : Address) (port : Nat) : Prop :=
  ∃ rule ∈ rules, rule.port = port ∧ rule.peer.Matches members a

variable {members} {a : Address} {port : Nat}

theorem matches_anyIpv4 (a : Address) : (Peer.anyIpv4 : Peer Group).Matches members a := by
  show a >>> 32 = (0 : Address) >>> 32
  rw [BitVec.ushiftRight_eq_zero (Nat.le_refl 32), BitVec.ushiftRight_eq_zero (Nat.le_refl 32)]

@[simp] theorem not_admits_nil : ¬ Admits members ([] : List (IngressRule Group)) a port := by
  simp [Admits]

@[simp] theorem admits_cons {rule : IngressRule Group} {rules : List (IngressRule Group)} :
    Admits members (rule :: rules) a port ↔
      (rule.port = port ∧ rule.peer.Matches members a) ∨ Admits members rules a port := by
  simp [Admits]

end Admits

end Network
