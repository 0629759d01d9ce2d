import Mathlib.Data.List.Infix
import Mathlib.Data.List.Lattice

/-!
# Qualified names

Names `q ++ s` made of a qualifier `q` and one of a fixed table of endings. If no ending is a proper
suffix of another, a name determines its qualifier and its ending (`append_inj_of_suffixFree`), so
that different qualifiers never give the same name (`disjoint_qualify`), whatever the qualifiers
contain.
-/

namespace Text

/-- No entry of the table is a proper suffix of another. -/
def SuffixFree {α : Type} (table : List (List α)) : Prop :=
  ∀ s ∈ table, ∀ t ∈ table, s <:+ t → s = t

instance {α : Type} [DecidableEq α] (table : List (List α)) : Decidable (SuffixFree table) :=
  inferInstanceAs (Decidable (∀ s ∈ table, ∀ t ∈ table, s <:+ t → s = t))

theorem append_inj_of_suffixFree {α : Type} {table : List (List α)} (h : SuffixFree table)
    {q q' s s' : List α} (hs : s ∈ table) (hs' : s' ∈ table) (heq : q ++ s = q' ++ s') :
    q = q' ∧ s = s' := by
  have hends : s <:+ q' ++ s' := heq ▸ List.suffix_append q s
  have hends' : s' <:+ q' ++ s' := List.suffix_append q' s'
  have hss : s = s' := by
    rcases List.suffix_or_suffix_of_suffix hends hends' with hsuffix | hsuffix
    · exact h s hs s' hs' hsuffix
    · exact (h s' hs' s hs hsuffix).symm
  subst hss
  exact ⟨List.append_cancel_right heq, rfl⟩

/-- The names of a table under a qualifier. -/
def qualify {α : Type} (q : List α) (table : List (List α)) : List (List α) := table.map (q ++ ·)

theorem disjoint_qualify {α : Type} {table : List (List α)} (h : SuffixFree table)
    {q q' : List α} (hq : q ≠ q') : (qualify q table).Disjoint (qualify q' table) := by
  apply List.disjoint_left.mpr
  intro name hname hname'
  obtain ⟨s, hs, rfl⟩ := List.mem_map.mp hname
  obtain ⟨s', hs', heq⟩ := List.mem_map.mp hname'
  exact hq (append_inj_of_suffixFree h hs' hs heq).1.symm

/-- A name that ends in no entry of the table is not qualified by it. -/
theorem not_mem_qualify {α : Type} {table : List (List α)} {q name : List α}
    (h : ∀ s ∈ table, ¬ s <:+ name) : name ∉ qualify q table := by
  intro hname
  obtain ⟨s, hs, rfl⟩ := List.mem_map.mp hname
  exact h s hs (List.suffix_append q s)

/-- A string up to the case of its letters. -/
def ignoreCase (s : String) : List Char := s.toList.map Char.toLower

theorem ignoreCase_append (s t : String) : ignoreCase (s ++ t) = ignoreCase s ++ ignoreCase t := by
  rw [ignoreCase, String.toList_append, List.map_append]
  rfl

end Text
