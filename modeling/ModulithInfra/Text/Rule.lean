import Mathlib.Data.List.Infix

/-!
# Naming rules

A `Rule` is what a service asks of a name: bounds on its length, which characters it may have and
begin with, and where its hyphens may stand. Names put together as `q ++ s`, a qualifier before an
ending that starts with a hyphen, obey a rule if and only if the qualifier leaves `Room` for the
ending (`obeys_append_iff`): only the length and the places next to the hyphen join the two.
-/

namespace Text

structure Rule where
  minLength : Nat := 0
  maxLength : Option Nat := none
  first : Char → Bool := fun _ => true
  char : Char → Bool := fun _ => true
  /-- what may not stand before a hyphen at the beginning -/
  reserved : List String := []
  /-- two hyphens may follow each other -/
  double : Bool := true
  /-- a hyphen may be last -/
  last : Bool := true

namespace Rule

def Obeys (rule : Rule) (name : String) : Prop :=
  rule.minLength ≤ name.toList.length ∧
  (∀ n ∈ rule.maxLength, name.toList.length ≤ n) ∧
  name.toList.head?.all rule.first = true ∧
  name.toList.all rule.char = true ∧
  (∀ w ∈ rule.reserved, ¬ w.toList ++ ['-'] <+: name.toList) ∧
  (rule.double = false → ¬ ['-', '-'] <:+: name.toList) ∧
  (rule.last = false → ¬ ['-'] <:+ name.toList)

instance (rule : Rule) (name : String) : Decidable (rule.Obeys name) :=
  inferInstanceAs (Decidable (_ ∧ _))

/-- What the rule asks of a qualifier that is followed by a hyphen and, with it, `n` characters. -/
def Room (rule : Rule) (q : String) (n : Nat) : Prop :=
  rule.minLength ≤ q.toList.length + n ∧
  (∀ m ∈ rule.maxLength, q.toList.length + n ≤ m) ∧
  q.toList.head?.all rule.first = true ∧
  q.toList.all rule.char = true ∧
  (∀ w ∈ rule.reserved, q ≠ w ∧ ¬ w.toList ++ ['-'] <+: q.toList) ∧
  (rule.double = false → ¬ ['-', '-'] <:+: q.toList ∧ ¬ ['-'] <:+ q.toList)

/-- The rule refuses nothing that the pattern accepts for its length or its characters. -/
def Permits (rule pattern : Rule) : Prop :=
  rule.minLength ≤ pattern.minLength ∧
  (∀ c, pattern.first c = true → rule.first c = true) ∧
  ∀ c, pattern.char c = true → rule.char c = true

/-- The ending starts with a hyphen and has nothing the rule forbids. -/
def Ends (rule : Rule) (ending : String) : Prop :=
  ending.toList.head? = some '-' ∧
  ending.toList.all rule.char = true ∧
  (∀ w ∈ rule.reserved, '-' ∉ w.toList) ∧
  (rule.double = false → ¬ ['-', '-'] <:+: ending.toList) ∧
  (rule.last = false → ¬ ['-'] <:+ ending.toList)

instance (rule : Rule) (ending : String) : Decidable (rule.Ends ending) :=
  inferInstanceAs (Decidable (_ ∧ _))

end Rule

/-! ### Around a separator -/

section Separator

variable {α : Type} {c : α} {q s w : List α}

/-- A word and a separator begin `q ++ c :: s` if they begin `q`, or the word is all of `q`. -/
theorem prefix_append_cons_iff (hw : c ∉ w) :
    w ++ [c] <+: q ++ c :: s ↔ q = w ∨ w ++ [c] <+: q := by
  induction w generalizing q with
  | nil => cases q with
    | nil => simp
    | cons b q => simp
  | cons a w ih =>
    have hne : a ≠ c := fun h => hw (by simp [h])
    have hw' : c ∉ w := fun h => hw (List.mem_cons_of_mem a h)
    cases q with
    | nil => simp [hne]
    | cons b q =>
      have hrest := ih (q := q) hw'
      simp only [List.cons_append, List.cons_prefix_cons, List.cons.injEq, hrest]
      constructor
      · rintro ⟨rfl, rfl | h⟩
        · exact .inl ⟨rfl, rfl⟩
        · exact .inr ⟨rfl, h⟩
      · rintro (⟨rfl, rfl⟩ | ⟨rfl, h⟩)
        · exact ⟨rfl, .inl rfl⟩
        · exact ⟨rfl, .inr h⟩

/-- Two separators stand together in `q ++ c :: s` if they do in `q`, or one ends it. -/
theorem pair_infix_append_cons_iff (hs : ¬ [c, c] <:+: c :: s) :
    [c, c] <:+: q ++ c :: s ↔ [c, c] <:+: q ∨ [c] <:+ q := by
  induction q with
  | nil => simpa using hs
  | cons b q ih =>
    rw [List.cons_append, List.infix_cons_iff, ih, List.infix_cons_iff, List.suffix_cons_iff]
    cases q with
    | nil =>
      have hpair : [c, c] <+: b :: ([] ++ c :: s) ↔ c = b := by
        simp only [List.nil_append, List.cons_prefix_cons, List.nil_prefix, and_true]
      have hnil : ¬ [c, c] <+: [b] := fun h => by simpa using h.length_le
      have hnil' : ¬ [c, c] <:+: ([] : List α) := fun h => by simpa using h.length_le
      have hnil'' : ¬ [c] <:+ ([] : List α) := fun h => by simpa using h.length_le
      rw [hpair]
      simp only [hnil, hnil', hnil'', or_false, false_or, List.cons.injEq, and_true]
    | cons d q =>
      have hpair : [c, c] <+: b :: (d :: q ++ c :: s) ↔ [c, c] <+: b :: d :: q := by
        simp only [List.cons_append, List.cons_prefix_cons, List.nil_prefix]
      have hsingle : ¬ [c] = b :: d :: q := by simp
      rw [hpair, or_assoc]
      simp only [hsingle, false_or]

/-- The end of `q ++ s` is that of `s`. -/
theorem singleton_suffix_append_iff (hs : s ≠ []) : [c] <:+ q ++ s ↔ [c] <:+ s := by
  induction q with
  | nil => rfl
  | cons b q ih =>
    rw [List.cons_append, List.suffix_cons_iff, ih]
    simp [hs]

end Separator

/-! ### Qualified names -/

namespace Rule

variable {rule : Rule} {q ending : String}

/-- A qualified name obeys a rule exactly when the qualifier leaves room for the ending. -/
theorem obeys_append_iff (hq : q ≠ "") (hends : rule.Ends ending) :
    rule.Obeys (q ++ ending) ↔ rule.Room q ending.toList.length := by
  obtain ⟨hhead, hchar, hreserved, hdouble, hlast⟩ := hends
  obtain ⟨s, hs⟩ := List.head?_eq_some_iff.mp hhead
  have hqne : q.toList ≠ [] := by simpa using hq
  have hfirst : (q ++ ending).toList.head? = q.toList.head? := by
    rw [String.toList_append, List.head?_append_of_ne_nil _ hqne]
  have hchars : (q ++ ending).toList.all rule.char = q.toList.all rule.char := by
    rw [String.toList_append, List.all_append, hchar, Bool.and_true]
  have hstart : (∀ w ∈ rule.reserved, ¬ w.toList ++ ['-'] <+: (q ++ ending).toList) ↔
      ∀ w ∈ rule.reserved, q ≠ w ∧ ¬ w.toList ++ ['-'] <+: q.toList := by
    refine forall₂_congr fun w hw => ?_
    rw [String.toList_append, hs, prefix_append_cons_iff (hreserved w hw), not_or,
      String.toList_inj]
  have htwice : (rule.double = false → ¬ ['-', '-'] <:+: (q ++ ending).toList) ↔
      (rule.double = false → ¬ ['-', '-'] <:+: q.toList ∧ ¬ ['-'] <:+ q.toList) := by
    refine forall_congr' fun h => ?_
    rw [String.toList_append, hs, pair_infix_append_cons_iff (hs ▸ hdouble h), not_or]
  have hend : rule.last = false → ¬ ['-'] <:+ (q ++ ending).toList := by
    intro h
    rw [String.toList_append, singleton_suffix_append_iff (by simp [hs])]
    exact hlast h
  unfold Obeys Room
  rw [hfirst, hchars, hstart, htwice, and_iff_left hend]
  simp only [String.toList_append, List.length_append]

/-- A qualifier in a permitted form leaves room as far as its length and its hyphens do. -/
theorem room_iff_of_permits {pattern : Rule} (hpermits : rule.Permits pattern)
    (hq : pattern.Obeys q) (n : Nat) :
    rule.Room q n ↔ (∀ m ∈ rule.maxLength, q.toList.length + n ≤ m) ∧
      (∀ w ∈ rule.reserved, q ≠ w ∧ ¬ w.toList ++ ['-'] <+: q.toList) ∧
      (rule.double = false → ¬ ['-', '-'] <:+: q.toList ∧ ¬ ['-'] <:+ q.toList) := by
  obtain ⟨hmin, hfirst, hchar⟩ := hpermits
  obtain ⟨hqmin, -, hqfirst, hqchar, -⟩ := hq
  constructor
  · rintro ⟨-, hmax, -, -, hreserved, hdouble⟩
    exact ⟨hmax, hreserved, hdouble⟩
  · rintro ⟨hmax, hreserved, hdouble⟩
    rw [Option.all_eq_true] at hqfirst
    rw [List.all_eq_true] at hqchar
    refine ⟨Nat.le_add_right_of_le (hmin.trans hqmin), hmax, ?_, ?_, hreserved, hdouble⟩
    · rw [Option.all_eq_true]
      exact fun c hc => hfirst c (hqfirst c hc)
    · rw [List.all_eq_true]
      exact fun c hc => hchar c (hqchar c hc)

/-- A name with a character that is not allowed in its ending does not obey the rule. -/
theorem not_obeys_append {c : Char} (hc : c ∈ ending.toList) (hrule : rule.char c = false) :
    ¬ rule.Obeys (q ++ ending) := by
  rintro ⟨-, -, -, hchar, -⟩
  rw [List.all_eq_true] at hchar
  have hmem : c ∈ (q ++ ending).toList := by
    rw [String.toList_append]
    exact List.mem_append_right _ hc
  rw [hchar c hmem] at hrule
  cases hrule

end Rule

end Text
