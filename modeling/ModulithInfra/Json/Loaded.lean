import ModulithInfra.Json.RoundTrip

/-!
# What was read

Whatever text `loads` reads, no object of the result has a key twice (`distinct_of_loads`): a repeated
key was assigned to the dictionary it already was in. So a value that was read can be written and read
again any number of times, if it has no fractional number (`canonical_of_loads`), and assigning to
one of its keys gives a value of which the same is true.

A text can hold an escape of half a surrogate pair, which Python reads and a `String` cannot hold.
`dumps` writes no such text (`paired_dumps`).
-/

namespace Json

/-! ### Keys and numbers -/

mutual

/-- No object has a key twice. -/
def Distinct : Value → Prop
  | .arr items => DistinctItems items
  | .obj fields => (fields.map Prod.fst).Nodup ∧ DistinctFields fields
  | _ => True

def DistinctItems : List Value → Prop
  | [] => True
  | v :: rest => Distinct v ∧ DistinctItems rest

def DistinctFields : List (String × Value) → Prop
  | [] => True
  | (_, v) :: rest => Distinct v ∧ DistinctFields rest

end

mutual

/-- There is no fractional number. -/
def FloatFree : Value → Prop
  | .float _ => False
  | .arr items => FloatFreeItems items
  | .obj fields => FloatFreeFields fields
  | _ => True

def FloatFreeItems : List Value → Prop
  | [] => True
  | v :: rest => FloatFree v ∧ FloatFreeItems rest

def FloatFreeFields : List (String × Value) → Prop
  | [] => True
  | (_, v) :: rest => FloatFree v ∧ FloatFreeFields rest

end

mutual

theorem canonical_of_distinct : ∀ v : Value, Distinct v → FloatFree v → Canonical v
  | .null, _, _ => trivial
  | .bool _, _, _ => trivial
  | .int _, _, _ => trivial
  | .float _, _, hfloat => hfloat
  | .str _, _, _ => trivial
  | .arr items, hdistinct, hfloat => canonicalItems_of_distinct items hdistinct hfloat
  | .obj fields, hdistinct, hfloat =>
    ⟨hdistinct.1, canonicalFields_of_distinct fields hdistinct.2 hfloat⟩

theorem canonicalItems_of_distinct :
    ∀ items : List Value, DistinctItems items → FloatFreeItems items → CanonicalItems items
  | [], _, _ => trivial
  | v :: rest, hdistinct, hfloat =>
    ⟨canonical_of_distinct v hdistinct.1 hfloat.1,
      canonicalItems_of_distinct rest hdistinct.2 hfloat.2⟩

theorem canonicalFields_of_distinct :
    ∀ fields : List (String × Value), DistinctFields fields → FloatFreeFields fields →
      CanonicalFields fields
  | [], _, _ => trivial
  | (_, v) :: rest, hdistinct, hfloat =>
    ⟨canonical_of_distinct v hdistinct.1 hfloat.1,
      canonicalFields_of_distinct rest hdistinct.2 hfloat.2⟩

end

/-! ### Assigning to a dictionary -/

theorem mem_keys_setItem {k k' : String} {v : Value} {d : Fields} :
    k' ∈ (setItem k v d).map Prod.fst ↔ k' = k ∨ k' ∈ d.map Prod.fst := by
  induction d with
  | nil => simp [setItem]
  | cons kv d ih =>
    obtain ⟨key, w⟩ := kv
    rw [setItem]
    split_ifs with hkey
    · subst hkey
      simp
    · rw [List.map_cons, List.mem_cons, ih, List.map_cons, List.mem_cons]
      constructor
      · rintro (h | h | h)
        · exact .inr (.inl h)
        · exact .inl h
        · exact .inr (.inr h)
      · rintro (h | h | h)
        · exact .inr (.inl h)
        · exact .inl h
        · exact .inr (.inr h)

theorem nodup_setItem {d : Fields} (h : (d.map Prod.fst).Nodup) (k : String) (v : Value) :
    ((setItem k v d).map Prod.fst).Nodup := by
  induction d with
  | nil => simp [setItem]
  | cons kv d ih =>
    obtain ⟨key, w⟩ := kv
    obtain ⟨hnotMem, hnodup⟩ := List.nodup_cons.mp h
    rw [setItem]
    split_ifs with hkey
    · subst hkey
      exact List.nodup_cons.mpr ⟨hnotMem, hnodup⟩
    · rw [List.map_cons, List.nodup_cons]
      refine ⟨fun hmem => ?_, ih hnodup⟩
      rcases mem_keys_setItem.mp hmem with heq | hmem
      · exact hkey heq
      · exact hnotMem hmem

/-- A member is the new one or was there. -/
theorem mem_setItem {kv : String × Value} {k : String} {v : Value} {d : Fields}
    (h : kv ∈ setItem k v d) : kv = (k, v) ∨ kv ∈ d := by
  induction d with
  | nil => exact .inl (List.mem_singleton.mp h)
  | cons kv' d ih =>
    obtain ⟨key, w⟩ := kv'
    rw [setItem] at h
    split_ifs at h
    · rcases List.mem_cons.mp h with h | h
      · exact .inl h
      · exact .inr (List.mem_cons_of_mem _ h)
    · rcases List.mem_cons.mp h with rfl | h
      · exact .inr List.mem_cons_self
      · exact (ih h).imp_right (List.mem_cons_of_mem _)

theorem mem_of_getItem {k : String} {v : Value} {d : Fields} (h : getItem k d = some v) :
    (k, v) ∈ d := by
  induction d with
  | nil => cases h
  | cons kv d ih =>
    obtain ⟨key, w⟩ := kv
    rw [getItem] at h
    split_ifs at h with hkey
    · obtain rfl := Option.some.inj h
      rw [hkey]
      exact List.mem_cons_self
    · exact List.mem_cons_of_mem _ (ih h)

theorem distinctFields_iff {fields : List (String × Value)} :
    DistinctFields fields ↔ ∀ kv ∈ fields, Distinct kv.2 := by
  induction fields with
  | nil => simp [DistinctFields]
  | cons kv rest ih => simp [DistinctFields, ih]

theorem distinct_setItem {d : Fields} (hd : Distinct (.obj d)) {v : Value} (hv : Distinct v)
    (k : String) : Distinct (.obj (setItem k v d)) := by
  refine ⟨nodup_setItem hd.1 k v, distinctFields_iff.mpr fun kv hkv => ?_⟩
  rcases mem_setItem hkv with rfl | hmem
  · exact hv
  · exact distinctFields_iff.mp hd.2 kv hmem

theorem canonical_setItem {d : Fields} (hd : Canonical (.obj d)) {v : Value} (hv : Canonical v)
    (k : String) : Canonical (.obj (setItem k v d)) := by
  refine ⟨nodup_setItem hd.1 k v, canonicalFields_iff.mpr fun kv hkv => ?_⟩
  rcases mem_setItem hkv with rfl | hmem
  · exact hv
  · exact canonicalFields_iff.mp hd.2 kv hmem

/-- The last assignment to a key counts. -/
theorem setItem_setItem (k : String) (v w : Value) (d : Fields) :
    setItem k w (setItem k v d) = setItem k w d := by
  induction d with
  | nil => simp [setItem]
  | cons kv d ih =>
    obtain ⟨key, u⟩ := kv
    by_cases hkey : key = k
    · simp [setItem, hkey]
    · simp [setItem, hkey, ih]

theorem distinctItems_concat {items : List Value} (hitems : DistinctItems items) {v : Value}
    (hv : Distinct v) : DistinctItems (items ++ [v]) := by
  induction items with
  | nil => exact ⟨hv, trivial⟩
  | cons w items ih => exact ⟨hitems.1, ih hitems.2⟩

/-! ### The reader -/

theorem distinct_of_number {s rest : List Char} {v : Value} (h : number s = some (v, rest)) :
    Distinct v := by
  unfold number at h
  dsimp only at h
  split at h
  · cases h
  · split_ifs at h
    all_goals
      obtain ⟨rfl, -⟩ := Prod.mk.inj (Option.some.inj h)
      trivial

theorem distinct_of_word {s rest : List Char} {v : Value} (h : word s = some (v, rest)) :
    Distinct v := by
  have hwords : ∀ w ∈ words, Distinct w.2 := by simp [words, Distinct]
  obtain ⟨w, hfind, heq⟩ := Option.map_eq_some_iff.mp h
  obtain ⟨rfl, -⟩ := Prod.mk.inj heq
  exact hwords w (List.mem_of_find?_eq_some hfind)

/-- The readers of values, members and elements only make dictionaries, with this much fuel. -/
structure Distinguishes (fuel : Nat) : Prop where
  value : ∀ s v rest, Json.value fuel s = some (v, rest) → Distinct v
  members : ∀ d s v rest, Distinct (.obj d) → Json.members fuel d s = some (v, rest) → Distinct v
  elements : ∀ items s v rest, DistinctItems items →
    Json.elements fuel items s = some (v, rest) → Distinct v

section Step

variable {fuel : Nat} (ih : Distinguishes fuel)
include ih

theorem distinct_value_succ {s rest : List Char} {v : Value}
    (h : value (fuel + 1) s = some (v, rest)) : Distinct v := by
  cases s with
  | nil => simp [value] at h
  | cons c s =>
    rw [value] at h
    split_ifs at h
    · -- a string
      rw [Option.bind_eq_bind, Option.bind_eq_some_iff] at h
      obtain ⟨⟨text, rest'⟩, -, heq⟩ := h
      obtain ⟨rfl, -⟩ := Prod.mk.inj (Option.some.inj heq)
      trivial
    · -- an object
      have hempty : Distinct (.obj []) := ⟨List.nodup_nil, trivial⟩
      split at h
      · obtain ⟨rfl, -⟩ := Prod.mk.inj (Option.some.inj h)
        exact hempty
      · exact ih.members _ _ _ _ hempty h
    · -- an array
      split at h
      · obtain ⟨rfl, -⟩ := Prod.mk.inj (Option.some.inj h)
        trivial
      · exact ih.elements [] _ _ _ trivial h
    · -- a word or a number
      split at h
      · next hword =>
        obtain rfl := Option.some.inj h
        exact distinct_of_word hword
      · exact distinct_of_number h

theorem distinct_members_succ {d : Fields} {s rest : List Char} {v : Value}
    (hd : Distinct (.obj d)) (h : members (fuel + 1) d s = some (v, rest)) : Distinct v := by
  unfold members at h
  split at h
  · next heq =>
    obtain rfl := Nat.succ.inj heq
    rw [Option.bind_eq_bind, Option.bind_eq_some_iff] at h
    obtain ⟨⟨k, rest₁⟩, -, h⟩ := h
    dsimp only at h
    split at h
    · rw [Option.bind_eq_bind, Option.bind_eq_some_iff] at h
      obtain ⟨⟨w, rest₂⟩, hvalue, h⟩ := h
      have hw := ih.value _ _ _ hvalue
      have hset := distinct_setItem hd hw (String.ofList k)
      dsimp only at h
      split at h
      · obtain ⟨rfl, -⟩ := Prod.mk.inj (Option.some.inj h)
        exact hset
      · exact ih.members _ _ _ _ hset h
      · cases h
    · cases h
  · cases h

theorem distinct_elements_succ {items : List Value} {s rest : List Char} {v : Value}
    (hitems : DistinctItems items) (h : elements (fuel + 1) items s = some (v, rest)) :
    Distinct v := by
  rw [elements, Option.bind_eq_bind, Option.bind_eq_some_iff] at h
  obtain ⟨⟨w, rest'⟩, hvalue, h⟩ := h
  have hconcat := distinctItems_concat hitems (ih.value _ _ _ hvalue)
  dsimp only at h
  split at h
  · obtain ⟨rfl, -⟩ := Prod.mk.inj (Option.some.inj h)
    exact hconcat
  · exact ih.elements _ _ _ _ hconcat h
  · cases h

end Step

theorem distinguishes (fuel : Nat) : Distinguishes fuel := by
  induction fuel with
  | zero =>
    refine ⟨fun s v rest h => ?_, fun d s v rest _ h => ?_, fun items s v rest _ h => ?_⟩
    · simp [value] at h
    · simp [members] at h
    · simp [elements] at h
  | succ fuel ih =>
    exact ⟨fun _ _ _ => distinct_value_succ ih, fun _ _ _ _ => distinct_members_succ ih,
      fun _ _ _ _ => distinct_elements_succ ih⟩

/-- Whatever was read, no object of it has a key twice. -/
theorem distinct_of_loads {text : String} {v : Value} (h : loads text = some v) : Distinct v := by
  unfold loads at h
  cases hvalue : value (text.toList.length + 1) (skipSpace text.toList) with
  | none => simp [hvalue] at h
  | some r =>
    obtain ⟨w, rest⟩ := r
    rw [hvalue] at h
    simp only at h
    split_ifs at h
    obtain rfl := Option.some.inj h
    exact (distinguishes _).value _ _ _ hvalue

theorem canonical_of_loads {text : String} {v : Value} (h : loads text = some v)
    (hfloat : FloatFree v) : Canonical v :=
  canonical_of_distinct v (distinct_of_loads h) hfloat

/-! ### Surrogates -/

/-- What the `\u` escapes of a text stand for, `none` for anything else. -/
def codeUnits : List Char → List (Option Nat)
  | '\\' :: 'u' :: a :: b :: c :: d :: rest => hex4? a b c d :: codeUnits rest
  | '\\' :: _ :: rest => none :: codeUnits rest
  | _ :: rest => none :: codeUnits rest
  | [] => []

def isHigh (n : Nat) : Bool := 0xD800 ≤ n && n < 0xDC00

def isLow (n : Nat) : Bool := 0xDC00 ≤ n && n < 0xE000

/-- After a high surrogate comes a low one, and nowhere else. -/
def pairs : List (Option Nat) → Bool
  | some n :: rest =>
    if isHigh n then
      match rest with
      | some m :: rest => isLow m && pairs rest
      | _ => false
    else !isLow n && pairs rest
  | none :: rest => pairs rest
  | [] => true

/-- The surrogates of a text are written in pairs, so that a `String` holds what it reads as. -/
def Paired (text : String) : Prop := pairs (codeUnits text.toList) = true

instance (text : String) : Decidable (Paired text) := inferInstanceAs (Decidable (_ = _))

/-- Pairs and nothing of the next one. -/
def Whole (s : List Char) : Prop := ∀ rest, pairs (codeUnits (s ++ rest)) = pairs (codeUnits rest)

theorem whole_nil : Whole [] := fun _ => rfl

theorem Whole.append {s t : List Char} (hs : Whole s) (ht : Whole t) : Whole (s ++ t) := by
  intro rest
  rw [List.append_assoc, hs, ht]

theorem whole_of_not_mem {s : List Char} (h : '\\' ∉ s) : Whole s := by
  intro rest
  induction s with
  | nil => rfl
  | cons c s ih =>
    rw [List.mem_cons, not_or] at h
    obtain ⟨hc, hs⟩ := h
    rw [List.cons_append, codeUnits.eq_def]
    simp [Ne.symm hc, pairs, ih hs]

theorem codeUnits_unicodeEscape {n : Nat} (h : n < 0x10000) (rest : List Char) :
    codeUnits (unicodeEscape n ++ rest) = some n :: codeUnits rest := by
  rw [← hex4?_hexChar h]
  rfl

theorem whole_escapeChar (c : Char) : Whole (escapeChar c) := by
  have hletter : ∀ e : Char, e ≠ 'u' → Whole ['\\', e] := by
    intro e he rest
    rw [List.cons_append, List.singleton_append, codeUnits.eq_def]
    simp [he, pairs]
  have hvalid : c.toNat < 0xD800 ∨ 0xDFFF < c.toNat ∧ c.toNat < 0x110000 := c.valid
  unfold escapeChar
  split_ifs with hquoted hnewline hreturn htab hformfeed hbackspace hprintable hbasic
  · refine hletter c ?_
    rcases hquoted with rfl | rfl
    · decide
    · decide
  · exact hletter _ (by decide)
  · exact hletter _ (by decide)
  · exact hletter _ (by decide)
  · exact hletter _ (by decide)
  · exact hletter _ (by decide)
  · rw [not_or] at hquoted
    exact whole_of_not_mem (by simpa using Ne.symm hquoted.2)
  · intro rest
    have hhigh : isHigh c.toNat = false := by simp [isHigh]; omega
    have hlow : isLow c.toNat = false := by simp [isLow]; omega
    rw [codeUnits_unicodeEscape hbasic, pairs.eq_def]
    simp [hhigh, hlow]
  · intro rest
    have hhigh : isHigh (0xD800 + (c.toNat - 0x10000) / 0x400) = true := by simp [isHigh]; omega
    have hlow : isLow (0xDC00 + (c.toNat - 0x10000) % 0x400) = true := by simp [isLow]; omega
    rw [List.append_assoc, codeUnits_unicodeEscape (by omega), codeUnits_unicodeEscape (by omega),
      pairs]
    simp [hhigh, hlow]

theorem whole_renderString (s : String) : Whole (renderString s) := by
  have hescaped : ∀ t : List Char, Whole (t.flatMap escapeChar) := by
    intro t
    induction t with
    | nil => exact whole_nil
    | cons c t ih => exact (whole_escapeChar c).append ih
  have hquote : Whole ['"'] := whole_of_not_mem (by decide)
  exact (hquote.append (hescaped s.toList)).append hquote

theorem whole_int (n : Int) : Whole (toString n).toList := by
  have hdigits : ∀ m : Nat, '\\' ∉ Nat.toDigits 10 m := by
    intro m hmem
    have hdigit := Nat.isDigit_of_mem_toDigits (by decide) (by decide) hmem
    simp at hdigit
  rcases toList_toString n with ⟨m, -, htext⟩ | ⟨m, -, htext⟩
  · exact whole_of_not_mem (htext ▸ hdigits m)
  · rw [htext]
    exact whole_of_not_mem (by simp [hdigits m])

mutual

theorem whole_render : ∀ v : Value, FloatFree v → Whole (render v)
  | .null, _ => whole_of_not_mem (by decide)
  | .bool true, _ => whole_of_not_mem (by decide)
  | .bool false, _ => whole_of_not_mem (by decide)
  | .int n, _ => whole_int n
  | .float _, hfloat => hfloat.elim
  | .str s, _ => whole_renderString s
  | .arr items, hfloat => by
    have hopen : Whole ['['] := whole_of_not_mem (by decide)
    have hclose : Whole [']'] := whole_of_not_mem (by decide)
    exact (hopen.append (whole_renderItems items hfloat)).append hclose
  | .obj fields, hfloat => by
    have hopen : Whole ['{'] := whole_of_not_mem (by decide)
    have hclose : Whole ['}'] := whole_of_not_mem (by decide)
    exact (hopen.append (whole_renderFields fields hfloat)).append hclose

theorem whole_renderItems : ∀ items : List Value, FloatFreeItems items → Whole (renderItems items)
  | [], _ => whole_nil
  | [v], hfloat => whole_render v hfloat.1
  | v :: w :: rest, hfloat => by
    have hcomma : Whole ", ".toList := whole_of_not_mem (by decide)
    exact ((whole_render v hfloat.1).append hcomma).append (whole_renderItems (w :: rest) hfloat.2)

theorem whole_renderFields :
    ∀ fields : List (String × Value), FloatFreeFields fields → Whole (renderFields fields)
  | [], _ => whole_nil
  | [(k, v)], hfloat => by
    have hcolon : Whole ": ".toList := whole_of_not_mem (by decide)
    exact ((whole_renderString k).append hcolon).append (whole_render v hfloat.1)
  | (k, v) :: kv :: rest, hfloat => by
    have hcolon : Whole ": ".toList := whole_of_not_mem (by decide)
    have hcomma : Whole ", ".toList := whole_of_not_mem (by decide)
    exact ((((whole_renderString k).append hcolon).append (whole_render v hfloat.1)).append
      hcomma).append (whole_renderFields (kv :: rest) hfloat.2)

end

/-- What is written for a value escapes its surrogates in pairs. -/
theorem paired_dumps {v : Value} (hfloat : FloatFree v) : Paired (dumps v) := by
  have hwhole := whole_render v hfloat []
  rw [List.append_nil] at hwhole
  rw [Paired, dumps, String.toList_ofList, hwhole]
  rfl

end Json
