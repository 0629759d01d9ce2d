import ModulithInfra.Json.Basic

/-!
# Reading back what was written

`loads (dumps v)` is `v` again for every value of strings, integers, booleans, `null`, arrays and
objects without a repeated key (`loads_dumps`). A string is read back character by character, one
equation for each way `escapeChar` writes one (`stringBody_escapeChar`). The reader of values is
followed by induction on its fuel, for its three mutual functions at once (`Reads`): the length of a
text is fuel enough, and what follows a value must not go on with a number (`Stops`).
-/

namespace Json

/-! ### Strings -/

theorem hexDigit?_hexChar : ∀ n < 16, hexDigit? (hexChar n) = some n := by
  decide

/-- The four digits of a code unit. -/
theorem hex4?_hexChar {n : Nat} (h : n < 0x10000) :
    hex4? (hexChar (n / 0x1000 % 16)) (hexChar (n / 0x100 % 16)) (hexChar (n / 0x10 % 16))
      (hexChar (n % 16)) = some n := by
  have hdigit : ∀ m, hexDigit? (hexChar (m % 16)) = some (m % 16) :=
    fun m => hexDigit?_hexChar _ (Nat.mod_lt m (by decide))
  simp only [hex4?, hdigit]
  simp
  omega

/-- One character in front of what the rest of a literal reads as. -/
def consChar (c : Char) (r : Option (List Char × List Char)) : Option (List Char × List Char) :=
  r.map fun p => (c :: p.1, p.2)

/-- An escaped code unit that is no surrogate. -/
theorem stringBody_unicodeEscape {n : Nat} (h : n < 0xD800 ∨ 0xE000 ≤ n ∧ n < 0x10000)
    (rest : List Char) :
    stringBody (unicodeEscape n ++ rest) = consChar (Char.ofNat n) (stringBody rest) := by
  have hhigh : ¬ (0xD800 ≤ n ∧ n < 0xDC00) := by omega
  have hlow : ¬ (0xDC00 ≤ n ∧ n < 0xE000) := by omega
  rw [unicodeEscape, List.cons_append, stringBody.eq_def]
  simp [hex4?_hexChar (show n < 0x10000 by omega), hhigh, hlow, consChar]
  cases stringBody rest <;> rfl

/-- A character beyond the basic plane is written as two surrogates. -/
theorem stringBody_surrogates {n m : Nat} (hn : 0xD800 ≤ n ∧ n < 0xDC00)
    (hm : 0xDC00 ≤ m ∧ m < 0xE000) (rest : List Char) :
    stringBody (unicodeEscape n ++ (unicodeEscape m ++ rest)) =
      consChar (Char.ofNat (0x10000 + (n - 0xD800) * 0x400 + (m - 0xDC00))) (stringBody rest) := by
  rw [unicodeEscape, List.cons_append, stringBody.eq_def]
  simp [unicodeEscape, hex4?_hexChar (show n < 0x10000 by omega),
    hex4?_hexChar (show m < 0x10000 by omega), hn, hm, consChar]
  cases stringBody rest <;> rfl

/-- A backslash and a letter. -/
theorem stringBody_letter {c e : Char} (hu : c ≠ 'u') (he : unescape? c = some e) (rest : List Char) :
    stringBody ('\\' :: c :: rest) = consChar e (stringBody rest) := by
  rw [stringBody.eq_def]
  simp [hu, he, consChar]
  cases stringBody rest <;> rfl

/-- Every character is read back from what it is written as. -/
theorem stringBody_escapeChar (c : Char) (rest : List Char) :
    stringBody (escapeChar c ++ rest) = consChar c (stringBody rest) := by
  unfold escapeChar
  split_ifs with hquoted hnewline hreturn htab hformfeed hbackspace hprintable hbasic
  · rcases hquoted with rfl | rfl
    · exact stringBody_letter (by decide) (by decide) rest
    · exact stringBody_letter (by decide) (by decide) rest
  · subst hnewline
    exact stringBody_letter (by decide) (by decide) rest
  · subst hreturn
    exact stringBody_letter (by decide) (by decide) rest
  · subst htab
    exact stringBody_letter (by decide) (by decide) rest
  · subst hformfeed
    exact stringBody_letter (by decide) (by decide) rest
  · subst hbackspace
    exact stringBody_letter (by decide) (by decide) rest
  · have hcontrol : ¬ c.toNat < 0x20 := Nat.not_lt.mpr hprintable.1
    rw [not_or] at hquoted
    rw [List.singleton_append, stringBody.eq_def]
    simp [hquoted, hcontrol, consChar]
    cases stringBody rest <;> rfl
  · have hvalid : c.toNat < 0xD800 ∨ 0xDFFF < c.toNat ∧ c.toNat < 0x110000 := c.valid
    rw [stringBody_unicodeEscape (by omega), Char.ofNat_toNat]
  · have hvalid : c.toNat < 0xD800 ∨ 0xDFFF < c.toNat ∧ c.toNat < 0x110000 := c.valid
    rw [List.append_assoc, stringBody_surrogates (by omega) (by omega)]
    have hcode : 0x10000 + (0xD800 + (c.toNat - 0x10000) / 0x400 - 0xD800) * 0x400 +
        (0xDC00 + (c.toNat - 0x10000) % 0x400 - 0xDC00) = c.toNat := by
      omega
    rw [hcode, Char.ofNat_toNat]

theorem stringBody_escape (s rest : List Char) :
    stringBody (s.flatMap escapeChar ++ '"' :: rest) = some (s, rest) := by
  induction s with
  | nil => simp [stringBody.eq_def]
  | cons c s ih =>
    rw [List.flatMap_cons, List.append_assoc, stringBody_escapeChar, ih]
    rfl

/-! ### Numbers -/

/-- The text does not go on with a number. -/
def Stops (rest : List Char) : Prop :=
  ∀ c ∈ rest.head?, c.isDigit = false ∧ c ≠ '.' ∧ c ≠ 'e' ∧ c ≠ 'E'

theorem stops_nil : Stops [] := nofun

theorem stops_cons {c : Char} (h : c.isDigit = false ∧ c ≠ '.' ∧ c ≠ 'e' ∧ c ≠ 'E')
    (rest : List Char) : Stops (c :: rest) := by
  intro c' hc'
  obtain rfl := Option.some.inj hc'
  exact h

theorem fraction_stops {rest : List Char} (h : Stops rest) : fraction rest = ([], rest) := by
  cases rest with
  | nil => rfl
  | cons c rest =>
    have hdot : c ≠ '.' := (h c rfl).2.1
    rw [fraction.eq_def]
    simp [hdot]

theorem exponent_stops {rest : List Char} (h : Stops rest) : exponent rest = ([], rest) := by
  cases rest with
  | nil => rfl
  | cons c rest =>
    obtain ⟨-, -, hlower, hupper⟩ := h c rfl
    simp [exponent, hlower, hupper]

/-- A decimal numeral begins with `0` only when it is `0`. -/
theorem toDigits_cases (n : Nat) :
    Nat.toDigits 10 n = ['0'] ∨
      ∃ c ds, Nat.toDigits 10 n = c :: ds ∧ c ≠ '0' ∧ ∀ d ∈ c :: ds, d.isDigit = true := by
  by_cases hzero : n = 0
  · exact .inl (by rw [hzero]; rfl)
  have hdigits : ∀ d ∈ Nat.toDigits 10 n, d.isDigit = true :=
    fun d hd => Nat.isDigit_of_mem_toDigits (by decide) (by decide) hd
  have hhead : ∃ c ds, Nat.toDigits 10 n = c :: ds ∧ c ≠ '0' := by
    clear hdigits
    induction n using Nat.strongRecOn with
    | ind n ih =>
      by_cases hlt : n < 10
      · refine ⟨n.digitChar, [], Nat.toDigits_of_lt_base hlt, ?_⟩
        simpa using hzero
      · obtain ⟨c, ds, hds, hc⟩ := ih (n / 10) (by omega) (by omega)
        refine ⟨c, ds ++ [(n % 10).digitChar], ?_, hc⟩
        rw [Nat.toDigits_of_base_le (by decide) (by omega), hds, List.cons_append]
  obtain ⟨c, ds, hds, hc⟩ := hhead
  exact .inr ⟨c, ds, hds, hc, hds ▸ hdigits⟩

theorem takeWhile_digits {ds rest : List Char} (hds : ∀ d ∈ ds, d.isDigit = true) (h : Stops rest) :
    (ds ++ rest).takeWhile Char.isDigit = ds := by
  rw [List.takeWhile_append_of_pos hds]
  cases rest with
  | nil => simp
  | cons c rest => simp [(h c rfl).1]

/-- What `number` makes of a numeral, with or without a sign. -/
theorem number_toDigits (n : Nat) {rest : List Char} (h : Stops rest) :
    number (Nat.toDigits 10 n ++ rest) = some (.int n, rest) ∧
      number ('-' :: (Nat.toDigits 10 n ++ rest)) = some (.int (-n), rest) := by
  have hvalue : digitsValue (Nat.toDigits 10 n) = n := Nat.ofDigitChars_ten_toDigits
  rcases toDigits_cases n with hzero | ⟨c, ds, hds, hc, hdigits⟩
  · rw [hzero] at hvalue ⊢
    simp [number, fraction_stops h, exponent_stops h, hvalue]
  · have htake := takeWhile_digits hdigits h
    have hdigit : c.isDigit = true := hdigits c List.mem_cons_self
    have hsign : c ≠ '-' := by
      rintro rfl
      simp at hdigit
    rw [hds] at hvalue ⊢
    rw [List.cons_append] at htake
    simp [number, hsign, hdigit, hc, htake, fraction_stops h, exponent_stops h, hvalue]

theorem toList_toString (n : Int) :
    (∃ m : Nat, n = m ∧ (toString n).toList = Nat.toDigits 10 m) ∨
      ∃ m : Nat, n = -m ∧ (toString n).toList = '-' :: Nat.toDigits 10 m := by
  cases n with
  | ofNat m => exact .inl ⟨m, rfl, Nat.toList_repr⟩
  | negSucc m =>
    refine .inr ⟨m + 1, rfl, ?_⟩
    show ("-" ++ Nat.repr (m + 1)).toList = _
    rw [String.toList_append, Nat.toList_repr]
    rfl

/-- No word begins with a digit, with a sign or without. -/
theorem word_digit {c : Char} (hc : c.isDigit = true) (rest : List Char) :
    word (c :: rest) = none ∧ word ('-' :: c :: rest) = none := by
  have hne : ∀ d : Char, d.isDigit = false → (d == c) = false := by
    intro d hd
    rw [beq_eq_false_iff_ne]
    rintro rfl
    rw [hc] at hd
    cases hd
  simp [word, words, List.isPrefixOf, hne]

theorem value_int (n : Int) {fuel : Nat} {rest : List Char} (h : Stops rest) :
    value (fuel + 1) ((toString n).toList ++ rest) = some (.int n, rest) := by
  have hhead : ∀ m, ∃ c ds, Nat.toDigits 10 m = c :: ds ∧ c.isDigit = true := by
    intro m
    rcases toDigits_cases m with hzero | ⟨c, ds, hds, -, hdigits⟩
    · exact ⟨'0', [], hzero, rfl⟩
    · exact ⟨c, ds, hds, hdigits c List.mem_cons_self⟩
  rcases toList_toString n with ⟨m, rfl, htext⟩ | ⟨m, rfl, htext⟩
  · obtain ⟨c, ds, hds, hdigit⟩ := hhead m
    have hnumber := (number_toDigits m h).1
    have hword := (word_digit hdigit (ds ++ rest)).1
    have hopen : c ≠ '"' ∧ c ≠ '{' ∧ c ≠ '[' := by
      refine ⟨?_, ?_, ?_⟩ <;> rintro rfl <;> simp at hdigit
    rw [htext]
    rw [hds, List.cons_append] at hnumber ⊢
    simp [value, hopen, hword, hnumber]
  · obtain ⟨c, ds, hds, hdigit⟩ := hhead m
    have hnumber := (number_toDigits m h).2
    have hword := (word_digit hdigit (ds ++ rest)).2
    rw [htext]
    rw [hds, List.cons_append] at hnumber
    rw [hds, List.cons_append, List.cons_append]
    simp [value, hword, hnumber]

/-! ### Values -/

mutual

/-- A value that the text determines: no object repeats a key, and no number has a fraction. -/
def Canonical : Value → Prop
  | .null => True
  | .bool _ => True
  | .int _ => True
  | .float _ => False
  | .str _ => True
  | .arr items => CanonicalItems items
  | .obj fields => (fields.map Prod.fst).Nodup ∧ CanonicalFields fields

def CanonicalItems : List Value → Prop
  | [] => True
  | v :: rest => Canonical v ∧ CanonicalItems rest

def CanonicalFields : List (String × Value) → Prop
  | [] => True
  | (_, v) :: rest => Canonical v ∧ CanonicalFields rest

end

/-- What is written for a value begins with no blank, and with no closing bracket. -/
theorem render_head {v : Value} (h : Canonical v) :
    ∃ c s, render v = c :: s ∧ isSpace c = false ∧ c ≠ ']' := by
  cases v with
  | null => exact ⟨'n', "ull".toList, rfl, by decide, by decide⟩
  | bool b => cases b with
    | true => exact ⟨'t', "rue".toList, by simp [render], by decide, by decide⟩
    | false => exact ⟨'f', "alse".toList, by simp [render], by decide, by decide⟩
  | int n =>
    have hdigit : ∀ c : Char, c.isDigit = true → isSpace c = false ∧ c ≠ ']' := by
      intro c hc
      constructor
      · simp only [isSpace, Bool.or_eq_false_iff, decide_eq_false_iff_not]
        refine ⟨⟨⟨?_, ?_⟩, ?_⟩, ?_⟩ <;> rintro rfl <;> simp at hc
      · rintro rfl
        simp at hc
    rw [render]
    rcases toList_toString n with ⟨m, -, htext⟩ | ⟨m, -, htext⟩
    · rcases toDigits_cases m with hzero | ⟨c, ds, hds, -, hdigits⟩
      · exact ⟨'0', [], by rw [htext, hzero], by decide, by decide⟩
      · exact ⟨c, ds, by rw [htext, hds], hdigit c (hdigits c List.mem_cons_self)⟩
    · exact ⟨'-', _, htext, by decide, by decide⟩
  | float lexeme => exact h.elim
  | str s => exact ⟨'"', _, by rw [render, renderString, List.cons_append], by decide, by decide⟩
  | arr items => exact ⟨'[', _, by rw [render, List.cons_append], by decide, by decide⟩
  | obj fields => exact ⟨'{', _, by rw [render, List.cons_append], by decide, by decide⟩

/-- Setting a key that is not there puts it at the end. -/
theorem setItem_new {k : String} {d : Fields} (h : k ∉ d.map Prod.fst) (v : Value) :
    setItem k v d = d ++ [(k, v)] := by
  induction d with
  | nil => rfl
  | cons kv d ih =>
    have hne : kv.1 ≠ k := fun heq => h (by simp [heq])
    have hd : k ∉ d.map Prod.fst := fun hmem => h (List.mem_cons_of_mem _ hmem)
    simp [setItem, hne, ih hd]

theorem stringBody_renderString (s : String) (rest : List Char) :
    stringBody (s.toList.flatMap escapeChar ++ '"' :: rest) = some (s.toList, rest) :=
  stringBody_escape s.toList rest

theorem value_array {fuel : Nat} {c : Char} (hc : isSpace c = false) (hne : c ≠ ']') (s : List Char) :
    value (fuel + 1) ('[' :: c :: s) = elements fuel [] (c :: s) := by
  rw [value, if_neg (by decide), if_neg (by decide), if_pos rfl, skipSpace_cons hc]
  simp [hne]

theorem renderItems_cons_cons (v w : Value) (items : List Value) :
    renderItems (v :: w :: items) = render v ++ (',' :: ' ' :: renderItems (w :: items)) := by
  simp [renderItems]

theorem renderFields_cons (k : String) (v : Value) (fields : List (String × Value)) :
    ∃ s, renderFields ((k, v) :: fields) =
        '"' :: (k.toList.flatMap escapeChar ++ '"' :: ':' :: ' ' :: (render v ++ s)) ∧
      (fields = [] ∧ s = [] ∨ fields ≠ [] ∧ s = ',' :: ' ' :: renderFields fields) := by
  cases fields with
  | nil => exact ⟨[], by simp [renderFields, renderString], .inl ⟨rfl, rfl⟩⟩
  | cons kv fields =>
    exact ⟨_, by simp [renderFields, renderString], .inr ⟨by simp, rfl⟩⟩

theorem skipSpace_renderFields {fields : List (String × Value)} (hne : fields ≠ [])
    (rest : List Char) :
    skipSpace (' ' :: (renderFields fields ++ rest)) = renderFields fields ++ rest := by
  obtain ⟨kv, others, rfl⟩ := List.exists_cons_of_ne_nil hne
  obtain ⟨s, hs, -⟩ := renderFields_cons kv.1 kv.2 others
  have hquote : isSpace '"' = false := by decide
  rw [hs, List.cons_append]
  exact skipSpace_cons hquote _

/-- The items of an array begin as the first of them does. -/
theorem renderItems_head {v : Value} (hv : Canonical v) (items : List Value) :
    ∃ c s, renderItems (v :: items) = c :: s ∧ isSpace c = false ∧ c ≠ ']' := by
  obtain ⟨c, s, hs, hspace, hclose⟩ := render_head hv
  cases items with
  | nil => exact ⟨c, s, by rw [renderItems, hs], hspace, hclose⟩
  | cons w items =>
    exact ⟨c, _, by rw [renderItems_cons_cons, hs, List.cons_append], hspace, hclose⟩

/-- The readers of values, members and elements read back what was written, with this much fuel. -/
structure Reads (fuel : Nat) : Prop where
  value : ∀ v rest, Canonical v → (render v).length ≤ fuel → Stops rest →
    Json.value fuel (render v ++ rest) = some (v, rest)
  members : ∀ d fields rest, fields ≠ [] → CanonicalFields fields →
    ((d ++ fields).map Prod.fst).Nodup → (renderFields fields).length ≤ fuel →
    Json.members fuel d (renderFields fields ++ '}' :: rest) = some (.obj (d ++ fields), rest)
  elements : ∀ done items rest, items ≠ [] → CanonicalItems items →
    (renderItems items).length < fuel →
    Json.elements fuel done (renderItems items ++ ']' :: rest) = some (.arr (done ++ items), rest)

section Step

variable {fuel : Nat} (ih : Reads fuel)
include ih

theorem value_succ {v : Value} {rest : List Char} (hv : Canonical v)
    (hlength : (render v).length ≤ fuel + 1) (hrest : Stops rest) :
    value (fuel + 1) (render v ++ rest) = some (v, rest) := by
  cases v with
  | null => simp [render, value, word, words, List.isPrefixOf]
  | bool b => cases b <;> simp [render, value, word, words, List.isPrefixOf]
  | int n => exact value_int n hrest
  | float lexeme => exact hv.elim
  | str s =>
    rw [render, renderString, List.cons_append, List.cons_append, List.append_assoc, value, if_pos rfl,
      List.singleton_append, stringBody_renderString]
    simp
  | arr items =>
    rw [render] at hlength ⊢
    rw [List.cons_append, List.cons_append, List.append_assoc, List.singleton_append]
    cases items with
    | nil =>
      have hclose : skipSpace (']' :: rest) = ']' :: rest := skipSpace_cons (by decide) _
      simp [renderItems, value, hclose]
    | cons v items =>
      obtain ⟨c, s, hs, hspace, hne⟩ := renderItems_head hv.1 items
      have helements := ih.elements [] (v :: items) rest (by simp) hv (by simp at hlength; omega)
      rw [hs, List.cons_append] at helements ⊢
      rw [value_array hspace hne, helements, List.nil_append]
  | obj fields =>
    rw [render] at hlength ⊢
    rw [List.cons_append, List.cons_append, List.append_assoc, List.singleton_append]
    cases fields with
    | nil =>
      have hclose : skipSpace ('}' :: rest) = '}' :: rest := skipSpace_cons (by decide) _
      simp [renderFields, value, hclose]
    | cons kv fields =>
      obtain ⟨s, hs, -⟩ := renderFields_cons kv.1 kv.2 fields
      have hmembers := ih.members [] (kv :: fields) rest (by simp) hv.2 hv.1
        (by simp at hlength; omega)
      rw [hs, List.cons_append] at hmembers ⊢
      rw [value_object, hmembers, List.nil_append]

theorem elements_succ {done items : List Value} {rest : List Char} (hne : items ≠ [])
    (hitems : CanonicalItems items) (hlength : (renderItems items).length < fuel + 1) :
    elements (fuel + 1) done (renderItems items ++ ']' :: rest) =
      some (.arr (done ++ items), rest) := by
  cases items with
  | nil => exact absurd rfl hne
  | cons v items =>
    cases items with
    | nil =>
      have hclose : skipSpace (']' :: rest) = ']' :: rest := skipSpace_cons (by decide) _
      have hvalue := ih.value v (']' :: rest) hitems.1 (by rw [renderItems] at hlength; omega)
        (stops_cons (by decide) _)
      rw [renderItems, elements, hvalue]
      simp [hclose]
    | cons w items =>
      obtain ⟨c, s, hs, hspace, -⟩ := renderItems_head hitems.2.1 items
      rw [renderItems_cons_cons, List.length_append, List.length_cons, List.length_cons] at hlength
      have hvalue := ih.value v (',' :: ' ' :: (renderItems (w :: items) ++ ']' :: rest)) hitems.1
        (by omega) (stops_cons (by decide) _)
      have helements := ih.elements (done ++ [v]) (w :: items) rest (by simp) hitems.2 (by omega)
      have hcomma : skipSpace (',' :: ' ' :: (renderItems (w :: items) ++ ']' :: rest)) =
          ',' :: ' ' :: (renderItems (w :: items) ++ ']' :: rest) := skipSpace_cons (by decide) _
      have hskip : skipSpace (' ' :: (renderItems (w :: items) ++ ']' :: rest)) =
          renderItems (w :: items) ++ ']' :: rest := by
        rw [hs, List.cons_append]
        exact skipSpace_cons hspace _
      rw [renderItems_cons_cons, List.append_assoc, List.cons_append, List.cons_append, elements,
        hvalue]
      simp [hcomma, hskip, helements]

theorem members_succ {d : Fields} {fields : List (String × Value)} {rest : List Char}
    (hne : fields ≠ []) (hfields : CanonicalFields fields)
    (hkeys : ((d ++ fields).map Prod.fst).Nodup)
    (hlength : (renderFields fields).length ≤ fuel + 1) :
    members (fuel + 1) d (renderFields fields ++ '}' :: rest) = some (.obj (d ++ fields), rest) := by
  obtain - | ⟨⟨k, v⟩, fields⟩ := fields
  · exact absurd rfl hne
  have hnew : k ∉ d.map Prod.fst := by
    intro hmem
    rw [List.map_append] at hkeys
    exact (List.nodup_append.mp hkeys).2.2 k hmem k (by simp) rfl
  obtain ⟨s, hs, hend⟩ := renderFields_cons k v fields
  rw [hs] at hlength ⊢
  simp only [List.length_cons, List.length_append] at hlength
  -- `t` is what follows the value, up to the end of the text
  obtain ⟨t, ht⟩ : ∃ t, t = s ++ '}' :: rest := ⟨_, rfl⟩
  have htext : '"' :: (k.toList.flatMap escapeChar ++ '"' :: ':' :: ' ' :: (render v ++ s)) ++
      '}' :: rest =
      '"' :: (k.toList.flatMap escapeChar ++ '"' :: ':' :: ' ' :: (render v ++ t)) := by
    rw [ht]
    simp
  have hstops : Stops t := by
    rw [ht]
    rcases hend with ⟨-, rfl⟩ | ⟨-, rfl⟩ <;> exact stops_cons (by decide) _
  have hvalue := ih.value v t hfields.1 (by omega) hstops
  have hcolon : skipSpace (':' :: ' ' :: (render v ++ t)) = ':' :: ' ' :: (render v ++ t) :=
    skipSpace_cons (by decide) _
  have hskip : skipSpace (' ' :: (render v ++ t)) = render v ++ t := by
    obtain ⟨c, u, hu, hspace, -⟩ := render_head hfields.1
    rw [hu, List.cons_append]
    exact skipSpace_cons hspace _
  rw [htext]
  rcases hend with ⟨rfl, rfl⟩ | ⟨hmore, rfl⟩
  · have hclose : skipSpace t = '}' :: rest := by
      rw [ht]
      exact skipSpace_cons (by decide) _
    simp [members, stringBody_renderString, hcolon, hskip, hvalue, hclose, setItem_new hnew]
  · have hcomma : skipSpace t = ',' :: ' ' :: (renderFields fields ++ '}' :: rest) := by
      rw [ht]
      exact skipSpace_cons (by decide) _
    have hnext := skipSpace_renderFields hmore ('}' :: rest)
    have hmembers := ih.members (d ++ [(k, v)]) fields rest hmore hfields.2 (by simpa using hkeys)
      (by simp only [List.length_cons] at hlength; omega)
    simp [members, stringBody_renderString, hcolon, hskip, hvalue, hcomma, hnext, hmembers,
      setItem_new hnew]

end Step

/-- Any fuel as long as the text is enough. -/
theorem reads (fuel : Nat) : Reads fuel := by
  induction fuel with
  | zero =>
    refine ⟨fun v rest hv hlength => ?_, fun d fields rest hne _ _ hlength => ?_, ?_⟩
    · obtain ⟨c, s, hs, -⟩ := render_head hv
      simp [hs] at hlength
    · obtain ⟨kv, fields, rfl⟩ := List.exists_cons_of_ne_nil hne
      obtain ⟨s, hs, -⟩ := renderFields_cons kv.1 kv.2 fields
      rw [hs] at hlength
      simp at hlength
    · intro done items rest _ _ hlength
      omega
  | succ fuel ih =>
    exact ⟨fun v rest hv hlength hrest => value_succ ih hv hlength hrest,
      fun d fields rest hne hfields hkeys hlength => members_succ ih hne hfields hkeys hlength,
      fun done items rest hne hitems hlength => elements_succ ih hne hitems hlength⟩

/-- `json.loads(json.dumps(v)) == v`. -/
theorem loads_dumps {v : Value} (h : Canonical v) : loads (dumps v) = some v := by
  obtain ⟨c, s, hs, hspace, -⟩ := render_head h
  have hskip : skipSpace (render v) = render v := by
    rw [hs]
    exact skipSpace_cons hspace s
  have hvalue := (reads ((render v).length + 1)).value v [] h (Nat.le_succ _) stops_nil
  rw [List.append_nil] at hvalue
  rw [loads, dumps, String.toList_ofList, hskip, hvalue]
  rfl

/-- A plain string member, with no blank before its value, in front of members that were written. -/
theorem members_string {k w : String} (hk : PlainText k) (hw : PlainText w) {fields : Fields}
    (hne : fields ≠ []) (hfields : CanonicalFields fields)
    (hkeys : (((k, Value.str w) :: fields).map Prod.fst).Nodup) {fuel : Nat}
    (hfuel : (renderFields fields).length ≤ fuel + 1) (rest : List Char) :
    members (fuel + 2) [] ('"' :: (k.toList ++ '"' :: ':' :: '"' :: (w.toList ++ '"' :: ',' :: ' ' ::
      (renderFields fields ++ '}' :: rest)))) = some (.obj ((k, .str w) :: fields), rest) := by
  have hmembers := (reads (fuel + 1)).members [(k, .str w)] fields rest hne hfields hkeys hfuel
  have hblank := skipSpace_renderFields hne ('}' :: rest)
  have hcolon : ∀ t, skipSpace (':' :: '"' :: t) = ':' :: '"' :: t :=
    fun t => skipSpace_cons (by decide) _
  have hquote : ∀ t, skipSpace ('"' :: t) = '"' :: t := fun t => skipSpace_cons (by decide) _
  have hcomma : ∀ t, skipSpace (',' :: t) = ',' :: t := fun t => skipSpace_cons (by decide) _
  simp [members, stringBody_plain hk, hcolon, hquote, value_string hw, hcomma, hblank, setItem,
    hmembers]

/-! ### Objects up to the order of their fields -/

theorem canonicalFields_iff {fields : List (String × Value)} :
    CanonicalFields fields ↔ ∀ kv ∈ fields, Canonical kv.2 := by
  induction fields with
  | nil => simp [CanonicalFields]
  | cons kv fields ih => simp [CanonicalFields, ih]

theorem Canonical.perm {fields fields' : Fields} (hperm : fields.Perm fields')
    (h : Canonical (.obj fields')) : Canonical (.obj fields) := by
  obtain ⟨hkeys, hfields⟩ := h
  refine ⟨(hperm.map Prod.fst).nodup_iff.mpr hkeys, ?_⟩
  rw [canonicalFields_iff] at hfields ⊢
  intro kv hkv
  exact hfields kv (hperm.mem_iff.mp hkv)

/-- Setting a key does not depend on the order of the fields. -/
theorem setItem_perm {fields fields' : Fields} (hperm : fields.Perm fields')
    (hkeys : (fields.map Prod.fst).Nodup) (k : String) (v : Value) :
    (setItem k v fields).Perm (setItem k v fields') := by
  induction hperm with
  | nil => exact List.Perm.refl _
  | @cons kv fields fields' hperm ih =>
    have htail := ih (List.nodup_cons.mp hkeys).2
    obtain ⟨k', v'⟩ := kv
    by_cases h : k' = k
    · simpa [setItem, h] using hperm
    · simpa [setItem, h] using htail
  | swap kv kv' fields =>
    obtain ⟨k₁, v₁⟩ := kv
    obtain ⟨k₂, v₂⟩ := kv'
    have hne : k₂ ≠ k₁ := by
      rintro rfl
      simp at hkeys
    by_cases h₁ : k₁ = k
    · have h₂ : k₂ ≠ k := fun h => hne (h.trans h₁.symm)
      simpa [setItem, h₁, h₂] using List.Perm.swap _ _ _
    · by_cases h₂ : k₂ = k
      · simpa [setItem, h₁, h₂] using List.Perm.swap _ _ _
      · simpa [setItem, h₁, h₂] using List.Perm.swap _ _ _
  | trans hperm _ ih ih' =>
    have hkeys' := (hperm.map Prod.fst).nodup_iff.mp hkeys
    exact (ih hkeys).trans (ih' hkeys')

end Json
