import ModulithInfra.Text.Transducer

/-!
# Connection strings of `libpq`

The `keyword=value` form of a connection string: blanks separate the settings, a value runs to the
next blank or stands between single quotes, and a backslash takes the next character as it is.

A value whose quotes and backslashes are escaped is read back as it was, bare when it has no blank
(`run_bare`, `accept_bare`) and between quotes in any case (`run_quoted`), whatever settings follow.
-/

namespace Pg.Conninfo

open Transducer

/-- A setting: keyword and value. -/
abbrev Setting := String × String

inductive Mode : Type where
  | between
  | keyword (name : List Char)
  /-- after a blank that ends a keyword: its `=` is due -/
  | equals (name : List Char)
  /-- before the first character of a value -/
  | value (name : List Char)
  | bare (name text : List Char)
  /-- after a backslash -/
  | bareEscape (name text : List Char)
  | quoted (name text : List Char)
  | quotedEscape (name text : List Char)

/-- `isspace` of the C locale. -/
def isSpace (c : Char) : Bool := c ∈ [' ', '\t', '\n', '\r', '\x0b', '\x0c']

def setting (name text : List Char) : Setting := (String.ofList name, String.ofList text)

def step : Mode → Char → Option (Mode × List Setting)
  | .between, c =>
    if isSpace c then some (.between, [])
    else if c = '=' then some (.value [], [])
    else some (.keyword [c], [])
  | .keyword name, c =>
    if c = '=' then some (.value name, [])
    else if isSpace c then some (.equals name, [])
    else some (.keyword (name ++ [c]), [])
  | .equals name, c =>
    if isSpace c then some (.equals name, [])
    else if c = '=' then some (.value name, [])
    else none
  | .value name, c =>
    if isSpace c then some (.value name, [])
    else if c = '\'' then some (.quoted name [], [])
    else if c = '\\' then some (.bareEscape name [], [])
    else some (.bare name [c], [])
  | .bare name text, c =>
    if isSpace c then some (.between, [setting name text])
    else if c = '\\' then some (.bareEscape name text, [])
    else some (.bare name (text ++ [c]), [])
  | .bareEscape name text, c => some (.bare name (text ++ [c]), [])
  | .quoted name text, c =>
    if c = '\\' then some (.quotedEscape name text, [])
    else if c = '\'' then some (.between, [setting name text])
    else some (.quoted name (text ++ [c]), [])
  | .quotedEscape name text, c => some (.quoted name (text ++ [c]), [])

/-- What a string may end in: not in a keyword, nor between quotes. -/
def finish : Mode → Option (List Setting)
  | .between => some []
  | .value name => some [setting name []]
  | .bare name text => some [setting name text]
  | .bareEscape name text => some [setting name text]
  | _ => none

/-- The settings of a connection string, in order. -/
def parse (s : String) : Option (List Setting) := accept step finish .between s.toList

/-! ### Keywords -/

/-- A text that is read as a keyword. -/
def IsKeyword (name : List Char) : Prop :=
  name ≠ [] ∧ ∀ c ∈ name, isSpace c = false ∧ c ≠ '='

instance (name : List Char) : Decidable (IsKeyword name) :=
  @instDecidableAnd _ _ inferInstance (List.decidableBAll _ name)

theorem run_keyword_tail {name rest : List Char} (h : ∀ c ∈ rest, isSpace c = false ∧ c ≠ '=') :
    run step (.keyword name) rest = some (.keyword (name ++ rest), []) := by
  induction rest generalizing name with
  | nil => simp
  | cons c rest ih =>
    obtain ⟨hspace, heq⟩ := h c (by simp)
    have hstep : step (.keyword name) c = some (.keyword (name ++ [c]), []) := by
      simp [step, hspace, heq]
    rw [run_cons hstep, ih fun c hc => h c (by simp [hc])]
    simp

/-- A keyword and its `=`. -/
theorem run_keyword {name : List Char} (h : IsKeyword name) :
    run step .between (name ++ ['=']) = some (.value name, []) := by
  obtain ⟨hne, hchars⟩ := h
  cases name with
  | nil => exact absurd rfl hne
  | cons c rest =>
    obtain ⟨hspace, heq⟩ := hchars c (by simp)
    have hstep : step .between c = some (.keyword [c], []) := by simp [step, hspace, heq]
    have hrest : ∀ d ∈ rest, isSpace d = false ∧ d ≠ '=' := fun d hd => hchars d (by simp [hd])
    rw [List.cons_append, run_cons hstep, run_append (run_keyword_tail hrest)]
    simp [step]

/-! ### Values -/

/-- A quote or a backslash behind a backslash. -/
def escapeChar (c : Char) : List Char := if c = '\\' ∨ c = '\'' then ['\\', c] else [c]

def escape (s : List Char) : List Char := s.flatMap escapeChar

@[simp] theorem escape_nil : escape [] = [] := rfl

theorem escape_cons (c : Char) (s : List Char) : escape (c :: s) = escapeChar c ++ escape s :=
  List.flatMap_cons

/-- An escaped character goes where the character itself is to go. -/
theorem run_escapeChar {mode escaped mode' : Mode} {c : Char}
    (hslash : step mode '\\' = some (escaped, [])) (hescaped : step escaped c = some (mode', []))
    (hplain : c ≠ '\\' → c ≠ '\'' → step mode c = some (mode', [])) :
    run step mode (escapeChar c) = some (mode', []) := by
  unfold escapeChar
  by_cases hc : c = '\\' ∨ c = '\''
  · rw [if_pos hc, run_cons hslash, run_singleton, hescaped]
    rfl
  · rw [if_neg hc, run_singleton]
    exact hplain (fun h => hc (.inl h)) fun h => hc (.inr h)

theorem run_bare_escape {name text s : List Char} (hs : ∀ c ∈ s, isSpace c = false) :
    run step (.bare name text) (escape s) = some (.bare name (text ++ s), []) := by
  induction s generalizing text with
  | nil => simp
  | cons c s ih =>
    have hhead : run step (.bare name text) (escapeChar c) = some (.bare name (text ++ [c]), []) := by
      have hspace := hs c (by simp)
      have hescape : step (.bare name text) '\\' = some (.bareEscape name text, []) := rfl
      exact run_escapeChar hescape rfl fun hslash _ => by simp [step, hspace, hslash]
    have hrest : ∀ d ∈ s, isSpace d = false := fun d hd => hs d (by simp [hd])
    rw [escape_cons, run_append hhead, ih hrest]
    simp

theorem run_quoted_escape {name text s : List Char} :
    run step (.quoted name text) (escape s) = some (.quoted name (text ++ s), []) := by
  induction s generalizing text with
  | nil => simp
  | cons c s ih =>
    have hhead : run step (.quoted name text) (escapeChar c) =
        some (.quoted name (text ++ [c]), []) :=
      run_escapeChar rfl rfl fun hslash hquote => by simp [step, hslash, hquote]
    rw [escape_cons, run_append hhead, ih]
    simp

/-- A value without blanks needs no quotes. -/
theorem run_bare {name s : List Char} (hne : s ≠ []) (hs : ∀ c ∈ s, isSpace c = false) :
    run step (.value name) (escape s) = some (.bare name s, []) := by
  cases s with
  | nil => exact absurd rfl hne
  | cons c s =>
    have hhead : run step (.value name) (escapeChar c) = some (.bare name [c], []) := by
      have hspace := hs c (by simp)
      have hescape : step (.value name) '\\' = some (.bareEscape name [], []) := rfl
      exact run_escapeChar hescape rfl fun hslash hquote => by
        simp [step, hspace, hslash, hquote]
    have hrest : ∀ d ∈ s, isSpace d = false := fun d hd => hs d (by simp [hd])
    rw [escape_cons, run_append hhead, run_bare_escape hrest]
    simp

/-- Between quotes a value is complete with the second one. -/
theorem run_quoted (name s : List Char) :
    run step (.value name) ('\'' :: (escape s ++ ['\''])) =
      some (.between, [setting name s]) := by
  have hopen : step (.value name) '\'' = some (.quoted name [], []) := by simp [step, isSpace]
  rw [run_cons hopen, run_append run_quoted_escape]
  simp [step]

/-- A bare value is complete where the string ends or a blank follows. -/
theorem accept_bare {name text rest : List Char} (hrest : ∀ c ∈ rest.head?, isSpace c = true) :
    accept step finish (.bare name text) rest =
      (accept step finish .between rest).map (setting name text :: ·) := by
  cases rest with
  | nil => simp [finish]
  | cons c rest =>
    have hspace : isSpace c = true := hrest c (by simp)
    have hbare : step (.bare name text) c = some (.between, [setting name text]) := by
      simp [step, hspace]
    have hbetween : step .between c = some (.between, []) := by simp [step, hspace]
    rw [accept_cons hbare, accept_cons hbetween, Option.map_map]
    rfl

end Pg.Conninfo
