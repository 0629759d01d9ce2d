import ModulithInfra.Sql.Lexer

/-!
# `psycopg2.sql`

The composition of SQL text in the driver that the layer of the database creator vendors: snippets,
identifiers and placeholders, and the template language of `SQL.format`, which reads its template with
`string.Formatter.parse`.

A template with places such as `{}`, `{0}` and `{name}`, its own braces doubled, becomes the text with
the arguments in these places, and fails when there is none for a place or the ways of numbering mix
(`format_template`). Where the arguments are identifiers and the text around them ends outside of any
token, each identifier is one token of the result (`lex_format`): no name can leave its quotes.
-/

namespace ModulithInfra.Psycopg2

/-! ### Composables -/

inductive Composable : Type where
  | composed (seq : List Composable)
  | sql (string : String)
  /-- the parts of a dotted name, at least one -/
  | identifier (string : String) (strings : List String)
  | placeholder (name : Option String)

section Text

-- `quote_ident` of the compiled part of the driver
variable (quoteIdent : String → String)

mutual

def Composable.asString : Composable → String
  | .composed seq => asStrings seq
  | .sql string => string
  | .identifier string strings => ".".intercalate ((string :: strings).map quoteIdent)
  | .placeholder (some name) => "%(" ++ name ++ ")s"
  | .placeholder none => "%s"

/-- `''.join(i.as_string(context) for i in seq)` -/
def asStrings : List Composable → String
  | [] => ""
  | i :: seq => i.asString ++ asStrings seq

end

end Text

/-! ### `string.Formatter.parse` -/

inductive FormatError : Type where
  | valueError (text : String)
  | indexError (text : String)
  | keyError (key : String)
  deriving DecidableEq

structure Field where
  name : List Char
  spec : List Char
  conversion : Option Char

/-- What follows a literal text. -/
inductive Follows : Type where
  | done
  /-- the second of two braces was skipped -/
  | escaped (rest : List Char)
  /-- after the opening brace of a field -/
  | field (rest : List Char)

/-- The literal up to the next markup; of a doubled brace it has one. -/
def literal : List Char → Except FormatError (List Char × Follows)
  | [] => .ok ([], .done)
  | c :: rest =>
    if c = '{' ∨ c = '}' then
      match rest with
      | [] => .error (.valueError ("Single '" ++ c.toString ++ "' encountered in format string"))
      | d :: rest' =>
        if d = c then .ok ([c], .escaped rest')
        else if c = '}' then .error (.valueError "Single '\x7d' encountered in format string")
        else .ok ([], .field rest)
    else do
      let (text, follows) ← literal rest
      return (c :: text, follows)

/-- The name of a field; what ends it is left at the head of the rest. Between square brackets nothing
ends it. -/
def fieldName : Bool → List Char → Except FormatError (List Char × List Char)
  | _, [] => .error (.valueError "expected '\x7d' before end of string")
  | true, c :: rest => do
    let (name, rest) ← fieldName (c ≠ ']') rest
    return (c :: name, rest)
  | false, c :: rest =>
    if c = '{' then .error (.valueError "unexpected '\x7b' in field name")
    else if c = '}' ∨ c = ':' ∨ c = '!' then .ok ([], c :: rest)
    else do
      let (name, rest) ← fieldName (c = '[') rest
      return (c :: name, rest)

/-- The format specification up to its closing brace, inside `depth` further ones. -/
def formatSpec : Nat → List Char → Except FormatError (List Char × List Char)
  | _, [] => .error (.valueError "unmatched '\x7b' in format spec")
  | depth, c :: rest =>
    match c, depth with
    | '}', 0 => .ok ([], rest)
    | '}', depth + 1 => do
      let (spec, rest) ← formatSpec depth rest
      return (c :: spec, rest)
    | '{', depth => do
      let (spec, rest) ← formatSpec (depth + 1) rest
      return (c :: spec, rest)
    | c, depth => do
      let (spec, rest) ← formatSpec depth rest
      return (c :: spec, rest)

/-- A field after its opening brace, and what follows it. -/
def parseField (s : List Char) : Except FormatError (Field × List Char) := do
  let (name, rest) ← fieldName false s
  match rest with
  | ':' :: rest =>
    let (spec, rest) ← formatSpec 0 rest
    return (⟨name, spec, none⟩, rest)
  | '!' :: [] => .error (.valueError "end of string while looking for conversion specifier")
  | '!' :: conversion :: '}' :: rest => return (⟨name, [], some conversion⟩, rest)
  | '!' :: conversion :: ':' :: rest =>
    let (spec, rest) ← formatSpec 0 rest
    return (⟨name, spec, some conversion⟩, rest)
  | '!' :: _ :: [] => .error (.valueError "unmatched '\x7b' in format spec")
  | '!' :: _ :: _ :: _ => .error (.valueError "expected ':' after conversion specifier")
  | _ => return (⟨name, [], none⟩, rest.tail)

/-! ### `SQL.format` -/

section Format

variable (args : List Composable) (kwargs : List (String × Composable))

/-- The argument of a field, and the numbering after it: `none` once fields are numbered by hand. -/
def argument (name : List Char) (autonum : Option Nat) :
    Except FormatError (Composable × Option Nat) :=
  if name ≠ [] ∧ name.all Char.isDigit then
    if autonum.any (0 < ·) then
      .error (.valueError "cannot switch from automatic field numbering to manual")
    else
      match args[Nat.ofDigitChars 10 name 0]? with
      | some arg => .ok (arg, none)
      | none => .error (.indexError "tuple index out of range")
  else if name = [] then
    match autonum with
    | none => .error (.valueError "cannot switch from manual field numbering to automatic")
    | some n =>
      match args[n]? with
      | some arg => .ok (arg, some (n + 1))
      | none => .error (.indexError "tuple index out of range")
  else
    match kwargs.lookup (String.ofList name) with
    | some arg => .ok (arg, autonum)
    | none => .error (.keyError (String.ofList name))

/-- `if pre: rv.append(SQL(pre))` -/
def snippet (pre : List Char) : List Composable :=
  if pre = [] then [] else [.sql (String.ofList pre)]

/-- The argument that stands for a field, with the numbering and the template after it. -/
def formatField (autonum : Option Nat) (template : List Char) :
    Except FormatError (Composable × Option Nat × List Char) := do
  let (field, rest) ← parseField template
  if field.spec ≠ [] then .error (.valueError "no format specification supported by SQL")
  else if field.conversion.isSome then .error (.valueError "no format conversion supported by SQL")
  else
    let (arg, autonum) ← argument args kwargs field.name autonum
    return (arg, autonum, rest)

/-- The loop over the markup; every round reads a character, so the length of the template is fuel
enough. -/
def formatLoop : Nat → Option Nat → List Char → Except FormatError (List Composable)
  | 0, _, _ => .ok []
  | fuel + 1, autonum, template => do
    let (pre, follows) ← literal template
    match follows with
    | .done => return snippet pre
    | .escaped rest => return snippet pre ++ (← formatLoop fuel autonum rest)
    | .field rest =>
      let (arg, autonum, rest) ← formatField args kwargs autonum rest
      return snippet pre ++ arg :: (← formatLoop fuel autonum rest)

def format (template : String) : Except FormatError Composable := do
  return .composed (← formatLoop args kwargs (template.toList.length + 1) (some 0) template.toList)

end Format

/-! ### The pieces of a template -/

theorem asStrings_append (quoteIdent : String → String) (seq seq' : List Composable) :
    asStrings quoteIdent (seq ++ seq') =
      asStrings quoteIdent seq ++ asStrings quoteIdent seq' := by
  induction seq with
  | nil => simp [asStrings]
  | cons i seq ih => simp only [List.cons_append, asStrings, ih, String.append_assoc]

theorem asStrings_snippet (quoteIdent : String → String) (pre : List Char) :
    asStrings quoteIdent (snippet pre) = String.ofList pre := by
  unfold snippet
  split_ifs with h
  · rw [h]
    rfl
  · simp [asStrings, Composable.asString]

/-- The text of what the loop collects. -/
def loopText (quoteIdent : String → String) (args : List Composable)
    (kwargs : List (String × Composable)) (fuel : Nat) (autonum : Option Nat)
    (template : List Char) : Except FormatError String :=
  (formatLoop args kwargs fuel autonum template).map (asStrings quoteIdent)

section Pieces

variable {quoteIdent : String → String} {args : List Composable} {kwargs : List (String × Composable)}

/-- What the loop appends after a literal. -/
def afterLiteral (args : List Composable) (kwargs : List (String × Composable)) (fuel : Nat)
    (autonum : Option Nat) : Follows → Except FormatError (List Composable)
  | .done => .ok []
  | .escaped rest => formatLoop args kwargs fuel autonum rest
  | .field rest => (formatField args kwargs autonum rest).bind fun r =>
    (formatLoop args kwargs fuel r.2.1 r.2.2).map (r.1 :: ·)

theorem loopText_succ (fuel : Nat) (autonum : Option Nat) (s : List Char) :
    loopText quoteIdent args kwargs (fuel + 1) autonum s = (literal s).bind fun r =>
      (afterLiteral args kwargs fuel autonum r.2).map (String.ofList r.1 ++ asStrings quoteIdent ·) := by
  rw [loopText, formatLoop]
  cases literal s with
  | error e => rfl
  | ok r =>
    obtain ⟨pre, follows⟩ := r
    have htext : ∀ seq, asStrings quoteIdent (snippet pre ++ seq) =
        String.ofList pre ++ asStrings quoteIdent seq := by
      intro seq
      rw [asStrings_append, asStrings_snippet]
    simp only [bind, Except.bind, pure, Except.pure]
    cases follows with
    | done => simp [afterLiteral, Except.map, asStrings_snippet, asStrings]
    | escaped rest =>
      simp only [afterLiteral]
      cases formatLoop args kwargs fuel autonum rest with
      | error e => rfl
      | ok seq => exact congrArg Except.ok (htext seq)
    | field rest =>
      simp only [afterLiteral]
      cases formatField args kwargs autonum rest with
      | error e => rfl
      | ok r =>
        obtain ⟨arg, autonum, rest⟩ := r
        simp only [Except.bind]
        cases formatLoop args kwargs fuel autonum rest with
        | error e => rfl
        | ok seq => exact congrArg Except.ok (htext (arg :: seq))

theorem append_ofList (t : String) (s : List Char) :
    t ++ String.ofList s = String.ofList (t.toList ++ s) := by
  apply String.toList_injective
  simp

theorem toString_append_ofList (c : Char) (s : List Char) :
    c.toString ++ String.ofList s = String.ofList (c :: s) := by
  rw [append_ofList]
  simp

/-- A character that is no brace is copied. -/
theorem loopText_cons {c : Char} (hc : ¬(c = '{' ∨ c = '}')) (fuel : Nat) (autonum : Option Nat)
    (s : List Char) : loopText quoteIdent args kwargs (fuel + 1) autonum (c :: s) =
      (loopText quoteIdent args kwargs (fuel + 1) autonum s).map (c.toString ++ ·) := by
  simp only [loopText_succ, literal, if_neg hc]
  cases literal s with
  | error e => rfl
  | ok r =>
    obtain ⟨pre, follows⟩ := r
    simp only [bind, Except.bind, pure, Except.pure, Except.map]
    cases afterLiteral args kwargs fuel autonum follows with
    | error e => rfl
    | ok seq => simp only [← String.append_assoc, toString_append_ofList]

/-- Of a doubled brace one is copied. -/
theorem loopText_brace {c : Char} (hc : c = '{' ∨ c = '}') (fuel : Nat) (autonum : Option Nat)
    (s : List Char) : loopText quoteIdent args kwargs (fuel + 1) autonum (c :: c :: s) =
      (loopText quoteIdent args kwargs fuel autonum s).map (c.toString ++ ·) := by
  have hliteral : literal (c :: c :: s) = .ok ([c], .escaped s) := by simp [literal, hc]
  simp only [loopText_succ, hliteral, Except.bind, afterLiteral]
  rw [loopText]
  cases formatLoop args kwargs fuel autonum s with
  | error e => rfl
  | ok seq => rfl

/-- A field name that is nothing but a name or a number. -/
def PlainName (name : List Char) : Prop :=
  ∀ c ∈ name, c ∉ ['{', '}', ':', '!', '['] ∧ c.toNat < 0x80

instance (name : List Char) : Decidable (PlainName name) := List.decidableBAll _ _

theorem fieldName_plain {name : List Char} (hname : PlainName name) (s : List Char) :
    fieldName false (name ++ '}' :: s) = .ok (name, '}' :: s) := by
  induction name with
  | nil => rfl
  | cons c name ih =>
    obtain ⟨hc, -⟩ := hname c List.mem_cons_self
    have hrest := ih fun c' hc' => hname c' (List.mem_cons_of_mem c hc')
    simp only [List.mem_cons, List.not_mem_nil, or_false, not_or] at hc
    obtain ⟨hopen, hclose, hcolon, hconversion, hbracket⟩ := hc
    simp [fieldName, hopen, hclose, hcolon, hconversion, hbracket, hrest, bind, Except.bind, pure,
      Except.pure]

/-- At a place stands its argument. -/
theorem formatField_place {name : List Char} (hname : PlainName name) (autonum : Option Nat)
    (s : List Char) : formatField args kwargs autonum (name ++ '}' :: s) =
      (argument args kwargs name autonum).map fun r => (r.1, r.2, s) := by
  have hparse : parseField (name ++ '}' :: s) = .ok (⟨name, [], none⟩, s) := by
    simp [parseField, fieldName_plain hname, bind, Except.bind, pure, Except.pure]
  simp only [formatField, hparse, bind, Except.bind]
  cases argument args kwargs name autonum with
  | error e => rfl
  | ok r => rfl

theorem literal_place {name : List Char} (hname : PlainName name) (s : List Char) :
    literal ('{' :: (name ++ '}' :: s)) = .ok ([], .field (name ++ '}' :: s)) := by
  cases name with
  | nil => simp [literal]
  | cons c name =>
    obtain ⟨hc, -⟩ := hname c List.mem_cons_self
    have hopen : c ≠ '{' := fun h => hc (by simp [h])
    simp [literal, hopen]

theorem loopText_place {name : List Char} (hname : PlainName name) (fuel : Nat)
    (autonum : Option Nat) (s : List Char) :
    loopText quoteIdent args kwargs (fuel + 1) autonum ('{' :: (name ++ '}' :: s)) =
      (argument args kwargs name autonum).bind fun r =>
        (loopText quoteIdent args kwargs fuel r.2 s).map (r.1.asString quoteIdent ++ ·) := by
  simp only [loopText_succ, literal_place hname, Except.bind, afterLiteral, formatField_place hname]
  cases argument args kwargs name autonum with
  | error e => rfl
  | ok r =>
    simp only [loopText, Except.map]
    cases formatLoop args kwargs fuel r.2 s with
    | error e => rfl
    | ok seq => simp [asStrings]

end Pieces

/-! ### Templates -/

/-- A text as it stands in a template. -/
def escapeBraces (s : List Char) : List Char :=
  s.flatMap fun c => if c = '{' ∨ c = '}' then [c, c] else [c]

/-- A place for an argument, by its field name, and the text that follows it. -/
structure Place where
  name : List Char
  text : List Char

/-- The template of a text and some places. -/
def template (head : List Char) : List Place → List Char
  | [] => escapeBraces head
  | place :: places =>
    escapeBraces head ++ '{' :: (place.name ++ '}' :: template place.text places)

section Templates

variable (quoteIdent : String → String)
variable (args : List Composable) (kwargs : List (String × Composable))

/-- The texts with the arguments in their places. -/
def fill (autonum : Option Nat) (head : List Char) : List Place → Except FormatError String
  | [] => .ok (String.ofList head)
  | place :: places => (argument args kwargs place.name autonum).bind fun r =>
    (fill r.2 place.text places).map fun s => String.ofList head ++ (r.1.asString quoteIdent ++ s)

/-- An escaped text in front of a template is copied, if there is fuel for both. -/
theorem loopText_escapeBraces (autonum : Option Nat) (s rest : List Char)
    {result : Except FormatError String}
    (hrest : ∀ fuel, rest.length < fuel → loopText quoteIdent args kwargs fuel autonum rest = result)
    {fuel : Nat} (hfuel : (escapeBraces s ++ rest).length < fuel) :
    loopText quoteIdent args kwargs fuel autonum (escapeBraces s ++ rest) =
      result.map (String.ofList s ++ ·) := by
  induction s generalizing fuel with
  | nil =>
    have hid : ∀ r : Except FormatError String, r.map (String.ofList [] ++ ·) = r := by
      intro r
      cases r with
      | error e => rfl
      | ok text => simp [Except.map]
    rw [hid]
    exact hrest fuel hfuel
  | cons c s ih =>
    obtain ⟨fuel, rfl⟩ : ∃ n, fuel = n + 1 := ⟨fuel - 1, by omega⟩
    have hcomp : (result.map (String.ofList s ++ ·)).map (c.toString ++ ·) =
        result.map (String.ofList (c :: s) ++ ·) := by
      cases result with
      | error e => rfl
      | ok text => simp only [Except.map, ← String.append_assoc, toString_append_ofList]
    by_cases hc : c = '{' ∨ c = '}'
    · have hcons : escapeBraces (c :: s) = c :: c :: escapeBraces s := by
        simp [escapeBraces, hc]
      rw [hcons] at hfuel ⊢
      simp only [List.cons_append, List.length_cons] at hfuel ⊢
      rw [loopText_brace hc, ih (by omega), hcomp]
    · have hcons : escapeBraces (c :: s) = c :: escapeBraces s := by
        simp [escapeBraces, hc]
      rw [hcons] at hfuel ⊢
      simp only [List.cons_append, List.length_cons] at hfuel ⊢
      rw [loopText_cons hc, ih (by omega), hcomp]

theorem loopText_template (head : List Char) {places : List Place}
    (hplaces : ∀ place ∈ places, PlainName place.name) (autonum : Option Nat) (fuel : Nat)
    (hfuel : (template head places).length < fuel) :
    loopText quoteIdent args kwargs fuel autonum (template head places) =
      fill quoteIdent args kwargs autonum head places := by
  induction places generalizing head autonum fuel with
  | nil =>
    have hnil : ∀ fuel, ([] : List Char).length < fuel →
        loopText quoteIdent args kwargs fuel autonum [] = .ok "" := by
      intro fuel hfuel
      obtain ⟨fuel, rfl⟩ : ∃ m, fuel = m + 1 := ⟨fuel - 1, by simp at hfuel; omega⟩
      rfl
    have hlt : (escapeBraces head ++ []).length < fuel := by simpa [template] using hfuel
    have h := loopText_escapeBraces quoteIdent args kwargs autonum head [] hnil hlt
    rw [List.append_nil] at h
    rw [template, h]
    simp [fill, Except.map]
  | cons place places ih =>
    have hname := hplaces place List.mem_cons_self
    have hrest := fun p hp => hplaces p (List.mem_cons_of_mem place hp)
    have hslot : ∀ fuel, ('{' :: (place.name ++ '}' :: template place.text places)).length < fuel →
        loopText quoteIdent args kwargs fuel autonum
            ('{' :: (place.name ++ '}' :: template place.text places)) =
          (argument args kwargs place.name autonum).bind fun r =>
            (fill quoteIdent args kwargs r.2 place.text places).map (r.1.asString quoteIdent ++ ·) := by
      intro fuel hfuel
      simp only [List.length_cons, List.length_append] at hfuel
      obtain ⟨fuel, rfl⟩ : ∃ m, fuel = m + 1 := ⟨fuel - 1, by omega⟩
      rw [loopText_place hname]
      congr 1
      funext r
      rw [ih place.text hrest r.2 fuel (by omega)]
    rw [template, loopText_escapeBraces quoteIdent args kwargs autonum head _ hslot hfuel, fill]
    cases argument args kwargs place.name autonum with
    | error e => rfl
    | ok r =>
      simp only [Except.bind]
      cases fill quoteIdent args kwargs r.2 place.text places with
      | error e => rfl
      | ok s => rfl

/-- A template stands for its texts with the arguments in their places; it raises what looking them up
raises first. -/
theorem format_template (head : List Char) {places : List Place}
    (hplaces : ∀ place ∈ places, PlainName place.name) :
    (format args kwargs (String.ofList (template head places))).map
      (Composable.asString quoteIdent) = fill quoteIdent args kwargs (some 0) head places := by
  have h := loopText_template quoteIdent args kwargs head hplaces (some 0)
    ((template head places).length + 1) (Nat.lt_succ_self _)
  rw [loopText] at h
  rw [← h, format, String.toList_ofList]
  cases formatLoop args kwargs ((template head places).length + 1) (some 0) (template head places) with
  | error e => rfl
  | ok seq => rfl

end Templates

/-! ### Identifiers are tokens -/

/-- The identifier in double quotes, those in it doubled; a C string ends at a NUL. -/
def Quotes (quoteIdent : String → String) : Prop :=
  ∀ s, '\x00' ∉ s.toList → quoteIdent s = String.ofList (Pg.enquote '"' s.toList)

/-- The tokens of a dotted name. -/
def identifierTokens (string : String) : List String → List Pg.Token
  | [] => [.quoted string]
  | next :: strings => .quoted string :: .symbol '.' :: identifierTokens next strings

/-- A place of a template with an identifier for it, and the tokens of the text that follows. -/
structure Piece extends Place where
  string : String
  strings : List String
  tokens : List Pg.Token

def Piece.identifier (piece : Piece) : Composable := .identifier piece.string piece.strings

/-- The arguments of the places are the identifiers. -/
def Refers (args : List Composable) (kwargs : List (String × Composable)) :
    Option Nat → List Piece → Prop
  | _, [] => True
  | autonum, piece :: pieces => ∃ autonum',
    argument args kwargs piece.name autonum = .ok (piece.identifier, autonum') ∧
      Refers args kwargs autonum' pieces

/-- A part of a name that the server takes. -/
def IsName (s : String) : Prop := s ≠ "" ∧ '\x00' ∉ s.toList

instance (s : String) : Decidable (IsName s) := inferInstanceAs (Decidable (_ ∧ _))

/-- The place is plain, the parts of the name are names, and the text is tokens of its own. -/
structure Piece.Closed (piece : Piece) : Prop where
  place : PlainName piece.name
  names : ∀ s ∈ piece.string :: piece.strings, IsName s
  scan : Transducer.run Pg.step .between piece.text = some (.between, piece.tokens)
  head : piece.text.head? ≠ some '"'

theorem quotedToken_of_ne {string : String} (h : string ≠ "") :
    Pg.quotedToken '"' string.toList = some (.quoted string) := by
  have hne : string.toList ≠ [] := by simpa using h
  simp [Pg.quotedToken, hne]

section Identifiers

variable {quoteIdent : String → String} (hquote : Quotes quoteIdent)
include hquote

theorem weave_identifier {s t : List Char} {tokens tokens' : List Pg.Token} {string : String}
    {strings : List String} (hs : Transducer.run Pg.step .between s = some (.between, tokens))
    (hnames : ∀ name ∈ string :: strings, IsName name) (ht : Pg.Weave t tokens')
    (hsep : t.head? ≠ some '"') :
    Pg.Weave (s ++ (((Composable.identifier string strings).asString quoteIdent).toList ++ t))
      (tokens ++ (identifierTokens string strings ++ tokens')) := by
  induction strings generalizing s tokens string with
  | nil =>
    obtain ⟨hne, hnul⟩ := hnames string (by simp)
    have hstring := hquote string hnul
    have htext : ((Composable.identifier string []).asString quoteIdent).toList =
        Pg.enquote '"' string.toList := by
      simp [Composable.asString, hstring]
    rw [htext]
    exact .name hs (.inl rfl) (quotedToken_of_ne hne) ht hsep
  | cons next strings ih =>
    obtain ⟨hne, hnul⟩ := hnames string (by simp)
    have hstring := hquote string hnul
    have htext : ((Composable.identifier string (next :: strings)).asString quoteIdent).toList =
        Pg.enquote '"' string.toList ++
          ('.' :: ((Composable.identifier next strings).asString quoteIdent).toList) := by
      simp [Composable.asString, hstring, String.intercalate_cons_cons]
    have hdot : Transducer.run Pg.step .between ['.'] = some (.between, [.symbol '.']) := rfl
    have hrest := ih hdot fun name hname => hnames name (List.mem_cons_of_mem _ hname)
    have hweave := Pg.Weave.name hs (.inl rfl) (quotedToken_of_ne hne) hrest (by simp)
    simpa [htext, identifierTokens] using hweave

variable {args : List Composable} {kwargs : List (String × Composable)}

/-- The template with identifiers in its places is scanned as it was put together. -/
theorem weave_fill {autonum : Option Nat} {head : List Char} {tokens : List Pg.Token}
    (hhead : Transducer.run Pg.step .between head = some (.between, tokens)) (pieces : List Piece)
    (hrefers : Refers args kwargs autonum pieces) (hpieces : ∀ piece ∈ pieces, piece.Closed)
    (hapart : pieces.IsChain fun piece _ => piece.text ≠ []) :
    ∃ rest, fill quoteIdent args kwargs autonum head (pieces.map Piece.toPlace) =
          .ok (String.ofList (head ++ rest)) ∧
      (pieces = [] → rest = []) ∧
      Pg.Weave (head ++ rest) (tokens ++ pieces.flatMap fun piece =>
        identifierTokens piece.string piece.strings ++ piece.tokens) := by
  induction pieces generalizing head tokens autonum with
  | nil =>
    refine ⟨[], by simp [fill], fun _ => rfl, ?_⟩
    simpa using Pg.Weave.text hhead
  | cons piece pieces ih =>
    obtain ⟨autonum', hargument, hrefers⟩ := hrefers
    have hclosed := hpieces piece (by simp)
    obtain ⟨rest, hfill, hnil, hweave⟩ := ih hclosed.scan hrefers
      (fun piece hpiece => hpieces piece (by simp [hpiece])) hapart.of_cons
    -- an identifier right after this one would continue it
    have hsep : (piece.text ++ rest).head? ≠ some '"' := by
      cases htext : piece.text with
      | cons c text => simpa [htext] using hclosed.head
      | nil =>
        cases pieces with
        | nil => simp [hnil rfl]
        | cons next pieces => exact absurd htext (List.isChain_cons_cons.mp hapart).1
    refine ⟨(piece.identifier.asString quoteIdent).toList ++ (piece.text ++ rest), ?_, by simp, ?_⟩
    · simp only [List.map_cons, fill, hargument, Except.bind, hfill, Except.map]
      congr 1
      apply String.toList_injective
      simp
    · have h := weave_identifier hquote hhead hclosed.names hweave hsep
      simpa [Piece.identifier] using h

theorem format_weave {head : List Char} {tokens : List Pg.Token}
    (hhead : Transducer.run Pg.step .between head = some (.between, tokens)) (pieces : List Piece)
    (hrefers : Refers args kwargs (some 0) pieces) (hpieces : ∀ piece ∈ pieces, piece.Closed)
    (hapart : pieces.IsChain fun piece _ => piece.text ≠ []) :
    ∃ composed text, format args kwargs
        (String.ofList (template head (pieces.map Piece.toPlace))) = .ok composed ∧
      composed.asString quoteIdent = String.ofList text ∧
      Pg.Weave text (tokens ++ pieces.flatMap fun piece =>
        identifierTokens piece.string piece.strings ++ piece.tokens) := by
  obtain ⟨rest, hfill, -, hweave⟩ := weave_fill hquote hhead pieces hrefers hpieces hapart
  have hplaces : ∀ place ∈ pieces.map Piece.toPlace, PlainName place.name := by
    intro place hplace
    obtain ⟨piece, hpiece, rfl⟩ := List.mem_map.mp hplace
    exact (hpieces piece hpiece).place
  rw [← format_template _ _ _ _ hplaces] at hfill
  cases hformat : format args kwargs
      (String.ofList (template head (pieces.map Piece.toPlace))) with
  | error e => simp [hformat, Except.map] at hfill
  | ok composed =>
    rw [hformat] at hfill
    exact ⟨composed, head ++ rest, rfl, Except.ok.inj hfill, hweave⟩

omit hquote in
/-- Places that are left to be numbered take the arguments in turn. -/
theorem refers_auto (pieces : List Piece) (hpieces : ∀ piece ∈ pieces, piece.name = [])
    (args : List Composable) :
    Refers (args ++ pieces.map Piece.identifier) kwargs (some args.length) pieces := by
  induction pieces generalizing args with
  | nil => trivial
  | cons piece pieces ih =>
    refine ⟨some (args.length + 1), ?_, ?_⟩
    · simp [argument, hpieces piece (by simp)]
    · have h := ih (fun p hp => hpieces p (by simp [hp])) (args ++ [piece.identifier])
      simpa using h

end Identifiers

end ModulithInfra.Psycopg2
