import ModulithInfra.Text.Transducer

/-!
# The lexical structure of PostgreSQL

A scanner of SQL text as a transducer: `step` takes one character, and the tokens come out as they
are complete. It knows words, numbers, quoted identifiers, string constants and single symbols, and
refuses (`none`) comments, dollar quoting and constants with a prefix.

A quoted name is one token, whatever its characters are (`scan_quote`), and between texts that end
outside of any token it leaves their tokens as they were (`lex_weave`).
-/

namespace Pg

open Transducer

inductive Token : Type where
  /-- a key word or an identifier, in lower case -/
  | word (text : String)
  | number (text : String)
  /-- `"…"` -/
  | quoted (name : String)
  /-- `'…'` -/
  | string (text : String)
  | symbol (c : Char)
  deriving DecidableEq

/-- Where the scanner is. -/
inductive Mode : Type where
  | between
  | word (text : List Char)
  | number (text : List Char)
  /-- inside quotes -/
  | inside (quote : Char) (text : List Char)
  /-- after a quote that ends the token, or is the first of two -/
  | closing (quote : Char) (text : List Char)
  deriving DecidableEq

/-! ### The scanner -/

def isSpace (c : Char) : Bool := c ∈ [' ', '\t', '\n', '\r', '\x0b', '\x0c']

/-- Letters and the underscore; beyond ASCII every character counts as a letter. -/
def isIdentStart (c : Char) : Bool := c.isAlpha || c = '_' || 0x80 ≤ c.toNat

def isIdentCont (c : Char) : Bool := isIdentStart c || c.isDigit || c = '$'

/-- The token between two quotes; there is no identifier of length zero. -/
def quotedToken (quote : Char) (text : List Char) : Option Token :=
  if quote = '\'' then some (.string (String.ofList text))
  else if text = [] then none
  else some (.quoted (String.ofList text))

/-- The token that ends where another begins. -/
def finish : Mode → Option (List Token)
  | .between => some []
  | .word text => some [.word (String.ofList (text.map Char.toLower))]
  | .number text => some [.number (String.ofList text)]
  | .inside _ _ => none
  | .closing quote text => (quotedToken quote text).map ([·])

/-- The first character of a token, or one between tokens. -/
def start (c : Char) : Option (Mode × List Token) :=
  if isSpace c then some (.between, [])
  else if c = '"' ∨ c = '\'' then some (.inside c [], [])
  else if isIdentStart c then some (.word [c], [])
  else if c.isDigit then some (.number [c], [])
  else if c = '$' ∨ c = '-' ∨ c = '/' then none
  else some (.between, [.symbol c])

/-- A character that ends the token before it. -/
def restart (mode : Mode) (c : Char) : Option (Mode × List Token) := do
  let last ← finish mode
  let (mode, tokens) ← start c
  return (mode, last ++ tokens)

def step : Mode → Char → Option (Mode × List Token)
  | .between, c => start c
  | .word text, c =>
    if isIdentCont c then some (.word (text ++ [c]), [])
    else if c = '"' ∨ c = '\'' ∨ c = '&' then none
    else restart (.word text) c
  | .number text, c =>
    if isIdentCont c ∨ c = '.' then some (.number (text ++ [c]), []) else restart (.number text) c
  | .inside quote text, c =>
    if c = quote then some (.closing quote text, []) else some (.inside quote (text ++ [c]), [])
  | .closing quote text, c =>
    if c = quote then some (.inside quote (text ++ [quote]), []) else restart (.closing quote text) c

/-- The tokens of a text. -/
def lex (text : String) : Option (List Token) := accept step finish .between text.toList

/-! ### Quoted names -/

/-- The characters with every `quote` doubled. -/
def double (quote : Char) (s : List Char) : List Char :=
  s.flatMap fun c => if c = quote then [quote, quote] else [c]

/-- The characters between quotes. -/
def enquote (quote : Char) (s : List Char) : List Char := quote :: (double quote s ++ [quote])

/-- Inside quotes a doubled quote stands for itself. -/
theorem scan_double (quote : Char) (text s : List Char) :
    run step (.inside quote text) (double quote s) = some (.inside quote (text ++ s), []) := by
  induction s generalizing text with
  | nil => simp [double]
  | cons c s ih =>
    have hhead : run step (.inside quote text) (if c = quote then [quote, quote] else [c]) =
        some (.inside quote (text ++ [c]), []) := by
      by_cases hc : c = quote
      · simp [hc, run, step]
      · simp [hc, step]
    rw [double, List.flatMap_cons, ← double, run_append hhead, ih]
    simp

/-- Whatever its characters are, a quoted name is about to be one token. -/
theorem scan_quote {quote : Char} (hquote : quote = '"' ∨ quote = '\'') (s : List Char) :
    run step .between (enquote quote s) = some (.closing quote s, []) := by
  have hopen : step .between quote = some (.inside quote [], []) := by
    rcases hquote with rfl | rfl <;> rfl
  have hclose : run step (.inside quote s) [quote] = some (.closing quote s, []) := by
    simp [step]
  have hbody := run_append (scan_double quote [] s) [quote]
  rw [List.nil_append, hclose] at hbody
  rw [enquote, run_cons hopen, hbody]
  rfl

/-- The token is complete where another character than its quote follows, or nothing does. -/
theorem accept_closing {quote : Char} {text rest : List Char} {token : Token}
    (htoken : quotedToken quote text = some token) (hrest : rest.head? ≠ some quote) :
    accept step finish (.closing quote text) rest =
      (accept step finish .between rest).map (token :: ·) := by
  cases rest with
  | nil => simp [finish, htoken]
  | cons c rest =>
    have hc : c ≠ quote := fun heq => hrest (by simp [heq])
    have hstep : step (.closing quote text) c =
        (start c).map fun r => (r.1, token :: r.2) := by
      simp only [step, if_neg hc, restart, finish, htoken, Option.map_some]
      cases start c with
      | none => rfl
      | some r => rfl
    cases hstart : start c with
    | none =>
      rw [hstart, Option.map_none] at hstep
      have hbetween : step .between c = none := hstart
      rw [accept_refused hstep, accept_refused hbetween, Option.map_none]
    | some r =>
      rw [hstart] at hstep
      have hbetween : step .between c = some r := hstart
      rw [accept_cons hstep, accept_cons hbetween, Option.map_map]
      rfl

/-! ### Names in a text -/

/-- A text in which quoted names stand between parts that end outside of any token, and the tokens of
it. A part that follows a name does not begin with its quote. -/
inductive Weave : List Char → List Token → Prop
  | text {s : List Char} {tokens : List Token} (hs : run step .between s = some (.between, tokens)) :
      Weave s tokens
  | name {quote : Char} {s name t : List Char} {tokens tokens' : List Token} {token : Token}
      (hs : run step .between s = some (.between, tokens)) (hquote : quote = '"' ∨ quote = '\'')
      (htoken : quotedToken quote name = some token) (ht : Weave t tokens')
      (hsep : t.head? ≠ some quote) :
      Weave (s ++ (enquote quote name ++ t)) (tokens ++ token :: tokens')

/-- Such a text is scanned as it was put together. -/
theorem Weave.accept_eq {s : List Char} {tokens : List Token} (h : Weave s tokens) :
    accept step finish .between s = some tokens := by
  induction h with
  | text hs => simp [Transducer.accept, hs, finish]
  | name hs hquote htoken _ hsep ih =>
    rw [accept_append hs, accept_append (scan_quote hquote _),
      accept_closing htoken hsep, ih]
    simp

theorem lex_weave {s : List Char} {tokens : List Token} (h : Weave s tokens) :
    lex (String.ofList s) = some tokens := by
  rw [lex, String.toList_ofList, h.accept_eq]

/-! ### The length of names -/

/-- The bytes of a name that the server keeps. -/
def maxNameLength : Nat := 63

/-- The characters that fit into `limit` bytes. -/
def clip : Nat → List Char → List Char
  | _, [] => []
  | limit, c :: s => if c.utf8Size ≤ limit then c :: clip (limit - c.utf8Size) s else []

def truncateIdentifier (s : String) : String := String.ofList (clip maxNameLength s.toList)

/-- The bytes of a text in UTF-8. -/
def byteLength : List Char → Nat
  | [] => 0
  | c :: s => c.utf8Size + byteLength s

theorem clip_of_le {limit : Nat} {s : List Char} (h : byteLength s ≤ limit) : clip limit s = s := by
  induction s generalizing limit with
  | nil => rfl
  | cons c s ih =>
    rw [byteLength] at h
    rw [clip, if_pos (by omega), ih (by omega)]

/-- A name that is not too long is kept. -/
theorem truncateIdentifier_of_le {s : String} (h : byteLength s.toList ≤ maxNameLength) :
    truncateIdentifier s = s := by
  rw [truncateIdentifier, clip_of_le h, String.ofList_toList]

end Pg
