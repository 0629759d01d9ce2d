import Mathlib.Data.List.Basic

/-!
# JSON as Python's `json` module reads and writes it

`loads` and `dumps` follow `json.loads` and `json.dumps` with their default arguments: a duplicate
key keeps its first place and its last value, control characters inside a string are refused, the
separators are `", "` and `": "`, and every character outside the printable ASCII range is written
as a `\u` escape.

Two things differ from Python: a fractional number keeps its lexeme instead of becoming a binary
float, and an unpaired surrogate escape, which a `String` cannot hold, is refused.
-/

namespace Json

inductive Value : Type where
  | null
  | bool (b : Bool)
  | int (n : Int)
  | float (lexeme : String)
  | str (s : String)
  | arr (items : List Value)
  | obj (fields : List (String × Value))

/-- The fields of a dictionary, in insertion order. -/
abbrev Fields := List (String × Value)

/-- `d[k] = v`: the value in place where the key is present, at the end otherwise. -/
def setItem (k : String) (v : Value) : Fields → Fields
  | [] => [(k, v)]
  | (k', v') :: rest => if k' = k then (k, v) :: rest else (k', v') :: setItem k v rest

/-- `d.get(k)`. -/
def getItem (k : String) : Fields → Option Value
  | [] => none
  | (k', v) :: rest => if k' = k then some v else getItem k rest

/-! ### Reading -/

def isSpace (c : Char) : Bool := c = ' ' || c = '\t' || c = '\n' || c = '\r'

def skipSpace (s : List Char) : List Char := s.dropWhile isSpace

def hexDigit? (c : Char) : Option Nat :=
  if '0' ≤ c ∧ c ≤ '9' then some (c.toNat - '0'.toNat)
  else if 'a' ≤ c ∧ c ≤ 'f' then some (c.toNat - 'a'.toNat + 10)
  else if 'A' ≤ c ∧ c ≤ 'F' then some (c.toNat - 'A'.toNat + 10)
  else none

def hex4? (a b c d : Char) : Option Nat := do
  let a ← hexDigit? a
  let b ← hexDigit? b
  let c ← hexDigit? c
  let d ← hexDigit? d
  return ((a * 16 + b) * 16 + c) * 16 + d

/-- The character of a one-letter escape. -/
def unescape? (c : Char) : Option Char :=
  if c = '"' ∨ c = '\\' ∨ c = '/' then some c
  else if c = 'b' then some '\x08'
  else if c = 'f' then some '\x0c'
  else if c = 'n' then some '\n'
  else if c = 'r' then some '\r'
  else if c = 't' then some '\t'
  else none

/-- The rest of a string literal after its opening quote: its characters and what follows it. -/
def stringBody : List Char → Option (List Char × List Char)
  | [] => none
  | c :: rest =>
    if c = '"' then some ([], rest)
    else if c = '\\' then
      match rest with
      | 'u' :: a :: b :: c :: d :: rest => do
        let n ← hex4? a b c d
        if 0xD800 ≤ n ∧ n < 0xDC00 then
          match rest with
          | '\\' :: 'u' :: a :: b :: c :: d :: rest =>
            let m ← hex4? a b c d
            if 0xDC00 ≤ m ∧ m < 0xE000 then
              let (s, rest) ← stringBody rest
              return (Char.ofNat (0x10000 + (n - 0xD800) * 0x400 + (m - 0xDC00)) :: s, rest)
            else none
          | _ => none
        else if 0xDC00 ≤ n ∧ n < 0xE000 then none
        else
          let (s, rest) ← stringBody rest
          return (Char.ofNat n :: s, rest)
      | e :: rest => do
        let e ← unescape? e
        let (s, rest) ← stringBody rest
        return (e :: s, rest)
      | [] => none
    else if c.toNat < 0x20 then none
    else do
      let (s, rest) ← stringBody rest
      return (c :: s, rest)

def digitsValue (ds : List Char) : Nat :=
  ds.foldl (fun n c => 10 * n + (c.toNat - '0'.toNat)) 0

/-- The fraction of a number, if one follows. -/
def fraction : List Char → List Char × List Char
  | '.' :: rest =>
    if (rest.takeWhile Char.isDigit).isEmpty then ([], '.' :: rest)
    else ('.' :: rest.takeWhile Char.isDigit, rest.dropWhile Char.isDigit)
  | rest => ([], rest)

/-- The exponent of a number, if one follows. -/
def exponent : List Char → List Char × List Char
  | [] => ([], [])
  | e :: rest =>
    if e = 'e' ∨ e = 'E' then
      let sign := rest.takeWhile (fun c => c = '+' || c = '-') |>.take 1
      let digits := (rest.drop sign.length).takeWhile Char.isDigit
      if digits.isEmpty then ([], e :: rest)
      else (e :: sign ++ digits, (rest.drop sign.length).dropWhile Char.isDigit)
    else ([], e :: rest)

/-- `-?(0|[1-9]\d*)(\.\d+)?([eE][-+]?\d+)?`. -/
def number (s : List Char) : Option (Value × List Char) :=
  let negative := s.head? = some '-'
  let s := if negative then s.tail else s
  match s with
  | [] => none
  | c :: _ =>
    if !c.isDigit then none
    else
      let digits := if c = '0' then ['0'] else s.takeWhile Char.isDigit
      let rest := s.drop digits.length
      let (frac, rest) := fraction rest
      let (exp, rest) := exponent rest
      let n : Int := digitsValue digits
      if frac = [] ∧ exp = [] then some (.int (if negative then -n else n), rest)
      else
        let sign := if negative then ['-'] else []
        some (.float (String.ofList (sign ++ digits ++ frac ++ exp)), rest)

/-- The words that stand for a value. -/
def words : List (List Char × Value) :=
  [("null".toList, .null), ("true".toList, .bool true), ("false".toList, .bool false),
    ("NaN".toList, .float "NaN"), ("Infinity".toList, .float "Infinity"),
    ("-Infinity".toList, .float "-Infinity")]

def word (s : List Char) : Option (Value × List Char) :=
  (words.find? fun w => w.1.isPrefixOf s).map fun w => (w.2, s.drop w.1.length)

mutual

/-- One value at the head of the text. Every call below it has read a character, so the length of
the text is fuel enough. -/
def value : Nat → List Char → Option (Value × List Char)
  | 0, _ => none
  | _ + 1, [] => none
  | fuel + 1, c :: rest =>
    if c = '"' then do
      let (s, rest) ← stringBody rest
      return (.str (String.ofList s), rest)
    else if c = '{' then
      match skipSpace rest with
      | '}' :: rest => some (.obj [], rest)
      | rest => members fuel [] rest
    else if c = '[' then
      match skipSpace rest with
      | ']' :: rest => some (.arr [], rest)
      | rest => elements fuel [] rest
    else
      match word (c :: rest) with
      | some r => some r
      | none => number (c :: rest)

/-- The members of an object from the next key on. -/
def members : Nat → Fields → List Char → Option (Value × List Char)
  | fuel + 1, d, '"' :: rest => do
    let (k, rest) ← stringBody rest
    match skipSpace rest with
    | ':' :: rest =>
      let (v, rest) ← value fuel (skipSpace rest)
      let d := setItem (String.ofList k) v d
      match skipSpace rest with
      | '}' :: rest => some (.obj d, rest)
      | ',' :: rest => members fuel d (skipSpace rest)
      | _ => none
    | _ => none
  | _, _, _ => none

/-- The elements of an array from the next one on. -/
def elements : Nat → List Value → List Char → Option (Value × List Char)
  | 0, _, _ => none
  | fuel + 1, items, s => do
    let (v, rest) ← value fuel s
    match skipSpace rest with
    | ']' :: rest => some (.arr (items ++ [v]), rest)
    | ',' :: rest => elements fuel (items ++ [v]) (skipSpace rest)
    | _ => none

end

/-- `json.loads`, `none` where it raises. -/
def loads (text : String) : Option Value :=
  match value (text.toList.length + 1) (skipSpace text.toList) with
  | some (v, rest) => if skipSpace rest = [] then some v else none
  | none => none

/-! ### What the reader makes of plain text -/

/-- A character that stands for itself in a string literal. -/
def Plain (c : Char) : Prop := c ≠ '"' ∧ c ≠ '\\' ∧ 0x20 ≤ c.toNat

instance (c : Char) : Decidable (Plain c) :=
  inferInstanceAs (Decidable (c ≠ '"' ∧ c ≠ '\\' ∧ 0x20 ≤ c.toNat))

/-- A text that stands for itself between quotes. -/
def PlainText (s : String) : Prop := ∀ c ∈ s.toList, Plain c

instance (s : String) : Decidable (PlainText s) := List.decidableBAll Plain s.toList

theorem stringBody_plain {s : List Char} (h : ∀ c ∈ s, Plain c) (rest : List Char) :
    stringBody (s ++ '"' :: rest) = some (s, rest) := by
  induction s with
  | nil => simp [stringBody.eq_def]
  | cons c s ih =>
    obtain ⟨hquote, hslash, hcontrol⟩ := h c List.mem_cons_self
    have hrest := ih fun c' hc' => h c' (List.mem_cons_of_mem c hc')
    rw [List.cons_append, stringBody.eq_def]
    simp [hquote, hslash, Nat.not_lt.mpr hcontrol, hrest]

theorem value_string {s : String} (h : PlainText s) (fuel : Nat) (rest : List Char) :
    value (fuel + 1) ('"' :: (s.toList ++ '"' :: rest)) = some (.str s, rest) := by
  rw [value, if_pos rfl, stringBody_plain h]
  simp

theorem skipSpace_cons {c : Char} (h : isSpace c = false) (rest : List Char) :
    skipSpace (c :: rest) = c :: rest := by
  simp [skipSpace, h]

theorem value_object {fuel : Nat} {rest : List Char} :
    value (fuel + 1) ('{' :: '"' :: rest) = members fuel [] ('"' :: rest) := by
  rw [value, if_neg (by decide), if_pos rfl, skipSpace_cons (by decide)]
  rfl

/-- A member whose value begins with `c`, up to what follows the value. -/
theorem members_last {k : String} (hk : PlainText k) {s rest : List Char} {c : Char}
    (hc : isSpace c = false) {fuel : Nat} {v : Value} (d : Fields)
    (hv : value fuel (c :: s) = some (v, '}' :: rest)) :
    members (fuel + 1) d ('"' :: (k.toList ++ '"' :: ':' :: c :: s)) =
      some (.obj (setItem k v d), rest) := by
  have hcolon : skipSpace (':' :: c :: s) = ':' :: c :: s := skipSpace_cons (by decide) _
  have hclose : skipSpace ('}' :: rest) = '}' :: rest := skipSpace_cons (by decide) _
  simp [members, stringBody_plain hk, hcolon, skipSpace_cons hc, hv, hclose]

theorem members_next {k : String} (hk : PlainText k) {s rest : List Char} {c : Char}
    (hc : isSpace c = false) {fuel : Nat} {v : Value} (d : Fields)
    (hv : value fuel (c :: s) = some (v, ',' :: '"' :: rest)) :
    members (fuel + 1) d ('"' :: (k.toList ++ '"' :: ':' :: c :: s)) =
      members fuel (setItem k v d) ('"' :: rest) := by
  have hcolon : skipSpace (':' :: c :: s) = ':' :: c :: s := skipSpace_cons (by decide) _
  have hcomma : skipSpace (',' :: '"' :: rest) = ',' :: '"' :: rest := skipSpace_cons (by decide) _
  have hquote : skipSpace ('"' :: rest) = '"' :: rest := skipSpace_cons (by decide) _
  simp [members, stringBody_plain hk, hcolon, skipSpace_cons hc, hv, hcomma, hquote]

/-- A text that begins with an object is loaded when it is long enough for the levels of the object. -/
theorem loads_of_value {text : String} {s : List Char} {v : Value} {k : Nat}
    (hopen : text.toList = '{' :: s) (hk : k ≤ text.toList.length + 1)
    (hvalue : ∀ fuel, value (fuel + k) text.toList = some (v, [])) : loads text = some v := by
  have hspace : skipSpace text.toList = text.toList := by
    rw [hopen, skipSpace_cons (by decide)]
  obtain ⟨fuel, hfuel⟩ := Nat.exists_eq_add_of_le hk
  rw [loads, hspace, hfuel, Nat.add_comm, hvalue]
  simp [skipSpace]

/-! ### Writing -/

def hexChar (n : Nat) : Char :=
  if n < 10 then Char.ofNat ('0'.toNat + n) else Char.ofNat ('a'.toNat + (n - 10))

def unicodeEscape (n : Nat) : List Char :=
  ['\\', 'u', hexChar (n / 0x1000 % 16), hexChar (n / 0x100 % 16), hexChar (n / 0x10 % 16),
    hexChar (n % 16)]

def escapeChar (c : Char) : List Char :=
  if c = '"' ∨ c = '\\' then ['\\', c]
  else if c = '\n' then ['\\', 'n']
  else if c = '\r' then ['\\', 'r']
  else if c = '\t' then ['\\', 't']
  else if c = '\x0c' then ['\\', 'f']
  else if c = '\x08' then ['\\', 'b']
  else if ' ' ≤ c ∧ c ≤ '~' then [c]
  else if c.toNat < 0x10000 then unicodeEscape c.toNat
  else
    unicodeEscape (0xD800 + (c.toNat - 0x10000) / 0x400) ++
      unicodeEscape (0xDC00 + (c.toNat - 0x10000) % 0x400)

def renderString (s : String) : List Char := '"' :: s.toList.flatMap escapeChar ++ ['"']

mutual

def render : Value → List Char
  | .null => "null".toList
  | .bool true => "true".toList
  | .bool false => "false".toList
  | .int n => (toString n).toList
  | .float lexeme => lexeme.toList
  | .str s => renderString s
  | .arr items => '[' :: renderItems items ++ [']']
  | .obj fields => '{' :: renderFields fields ++ ['}']

def renderItems : List Value → List Char
  | [] => []
  | [v] => render v
  | v :: rest => render v ++ ", ".toList ++ renderItems rest

def renderFields : List (String × Value) → List Char
  | [] => []
  | [(k, v)] => renderString k ++ ": ".toList ++ render v
  | (k, v) :: rest => renderString k ++ ": ".toList ++ render v ++ ", ".toList ++ renderFields rest

end

/-- `json.dumps`. -/
def dumps (v : Value) : String := String.ofList (render v)

end Json
