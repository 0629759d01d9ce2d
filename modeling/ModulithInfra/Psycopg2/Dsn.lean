import ModulithInfra.Sql.Conninfo
import Mathlib.Data.List.TakeWhile
import Mathlib.Tactic.SplitIfs

/-!
# Connection strings of `psycopg2`

`connect` writes its keyword arguments into a connection string (`make_dsn`), from which `libpq` reads
its settings. Every option gets the value of its argument again, for every value without a NUL
(`connect_lookup`): host names, user names and generated passwords need no care of the caller's.
-/

namespace ModulithInfra.Psycopg2

open Transducer
open Pg.Conninfo (Setting IsKeyword)

inductive DsnError : Type where
  | typeError (text : String)
  | valueError (text : String)
  /-- `libpq` does not accept the string -/
  | programmingError
  deriving DecidableEq

/-- `\s` of a `str` pattern. -/
def isPySpace (c : Char) : Bool :=
  let n := c.toNat
  0x09 ≤ n && n ≤ 0x0d || 0x1c ≤ n && n ≤ 0x20 || n == 0x85 || n == 0xa0 || n == 0x1680 ||
    0x2000 ≤ n && n ≤ 0x200a || n == 0x2028 || n == 0x2029 || n == 0x202f || n == 0x205f ||
    n == 0x3000

/-- `_param_escape`. -/
def paramEscape (s : String) : String :=
  if s = "" then "''"
  else
    let s := Pg.Conninfo.escape s.toList
    if s.any isPySpace then "'" ++ String.ofList s ++ "'" else String.ofList s

/-- `"{}={}".format(k, _param_escape(v))` -/
def item (kv : Setting) : String := kv.1 ++ "=" ++ paramEscape kv.2

section MakeDsn

-- the keywords that `libpq` knows
variable (options : List String)

/-- `parse_dsn`: as a C string, the text ends at a NUL. -/
def parseDsn (dsn : String) : Option (List Setting) := do
  let settings ← Pg.Conninfo.parse (String.ofList (dsn.toList.takeWhile (· ≠ '\x00')))
  if settings.all (·.1 ∈ options) then some settings else none

variable {V : Type} (str : V → String)

/-- Keyword arguments, in order; a value may be `None`. -/
abbrev Kwargs (V : Type) := List (String × Option V)

/-- `kwargs['dbname'] = kwargs.pop('database')` -/
def renameDatabase (kwargs : Kwargs V) : Except DsnError (Kwargs V) :=
  match kwargs.lookup "database" with
  | none => .ok kwargs
  | some database =>
    if (kwargs.lookup "dbname").isSome then
      .error (.typeError "you can't specify both 'database' and 'dbname' arguments")
    else .ok (kwargs.filter (·.1 ≠ "database") ++ [("dbname", database)])

/-- The arguments that are not `None`, in writing. -/
def given (kwargs : Kwargs V) : List Setting :=
  kwargs.filterMap fun (k, v) => v.map fun v => (k, str v)

/-- `make_dsn` without a string to start from. -/
def makeDsn (kwargs : Kwargs V) : Except DsnError String :=
  if kwargs.isEmpty then .ok ""
  else do
    let kwargs ← renameDatabase kwargs
    let dsn := " ".intercalate ((given str kwargs).map item)
    match parseDsn options dsn with
    | some _ => .ok dsn
    | none => .error .programmingError

/-- `connect`, up to the settings that `libpq` connects with. -/
@[irreducible]
def connect (kwargs : Kwargs V) : Except DsnError (List Setting) := do
  let kwargs := kwargs.filter fun kv => kv.1 ≠ "async" ∧ kv.1 ≠ "async_"
  let dsn ← makeDsn options str kwargs
  if '\x00' ∈ dsn.toList then .error (.valueError "embedded null character")
  else
    match parseDsn options dsn with
    | some settings => .ok settings
    | none => .error .programmingError

end MakeDsn

/-! ### One setting -/

/-- Every blank of `libpq` is one of Python's. -/
theorem isPySpace_of_isSpace {c : Char} (h : Pg.Conninfo.isSpace c = true) : isPySpace c = true := by
  simp only [Pg.Conninfo.isSpace, List.mem_cons, List.not_mem_nil, or_false, decide_eq_true_eq] at h
  rcases h with rfl | rfl | rfl | rfl | rfl | rfl
  all_goals decide

theorem any_escape (s : List Char) : (Pg.Conninfo.escape s).any isPySpace = s.any isPySpace := by
  induction s with
  | nil => rfl
  | cons c s ih =>
    have hhead : (Pg.Conninfo.escapeChar c).any isPySpace = isPySpace c := by
      unfold Pg.Conninfo.escapeChar
      split_ifs with hc
      · have hslash : isPySpace '\\' = false := by decide
        simp [hslash]
      · simp
    rw [Pg.Conninfo.escape_cons, List.any_append, hhead, ih, List.any_cons]

theorem toList_item (kv : Setting) :
    (item kv).toList = kv.1.toList ++ ['='] ++ (paramEscape kv.2).toList := by
  simp [item]

/-- A setting is read back where the string ends or a blank follows. -/
theorem accept_item {kv : Setting} (hkey : IsKeyword kv.1.toList) {rest : List Char}
    (hrest : ∀ c ∈ rest.head?, Pg.Conninfo.isSpace c = true) :
    accept Pg.Conninfo.step Pg.Conninfo.finish .between ((item kv).toList ++ rest) =
      (accept Pg.Conninfo.step Pg.Conninfo.finish .between rest).map (kv :: ·) := by
  have hsetting : Pg.Conninfo.setting kv.1.toList kv.2.toList = kv := by
    simp [Pg.Conninfo.setting]
  have hquoted : ∀ value, value = '\'' :: (Pg.Conninfo.escape kv.2.toList ++ ['\'']) →
      accept Pg.Conninfo.step Pg.Conninfo.finish (.value kv.1.toList) (value ++ rest) =
        (accept Pg.Conninfo.step Pg.Conninfo.finish .between rest).map (kv :: ·) := by
    rintro value rfl
    rw [accept_append (Pg.Conninfo.run_quoted _ _), hsetting]
    rfl
  rw [toList_item, List.append_assoc, accept_append (Pg.Conninfo.run_keyword hkey)]
  simp only [List.nil_append, Option.map_id']
  unfold paramEscape
  dsimp only
  split_ifs with hempty hspace
  · exact hquoted _ (by simp [hempty])
  · exact hquoted _ (by simp)
  · have hne : kv.2.toList ≠ [] := by simpa using hempty
    rw [any_escape, List.any_eq_true] at hspace
    have hbare : ∀ c ∈ kv.2.toList, Pg.Conninfo.isSpace c = false := fun c hc =>
      Bool.eq_false_iff.mpr fun h => hspace ⟨c, hc, isPySpace_of_isSpace h⟩
    rw [String.toList_ofList, accept_append (Pg.Conninfo.run_bare hne hbare),
      Pg.Conninfo.accept_bare hrest, hsetting, Option.map_map]
    rfl

/-! ### The string -/

/-- Joined by blanks, settings are read back in order. -/
theorem parse_items {settings : List Setting} (hkeys : ∀ kv ∈ settings, IsKeyword kv.1.toList) :
    Pg.Conninfo.parse (" ".intercalate (settings.map item)) = some settings := by
  unfold Pg.Conninfo.parse
  induction settings with
  | nil => simp [Pg.Conninfo.finish]
  | cons kv settings ih =>
    have hkey := hkeys kv (by simp)
    cases settings with
    | nil =>
      have hnil : ∀ c ∈ ([] : List Char).head?, Pg.Conninfo.isSpace c = true := by simp
      simpa [Pg.Conninfo.finish] using accept_item hkey hnil
    | cons next settings =>
      have hrest := ih fun kv hkv => hkeys kv (by simp [hkv])
      have hblank : Pg.Conninfo.step .between ' ' = some (.between, []) := rfl
      have htext : (" ".intercalate ((kv :: next :: settings).map item)).toList =
          (item kv).toList ++ ' ' :: (" ".intercalate ((next :: settings).map item)).toList := by
        simp [String.intercalate_cons_cons]
      rw [htext, accept_item hkey (by simp [Pg.Conninfo.isSpace]), accept_cons hblank, hrest]
      rfl

/-- No character comes into the string but blanks and those of the settings' own texts. -/
theorem mem_items {settings : List Setting} {c : Char}
    (hc : c ∈ (" ".intercalate (settings.map item)).toList) :
    c = ' ' ∨ ∃ kv ∈ settings, c ∈ (item kv).toList := by
  induction settings with
  | nil => simp at hc
  | cons kv settings ih =>
    cases settings with
    | nil => exact .inr ⟨kv, by simp, by simpa using hc⟩
    | cons next settings =>
      have htext : (" ".intercalate ((kv :: next :: settings).map item)).toList =
          (item kv).toList ++ ' ' :: (" ".intercalate ((next :: settings).map item)).toList := by
        simp [String.intercalate_cons_cons]
      rw [htext, List.mem_append, List.mem_cons] at hc
      rcases hc with hc | rfl | hc
      · exact .inr ⟨kv, by simp, hc⟩
      · exact .inl rfl
      · refine (ih hc).imp_right ?_
        rintro ⟨kv', hmem, hkv'⟩
        exact ⟨kv', List.mem_cons_of_mem _ hmem, hkv'⟩

theorem mem_item {kv : Setting} {c : Char} (hc : c ∈ (item kv).toList) :
    c ∈ kv.1.toList ∨ c ∈ kv.2.toList ∨ c ∈ ['=', '\'', '\\'] := by
  have hescape : ∀ c ∈ Pg.Conninfo.escape kv.2.toList, c ∈ kv.2.toList ∨ c = '\\' := by
    intro c hc
    obtain ⟨d, hd, hcd⟩ := List.mem_flatMap.mp hc
    unfold Pg.Conninfo.escapeChar at hcd
    split_ifs at hcd
    · rcases List.mem_cons.mp hcd with rfl | hcd
      · exact .inr rfl
      · exact .inl (List.mem_singleton.mp hcd ▸ hd)
    · exact .inl (List.mem_singleton.mp hcd ▸ hd)
  have hvalue : c ∈ (paramEscape kv.2).toList → c ∈ kv.2.toList ∨ c = '\'' ∨ c = '\\' := by
    intro hc
    unfold paramEscape at hc
    dsimp only at hc
    split_ifs at hc
    · simp at hc
      exact .inr (.inl hc)
    · simp only [String.toList_append, String.toList_ofList, List.mem_append] at hc
      rcases hc with (hc | hc) | hc
      · exact .inr (.inl (by simpa using hc))
      · exact (hescape c hc).imp_right .inr
      · exact .inr (.inl (by simpa using hc))
    · rw [String.toList_ofList] at hc
      exact (hescape c hc).imp_right .inr
  rw [toList_item, List.mem_append, List.mem_append] at hc
  rcases hc with (hc | hc) | hc
  · exact .inl hc
  · exact .inr (.inr (by simp at hc; simp [hc]))
  · rcases hvalue hc with hc | rfl | rfl
    · exact .inr (.inl hc)
    · simp
    · simp

/-- The setting reaches `libpq`: a keyword it knows, and no NUL, which ends its strings. -/
structure Sendable (options : List String) (kv : Setting) : Prop where
  keyword : IsKeyword kv.1.toList
  known : kv.1 ∈ options
  name : '\x00' ∉ kv.1.toList
  value : '\x00' ∉ kv.2.toList

section Connect

variable {options : List String} {V : Type} {str : V → String}

theorem parseDsn_items {settings : List Setting} (h : ∀ kv ∈ settings, Sendable options kv) :
    '\x00' ∉ (" ".intercalate (settings.map item)).toList ∧
      parseDsn options (" ".intercalate (settings.map item)) = some settings := by
  have hnul : '\x00' ∉ (" ".intercalate (settings.map item)).toList := by
    intro hmem
    rcases mem_items hmem with hblank | ⟨kv, hkv, hmem⟩
    · simp at hblank
    · rcases mem_item hmem with hname | hvalue | hmark
      · exact (h kv hkv).name hname
      · exact (h kv hkv).value hvalue
      · simp at hmark
  have htake : (" ".intercalate (settings.map item)).toList.takeWhile (· ≠ '\x00') =
      (" ".intercalate (settings.map item)).toList := by
    rw [List.takeWhile_eq_self_iff]
    intro c hc
    have hne : c ≠ '\x00' := by
      rintro rfl
      exact hnul hc
    simpa using hne
  refine ⟨hnul, ?_⟩
  rw [parseDsn, htake, String.ofList_toList, parse_items fun kv hkv => (h kv hkv).keyword]
  have hall : settings.all (·.1 ∈ options) = true := by
    rw [List.all_eq_true]
    intro kv hkv
    simpa using (h kv hkv).known
  simp [hall]

/-- `libpq` connects with the named arguments, as they were given. -/
theorem connect_settings {kwargs named : Kwargs V}
    (hnamed : renameDatabase (kwargs.filter fun kv => kv.1 ≠ "async" ∧ kv.1 ≠ "async_") = .ok named)
    (h : ∀ kv ∈ given str named, Sendable options kv) :
    connect options str kwargs = .ok (given str named) := by
  obtain ⟨hnul, hparse⟩ := parseDsn_items h
  have hdsn : makeDsn options str (kwargs.filter fun kv => kv.1 ≠ "async" ∧ kv.1 ≠ "async_") =
      .ok (" ".intercalate ((given str named).map item)) := by
    unfold makeDsn
    split_ifs with hempty
    · rw [List.isEmpty_iff.mp hempty] at hnamed
      obtain rfl := Except.ok.inj hnamed
      simp [given]
    · rw [hnamed]
      simp only [bind, Except.bind, hparse]
  rw [connect]
  simp only [hdsn, bind, Except.bind, if_neg hnul, hparse]

end Connect

/-! ### Option by option -/

section Lookup

variable {options : List String} {V : Type} {str : V → String}

theorem lookup_filter {W : Type} (p : String → Bool) (k : String) (l : List (String × W)) :
    (l.filter fun kv => p kv.1).lookup k = if p k then l.lookup k else none := by
  induction l with
  | nil => simp
  | cons kv l ih =>
    obtain ⟨k', v⟩ := kv
    by_cases hk : k = k'
    · subst hk
      cases hp : p k with
      | true => simp [hp]
      | false => simp [hp, ih]
    · have hne : (k == k') = false := by simpa using hk
      cases hp : p k' with
      | true => simp [hp, List.lookup_cons, hne, ih]
      | false => simp [hp, List.lookup_cons, hne, ih]

theorem lookup_of_notMem {W : Type} {k : String} {l : List (String × W)}
    (h : k ∉ l.map Prod.fst) : l.lookup k = none := by
  rw [List.lookup_eq_none_iff]
  intro kv hkv
  have hne : k ≠ kv.1 := fun heq => h (heq ▸ List.mem_map_of_mem hkv)
  simpa using hne

theorem lookup_given {kwargs : Kwargs V} (hnodup : (kwargs.map Prod.fst).Nodup) (k : String) :
    (given str kwargs).lookup k = (kwargs.lookup k).join.map str := by
  induction kwargs with
  | nil => rfl
  | cons kv kwargs ih =>
    obtain ⟨k', v⟩ := kv
    obtain ⟨hnotMem, hnodup⟩ := List.nodup_cons.mp hnodup
    have hrest := ih hnodup
    by_cases hk : k = k'
    · subst hk
      cases v with
      | none =>
        rw [lookup_of_notMem hnotMem] at hrest
        simpa [given] using hrest
      | some v => simp [given]
    · have hne : (k == k') = false := by simpa using hk
      cases v with
      | none => simpa [given, List.lookup_cons, hne] using hrest
      | some v => simpa [given, List.lookup_cons, hne] using hrest

/-- The keyword of `libpq` for an argument. -/
def optionName (k : String) : String := if k = "database" then "dbname" else k

/-- The argument that an option gets its value from. -/
def argumentFor (kwargs : Kwargs V) (k : String) : Option V :=
  if k ∈ ["async", "async_", "database"] then none
  else if k = "dbname" then ((kwargs.lookup "database").or (kwargs.lookup "dbname")).join
  else (kwargs.lookup k).join

/-- The named arguments: where they come from, and what is found under each name. -/
theorem renameDatabase_cases {kwargs : Kwargs V} (hnodup : (kwargs.map Prod.fst).Nodup)
    (hone : "database" ∈ kwargs.map Prod.fst → "dbname" ∉ kwargs.map Prod.fst) :
    ∃ named, renameDatabase kwargs = .ok named ∧ (named.map Prod.fst).Nodup ∧
      (∀ kv ∈ named, ∃ k, (k, kv.2) ∈ kwargs ∧ kv.1 = optionName k) ∧
      ∀ k, named.lookup k = if k = "database" then none
        else if k = "dbname" then (kwargs.lookup "database").or (kwargs.lookup "dbname")
        else kwargs.lookup k := by
  unfold renameDatabase
  cases hdatabase : kwargs.lookup "database" with
  | none =>
    refine ⟨kwargs, rfl, hnodup, fun kv hkv => ⟨kv.1, hkv, ?_⟩, fun k => ?_⟩
    · have hne : kv.1 ≠ "database" := by
        have h := List.lookup_eq_none_iff.mp hdatabase kv hkv
        intro heq
        simp [heq] at h
      rw [optionName, if_neg hne]
    · split_ifs with h h'
      · rw [h, hdatabase]
      · rw [h', Option.none_or]
      · rfl
  | some database =>
    have hmem : ("database", database) ∈ kwargs := by
      obtain ⟨l₁, l₂, rfl, -⟩ := List.lookup_eq_some_iff.mp hdatabase
      simp
    have hdbname := hone (List.mem_map_of_mem hmem)
    have hnone := lookup_of_notMem hdbname
    simp only [hnone, Option.isSome_none]
    refine ⟨_, rfl, ?_, ?_, fun k => ?_⟩
    · rw [List.map_append, List.nodup_append]
      refine ⟨(List.filter_sublist.map _).nodup hnodup, by simp, ?_⟩
      intro k hk k' hk' heq
      obtain ⟨kv, hkv, rfl⟩ := List.mem_map.mp hk
      obtain rfl : k' = "dbname" := by simpa using hk'
      exact hdbname (heq ▸ List.mem_map_of_mem (List.mem_of_mem_filter hkv))
    · intro kv hkv
      rcases List.mem_append.mp hkv with hkv | hkv
      · obtain ⟨hkv, hne⟩ := List.mem_filter.mp hkv
        refine ⟨kv.1, hkv, ?_⟩
        rw [optionName, if_neg (by simpa using hne)]
      · obtain rfl := List.mem_singleton.mp hkv
        exact ⟨"database", hmem, rfl⟩
    · rw [List.lookup_append, lookup_filter (fun k => k ≠ "database")]
      by_cases hk : k = "database"
      · subst hk
        rfl
      · by_cases hk' : k = "dbname"
        · subst hk'
          simp [hnone]
        · have hne : (k == "dbname") = false := by simpa using hk'
          simp [hk, hk', List.lookup_cons, hne]

/-- Every option of the connection gets the value of its argument, whatever the values are: none is
cut, merged with its neighbour or taken for another option, and there are no others. -/
theorem connect_lookup {kwargs : Kwargs V} (hnodup : (kwargs.map Prod.fst).Nodup)
    (hone : "database" ∈ kwargs.map Prod.fst → "dbname" ∉ kwargs.map Prod.fst)
    (h : ∀ kv ∈ kwargs, kv.1 ∉ ["async", "async_"] →
      ∀ v ∈ kv.2, Sendable options (optionName kv.1, str v)) :
    ∃ settings, connect options str kwargs = .ok settings ∧
      ∀ k, settings.lookup k = (argumentFor kwargs k).map str := by
  have hsub : List.Sublist ((kwargs.filter fun kv => kv.1 ≠ "async" ∧ kv.1 ≠ "async_").map Prod.fst)
      (kwargs.map Prod.fst) := List.filter_sublist.map _
  obtain ⟨named, hnamed, hnamedNodup, hfrom, hlookup⟩ :=
    renameDatabase_cases (hsub.nodup hnodup)
      fun hdatabase hdbname => hone (hsub.subset hdatabase) (hsub.subset hdbname)
  refine ⟨given str named, connect_settings hnamed fun kv hkv => ?_, fun k => ?_⟩
  · obtain ⟨⟨k', v⟩, hmem, hvalue⟩ := List.mem_filterMap.mp hkv
    obtain ⟨v, rfl, rfl⟩ := Option.map_eq_some_iff.mp hvalue
    obtain ⟨k, hk, hname⟩ := hfrom _ hmem
    obtain ⟨hk, hasync⟩ := List.mem_filter.mp hk
    simp only at hname hk
    rw [hname]
    exact h _ hk (by simpa using hasync) v rfl
  · rw [lookup_given hnamedNodup, hlookup]
    have hfilter : ∀ k, (kwargs.filter fun kv => kv.1 ≠ "async" ∧ kv.1 ≠ "async_").lookup k =
        if k ≠ "async" ∧ k ≠ "async_" then kwargs.lookup k else none := by
      intro k
      rw [lookup_filter (fun k => k ≠ "async" ∧ k ≠ "async_")]
      simp
    rw [hfilter, hfilter, hfilter, argumentFor]
    by_cases hdatabase : k = "database"
    · simp [hdatabase]
    · by_cases hdbname : k = "dbname"
      · simp [hdbname]
      · by_cases hasync : k = "async" ∨ k = "async_"
        · rcases hasync with rfl | rfl
          · simp
          · simp
        · rw [not_or] at hasync
          simp [hdatabase, hdbname, hasync]

/-- `connect(host="pg", port=None, password="it's a\\b", database="ecomm")` -/
theorem connect_lookup_ecomm : ∃ settings,
    connect ["host", "port", "password", "dbname"] id [("host", some "pg"), ("port", none),
      ("password", some "it's a\\b"), ("database", some "ecomm")] = .ok settings ∧
      ∀ k, settings.lookup k = (argumentFor [("host", some "pg"), ("port", none),
        ("password", some "it's a\\b"), ("database", some "ecomm")] k).map id := by
  refine connect_lookup (by decide) (by decide) fun kv hkv _ v hv => ?_
  simp only [List.mem_cons, List.not_mem_nil, or_false] at hkv
  rcases hkv with rfl | rfl | rfl | rfl
  · obtain rfl := Option.some.inj hv
    exact ⟨by decide, by decide, by decide, by decide⟩
  · cases hv
  · obtain rfl := Option.some.inj hv
    exact ⟨by decide, by decide, by decide, by decide⟩
  · obtain rfl := Option.some.inj hv
    exact ⟨by decide, by decide, by decide, by decide⟩

end Lookup

end ModulithInfra.Psycopg2
