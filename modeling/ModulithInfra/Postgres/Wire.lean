import ModulithInfra.Calls.Agree
import ModulithInfra.Postgres.Healthy
import ModulithInfra.Postgres.Soundness
import ModulithInfra.Psycopg2.Dsn
import ModulithInfra.Psycopg2.Sql

/-!
# The database creator on the wire

`exec` takes a statement as what it means. Here it goes the way it really goes: the driver puts the
statement into a text and the credentials into a connection string, `libpq` reads the string, and the
server scans the text and cuts a long name short.

The handler cannot tell the difference. With names that are not empty and not too long for the
server, and with no NUL in them or in the credentials, every pool of invocations runs under every
schedule as it does over `exec` (`wire_run`), so that what was proved there holds of the texts.
-/

namespace ModulithInfra.Postgres

open Calls
open Psycopg2 (Composable IsName Quotes)

/-! ### The driver -/

/-- The compiled part of the driver. -/
structure Driver where
  quoteIdent : String → String
  /-- the query with its one string parameter in place -/
  mogrify : String → String → String
  /-- `str` of a float, a list or a dictionary -/
  repr : Json.Value → String
  /-- the keywords that `libpq` knows -/
  options : List String

/-- The query of the `SELECT`, with the parameter for its placeholder. -/
def selectQuery : String := "SELECT 1 FROM pg_database WHERE datname = %s"

/-- What the driver's documentation says of these parts. -/
structure Driver.Documented (driver : Driver) : Prop where
  quotes : Quotes driver.quoteIdent
  mogrify : ∀ s, '\x00' ∉ s.toList → driver.mogrify selectQuery s =
    "SELECT 1 FROM pg_database WHERE datname = " ++ String.ofList (Pg.enquote '\'' s.toList)
  options : ∀ k ∈ ["host", "port", "user", "password", "dbname"], k ∈ driver.options

section Texts

variable (driver : Driver)

/-- `sql.SQL(template).format(sql.Identifier(name))`, as text. -/
def identifierText (template name : String) : Except Psycopg2.FormatError String :=
  (Psycopg2.format [.identifier name []] [] template).map (Composable.asString driver.quoteIdent)

/-- The text of a statement of the handler. -/
def Sql.text : Sql → Except Psycopg2.FormatError String
  | .selectDatname datname => .ok (driver.mogrify selectQuery datname)
  | .createDatabase name => identifierText driver "CREATE DATABASE \x7b\x7d" name
  | .createSchemaIfNotExists name => identifierText driver "CREATE SCHEMA IF NOT EXISTS \x7b\x7d" name

/-- `str(v)`. -/
def str : Json.Value → String
  | .null => "None"
  | .bool true => "True"
  | .bool false => "False"
  | .int n => toString n
  | .str s => s
  | v => driver.repr v

/-- A keyword argument: `None` for a JSON `null`. -/
def kwarg : Json.Value → Option Json.Value
  | .null => none
  | v => some v

def credentials (host port user password : Json.Value) : Psycopg2.Kwargs Json.Value :=
  [("host", kwarg host), ("port", kwarg port), ("user", kwarg user), ("password", kwarg password)]

/-- The settings of `psycopg2.connect(host=…, port=…, user=…, password=…, database=…)`. -/
def settings (host port user password : Json.Value) (database : String) :
    Except Psycopg2.DsnError (List Pg.Conninfo.Setting) :=
  Psycopg2.connect driver.options (str driver)
    (credentials host port user password ++ [("database", some (.str database))])

end Texts

/-! ### The server's side -/

/-- The statement that the server reads in a text, its name cut to what the server keeps. -/
def readStatement (text : String) : Option Sql :=
  match Pg.lex text with
  | some [.word "select", .number "1", .word "from", .word "pg_database", .word "where",
      .word "datname", .symbol '=', .string s] => some (.selectDatname (Pg.truncateIdentifier s))
  | some [.word "create", .word "database", .quoted name] =>
    some (.createDatabase (Pg.truncateIdentifier name))
  | some [.word "create", .word "schema", .word "if", .word "not", .word "exists", .quoted name] =>
    some (.createSchemaIfNotExists (Pg.truncateIdentifier name))
  | _ => none

/-- `psycopg2.connect`, to the database that `libpq` reads in the connection string. -/
def connectText (driver : Driver) (host port user password : Json.Value) (database : String)
    (w : World) : Except Exn Connection × World :=
  match settings driver host port user password database with
  | .error _ => (.error (.external "invalid connection string"), w)
  | .ok found =>
    match found.reverse.lookup "dbname" with
    | none => (.error (.external "no database"), w)
    | some database => connectTo database w

/-- `cursor.execute`, of the statement that the server reads in the text. -/
def executeText (driver : Driver) (cursor : Cursor) (statement : Sql) (w : World) :
    Except Exn Cursor × World :=
  match statement.text driver with
  | .error _ => (.error (.external "invalid template"), w)
  | .ok text =>
    match readStatement text with
    | none => (.error (.external "syntax error"), w)
    | some statement => runSql cursor statement w

/-- `exec`, with statements and connections as texts. -/
def execText (driver : Driver) : (call : Call) → World → Except Exn call.Answer × World
  | .connect host port user password database, w =>
    connectText driver host port user password database w
  | .execute cursor statement, w => executeText driver cursor statement w
  | call, w => exec call w

/-! ### Statements -/

/-- The statement on the name that the server keeps. -/
def Sql.truncated : Sql → Sql
  | .selectDatname datname => .selectDatname (Pg.truncateIdentifier datname)
  | .createDatabase name => .createDatabase (Pg.truncateIdentifier name)
  | .createSchemaIfNotExists name => .createSchemaIfNotExists (Pg.truncateIdentifier name)

def Sql.name : Sql → String
  | .selectDatname datname => datname
  | .createDatabase name => name
  | .createSchemaIfNotExists name => name

variable {driver : Driver}

theorem lex_identifierText (h : driver.Documented) {template : String} {head : List Char}
    {tokens : List Pg.Token}
    (hhead : Transducer.run Pg.step .between head = some (.between, tokens))
    (htemplate : String.ofList (Psycopg2.template head [⟨[], []⟩]) = template) {name : String}
    (hname : IsName name) :
    ∃ text, identifierText driver template name = .ok text ∧
      Pg.lex text = some (tokens ++ [.quoted name]) := by
  have hclosed : ∀ piece ∈ [(⟨⟨[], []⟩, name, [], []⟩ : Psycopg2.Piece)], piece.Closed := by
    intro piece hpiece
    obtain rfl := List.mem_singleton.mp hpiece
    exact ⟨by simp [Psycopg2.PlainName], by simpa using hname, rfl, by simp⟩
  have hrefers : Psycopg2.Refers [.identifier name []] [] (some 0)
      [(⟨⟨[], []⟩, name, [], []⟩ : Psycopg2.Piece)] :=
    Psycopg2.refers_auto [⟨⟨[], []⟩, name, [], []⟩] (by simp) []
  obtain ⟨composed, text, hformat, htext, hweave⟩ :=
    Psycopg2.format_weave h.quotes hhead _ hrefers hclosed (by simp)
  simp only [List.map_cons, List.map_nil, htemplate] at hformat
  refine ⟨composed.asString driver.quoteIdent, ?_, ?_⟩
  · rw [identifierText, hformat]
    rfl
  · rw [htext, Pg.lex_weave hweave]
    simp [Psycopg2.identifierTokens]

theorem lex_mogrify (h : driver.Documented) {datname : String} (hname : IsName datname) :
    Pg.lex (driver.mogrify selectQuery datname) = some [.word "select", .number "1", .word "from",
      .word "pg_database", .word "where", .word "datname", .symbol '=', .string datname] := by
  have hhead : Transducer.run Pg.step .between
      "SELECT 1 FROM pg_database WHERE datname = ".toList = some (.between, [.word "select",
        .number "1", .word "from", .word "pg_database", .word "where", .word "datname",
        .symbol '=']) := rfl
  have htoken : Pg.quotedToken '\'' datname.toList = some (.string datname) := by
    simp [Pg.quotedToken]
  have hweave := Pg.Weave.name hhead (.inr rfl) htoken (.text (s := []) rfl) (by simp)
  have htext : driver.mogrify selectQuery datname = String.ofList
      ("SELECT 1 FROM pg_database WHERE datname = ".toList ++
        (Pg.enquote '\'' datname.toList ++ [])) := by
    rw [h.mogrify datname hname.2, Psycopg2.append_ofList, List.append_nil]
  rw [htext, Pg.lex_weave hweave]
  rfl

/-- The server reads every statement of the handler, on the name that it keeps. -/
theorem readStatement_text (h : driver.Documented) {statement : Sql}
    (hname : IsName statement.name) :
    ∃ text, statement.text driver = .ok text ∧ readStatement text = some statement.truncated := by
  cases statement with
  | selectDatname datname =>
    have hlex := lex_mogrify h (show IsName datname from hname)
    refine ⟨_, rfl, ?_⟩
    rw [readStatement, hlex]
    rfl
  | createDatabase name =>
    have hhead : Transducer.run Pg.step .between "CREATE DATABASE ".toList =
        some (.between, [.word "create", .word "database"]) := rfl
    obtain ⟨text, htext, hlex⟩ := lex_identifierText h hhead rfl (show IsName name from hname)
    refine ⟨text, htext, ?_⟩
    rw [readStatement, hlex]
    rfl
  | createSchemaIfNotExists name =>
    have hhead : Transducer.run Pg.step .between "CREATE SCHEMA IF NOT EXISTS ".toList =
        some (.between, [.word "create", .word "schema", .word "if", .word "not",
          .word "exists"]) := rfl
    obtain ⟨text, htext, hlex⟩ := lex_identifierText h hhead rfl (show IsName name from hname)
    refine ⟨text, htext, ?_⟩
    rw [readStatement, hlex]
    rfl

/-! ### What the handler asks for -/

/-- A name that the driver writes and the server keeps as it is. -/
def Fits (name : String) : Prop := IsName name ∧ Pg.byteLength name.toList ≤ Pg.maxNameLength

instance (name : String) : Decidable (Fits name) := inferInstanceAs (Decidable (_ ∧ _))

theorem truncated_of_fits {statement : Sql} (h : Fits statement.name) :
    statement.truncated = statement := by
  cases statement with
  | selectDatname datname => exact congrArg _ (Pg.truncateIdentifier_of_le h.2)
  | createDatabase name => exact congrArg _ (Pg.truncateIdentifier_of_le h.2)
  | createSchemaIfNotExists name => exact congrArg _ (Pg.truncateIdentifier_of_le h.2)

/-- A value whose text has no NUL. -/
def Plain (driver : Driver) (v : Json.Value) : Prop := '\x00' ∉ (str driver v).toList

instance (driver : Driver) (v : Json.Value) : Decidable (Plain driver v) :=
  inferInstanceAs (Decidable (¬ _))

/-- The credentials have no NUL. -/
def Vault.Plain (driver : Driver) (vault : Vault) : Prop :=
  ∀ secret ∈ Json.loads vault.secretString, ∀ key ∈ ["host", "port", "username", "password"],
    ∀ v ∈ (subscript secret key).toOption, Postgres.Plain driver v

instance (driver : Driver) (vault : Vault) : Decidable (vault.Plain driver) :=
  inferInstanceAs (Decidable (∀ _ ∈ _, _))

/-- The calls that the two levels agree on. -/
def Expressible (driver : Driver) (vault : Vault) : Call → Prop
  | .jsonLoads text => text = vault.secretString
  | .connect host port user password database => Fits database ∧ Plain driver host ∧
      Plain driver port ∧ Plain driver user ∧ Plain driver password
  | .execute _ statement => Fits statement.name
  | _ => True

/-- The answers that the handler works with. -/
def Genuine (vault : Vault) : (call : Call) → call.Answer → Prop
  | .getSecretValue _, answer => answer = some vault.secretString
  | .jsonLoads text, answer => Json.loads text = some answer
  | _, _ => True

/-- The program makes such calls only, and returns one of `results`. -/
abbrev Speaks (driver : Driver) (vault : Vault) {α : Type} (p : Handler α)
    (results : α → Prop) : Prop :=
  p.Asks (Expressible driver vault) (Genuine vault) results

section Speaks

variable {vault : Vault}

theorem speaks_issue {call : Call} (h : Expressible driver vault call) :
    Speaks driver vault (issue call) fun _ => True :=
  (Prog.Asks.issue h).mono fun _ _ => trivial

theorem speaks_item {α : Type} {key : String} {x : Option α} :
    Speaks driver vault (item key x) fun a => x = some a := by
  cases x with
  | none => trivial
  | some a => exact rfl

variable {secret : Json.Value} (hsecret : Json.loads vault.secretString = some secret)
  (hplain : vault.Plain driver)
include hsecret hplain

theorem speaks_subscript {key : String} (hkey : key ∈ ["host", "port", "username", "password"]) :
    Speaks driver vault (.ofExcept (subscript secret key)) (Plain driver) :=
  .ofExcept fun v hv => hplain secret hsecret key hkey v (by rw [hv]; rfl)

theorem speaks_connect {database : String} (hdb : Fits database) :
    Speaks driver vault (connect secret database) fun _ => True := by
  refine .bind (speaks_subscript hsecret hplain (by simp)) fun host hhost => ?_
  refine .bind (speaks_subscript hsecret hplain (by simp)) fun port hport => ?_
  refine .bind (speaks_subscript hsecret hplain (by simp)) fun user huser => ?_
  refine .bind (speaks_subscript hsecret hplain (by simp)) fun password hpassword => ?_
  refine .bind (speaks_issue ⟨hdb, hhost, hport, huser, hpassword⟩) fun connection _ => ?_
  exact .bind (speaks_issue trivial) fun _ _ => trivial

omit hsecret hplain in
theorem speaks_createSchemas {schemas : List String} (hschemas : ∀ schema ∈ schemas, Fits schema)
    (cursor : Cursor) : Speaks driver vault (createSchemas schemas cursor) fun _ => True := by
  induction schemas generalizing cursor with
  | nil => trivial
  | cons schema schemas ih =>
    refine .bind (speaks_issue (hschemas schema (by simp))) fun cursor _ => ?_
    exact ih (fun schema hschema => hschemas schema (by simp [hschema])) cursor

omit hsecret hplain in
theorem speaks_createIfMissing {db : String} (hdb : Fits db) (cursor : Cursor) :
    Speaks driver vault (createIfMissing cursor db) fun _ => True := by
  refine .bind (speaks_issue hdb) fun cursor _ => ?_
  refine .bind (speaks_issue trivial) fun exist _ => ?_
  split_ifs
  · exact speaks_issue hdb
  · trivial

theorem speaks_createEcommSchemas {db : String} (hdb : Fits db) {schemas : List String}
    (hschemas : ∀ schema ∈ schemas, Fits schema) :
    Speaks driver vault (createEcommSchemas secret db schemas) fun _ => True := by
  refine .bind (speaks_connect hsecret hplain hdb) fun connection _ => ?_
  refine .bind (speaks_issue trivial) fun cursor _ => ?_
  refine .bind (speaks_createSchemas hschemas cursor) fun cursor _ => ?_
  exact .bind (speaks_issue trivial) fun _ _ => trivial

theorem speaks_openDbConn {schemas : List String} (hschemas : ∀ schema ∈ schemas, Fits schema)
    (db : String) (dbConn : Option Connection) :
    Speaks driver vault (openDbConn secret schemas db dbConn) fun _ => True := by
  unfold openDbConn
  split_ifs with hecomm
  · have hdb : Fits db := by
      rw [hecomm]
      decide
    exact .bind (speaks_createEcommSchemas hsecret hplain hdb hschemas) fun _ _ => trivial
  · trivial

omit hsecret hplain in
theorem speaks_closeDbConn (dbConn : Option Connection) :
    Speaks driver vault (closeDbConn dbConn) fun _ => True := by
  cases dbConn with
  | none => trivial
  | some connection => exact .bind (speaks_issue trivial) fun _ _ => trivial

theorem speaks_createDatabases {databases schemas : List String}
    (hdatabases : ∀ db ∈ databases, Fits db) (hschemas : ∀ schema ∈ schemas, Fits schema)
    (cursor : Cursor) (dbConn : Option Connection) :
    Speaks driver vault (createDatabases secret schemas databases cursor dbConn) fun _ => True := by
  induction databases generalizing cursor dbConn with
  | nil => trivial
  | cons db databases ih =>
    refine .bind (speaks_createIfMissing (hdatabases db (by simp)) cursor) fun cursor _ => ?_
    refine .bind (speaks_openDbConn hsecret hplain hschemas db dbConn) fun dbConn _ => ?_
    refine .bind (speaks_closeDbConn dbConn) fun dbConn _ => ?_
    exact ih (fun db hdb => hdatabases db (by simp [hdb])) cursor dbConn

end Speaks

theorem speaks_setUp {vault : Vault} (hplain : vault.Plain driver) (secretArn : String)
    {databases schemas : List String} (hdatabases : ∀ db ∈ databases, Fits db)
    (hschemas : ∀ schema ∈ schemas, Fits schema) :
    Speaks driver vault (setUp secretArn databases schemas) fun _ => True := by
  refine .bind (speaks_issue trivial) fun _ _ => ?_
  refine .bind (.issue trivial) fun secretString hstring => ?_
  refine .bind speaks_item fun text htext => ?_
  obtain rfl : text = vault.secretString := Option.some.inj (htext.symm.trans hstring)
  refine .bind (.issue rfl) fun secret hsecret => ?_
  have hpostgres : Fits "postgres" := by decide
  refine .bind (speaks_connect hsecret hplain hpostgres) fun connection _ => ?_
  refine .bind (speaks_issue trivial) fun cursor _ => ?_
  refine .bind (speaks_createDatabases hsecret hplain hdatabases hschemas cursor none)
    fun cursor _ => ?_
  refine .bind (speaks_issue trivial) fun _ _ => ?_
  exact .bind (speaks_issue trivial) fun _ _ => speaks_issue trivial

/-- The names in an event are kept by the server as they are. -/
structure Event.Fits (event : Event) : Prop where
  databases : ∀ properties ∈ event.resourceProperties, ∀ databases ∈ properties.databases,
    ∀ db ∈ databases, Postgres.Fits db
  schemas : ∀ properties ∈ event.resourceProperties, ∀ schemas ∈ properties.schemas,
    ∀ schema ∈ schemas, Postgres.Fits schema

theorem speaks_handler {vault : Vault} (hplain : vault.Plain driver) {event : Event}
    (hevent : event.Fits) : Speaks driver vault (handler event) fun _ => True := by
  refine .tryCatch ?_ fun e => speaks_issue trivial
  refine .bind speaks_item fun requestType _ => ?_
  split_ifs
  · exact speaks_issue trivial
  refine .bind speaks_item fun properties hproperties => ?_
  refine .bind speaks_item fun secretArn _ => ?_
  refine .bind speaks_item fun databases hdatabases => ?_
  refine .bind speaks_item fun schemas hschemas => ?_
  exact speaks_setUp hplain secretArn (hevent.databases _ hproperties _ hdatabases)
    (hevent.schemas _ hproperties _ hschemas)

/-! ### Agreement -/

theorem eq_of_mem_kwarg {value v : Json.Value} (h : v ∈ kwarg value) : v = value := by
  cases value with
  | null => cases h
  | _ => exact (Option.some.inj h).symm

/-- `libpq` connects to the database that the handler names. -/
theorem settings_dbname (h : driver.Documented) {host port user password : Json.Value}
    {database : String} (hdb : Fits database) (hhost : Plain driver host)
    (hport : Plain driver port) (huser : Plain driver user) (hpassword : Plain driver password) :
    ∃ found, settings driver host port user password database = .ok found ∧
      found.reverse.lookup "dbname" = some database := by
  have hplain : ∀ kv ∈ Psycopg2.given (str driver)
      (credentials host port user password ++ [("dbname", some (.str database))]),
      Psycopg2.Sendable driver.options kv := by
    intro kv hkv
    obtain ⟨⟨k, v⟩, hmem, hvalue⟩ := List.mem_filterMap.mp hkv
    obtain ⟨v, rfl, rfl⟩ := Option.map_eq_some_iff.mp hvalue
    have hname : k ∈ ["host", "port", "user", "password", "dbname"] :=
      List.mem_map_of_mem (f := Prod.fst) hmem
    have hkeyword : ∀ k ∈ ["host", "port", "user", "password", "dbname"],
        Pg.Conninfo.IsKeyword k.toList ∧ '\x00' ∉ k.toList := by decide
    refine ⟨(hkeyword k hname).1, h.options k hname, (hkeyword k hname).2, ?_⟩
    simp only [credentials, List.cons_append, List.nil_append, List.mem_cons, Prod.mk.injEq,
      List.not_mem_nil, or_false] at hmem
    rcases hmem with ⟨-, hv⟩ | ⟨-, hv⟩ | ⟨-, hv⟩ | ⟨-, hv⟩ | ⟨-, hv⟩
    · rwa [eq_of_mem_kwarg hv.symm]
    · rwa [eq_of_mem_kwarg hv.symm]
    · rwa [eq_of_mem_kwarg hv.symm]
    · rwa [eq_of_mem_kwarg hv.symm]
    · obtain rfl := Option.some.inj hv
      exact hdb.1.2
  refine ⟨_, Psycopg2.connect_settings rfl hplain, ?_⟩
  rw [Psycopg2.given, List.filterMap_append, List.reverse_append]
  rfl

theorem connectText_eq (h : driver.Documented) {host port user password : Json.Value}
    {database : String} (hdb : Fits database) (hhost : Plain driver host)
    (hport : Plain driver port) (huser : Plain driver user) (hpassword : Plain driver password)
    (w : World) :
    connectText driver host port user password database w = connectTo database w := by
  obtain ⟨found, hfound, hdbname⟩ := settings_dbname h hdb hhost hport huser hpassword
  rw [connectText, hfound]
  dsimp only
  rw [hdbname]

theorem executeText_eq (h : driver.Documented) (cursor : Cursor) {statement : Sql}
    (hname : Fits statement.name) (w : World) :
    executeText driver cursor statement w = runSql cursor statement w := by
  obtain ⟨text, htext, hread⟩ := readStatement_text h hname.1
  rw [executeText, htext]
  dsimp only
  rw [hread, truncated_of_fits hname]

theorem runSql_vault (cursor : Cursor) (statement : Sql) (w : World) :
    (runSql cursor statement w).2.vault = w.vault := by
  unfold runSql
  by_cases hclosed : cursor.connection.closed = true
  · rw [if_pos hclosed]
  rw [if_neg hclosed]
  cases statement with
  | selectDatname datname => rfl
  | createDatabase name =>
    dsimp only
    split_ifs
    · rfl
    · cases w.server.databases name with
      | none => rfl
      | some present => rfl
  | createSchemaIfNotExists name =>
    dsimp only
    cases w.server.databases cursor.connection.database with
    | none => rfl
    | some present =>
      dsimp only
      split_ifs
      · rfl
      · rfl

/-- No call changes the secret. -/
theorem exec_vault (call : Call) (w : World) : (exec call w).2.vault = w.vault := by
  cases call with
  | jsonLoads text =>
    simp only [exec]
    cases Json.loads text with
    | none => rfl
    | some v => rfl
  | connect host port user password database =>
    simp only [exec, connectTo]
    split_ifs
    · rfl
    · rfl
  | cursor connection =>
    simp only [exec]
    split_ifs
    · rfl
    · rfl
  | execute cursor statement => exact runSql_vault cursor statement w
  | _ => rfl

theorem agree_execText (h : driver.Documented) (vault : Vault) :
    Agree exec (execText driver) (fun w => w.vault = vault) (Expressible driver vault)
      (Genuine vault) := by
  refine ⟨fun call w _ hcall => ?_, fun call w answer hw hcall hanswer => ?_, fun call w hw _ => ?_⟩
  · cases call with
    | connect host port user password database =>
      obtain ⟨hdb, hhost, hport, huser, hpassword⟩ := hcall
      exact connectText_eq h hdb hhost hport huser hpassword w
    | execute cursor statement => exact executeText_eq h cursor hcall w
    | _ => rfl
  · cases call with
    | getSecretValue secretId =>
      obtain rfl := Except.ok.inj hanswer
      exact congrArg (fun v : Vault => some v.secretString) hw
    | jsonLoads text =>
      cases hloads : Json.loads text with
      | none => simp [exec, hloads] at hanswer
      | some v =>
        simp only [exec, hloads] at hanswer
        obtain rfl := Except.ok.inj hanswer
        exact hloads
    | _ => trivial
  · exact (exec_vault call w).trans hw

variable {ι : Type} [DecidableEq ι]

/-- Over texts and connection strings, any number of invocations run under every schedule of calls,
faults and kills as they do over `exec`. -/
theorem wire_run (h : driver.Documented) (v : ι → Invocation) (w : World)
    (hplain : w.vault.Plain driver) (hnames : ∀ i, (v i).event.Fits)
    (schedule : List (ι × Act Exn)) :
    (launch v w).run (execText driver) schedule = (launch v w).run exec schedule := by
  refine Pool.Asks.run_eq (agree_execText h w.vault) ⟨rfl, fun i prog hprog => ?_⟩ schedule
  obtain rfl := Option.some.inj hprog
  exact speaks_handler hplain (hnames i)

/-- The placeholder of a query and its value. -/
def substitute (value : List Char) : List Char → List Char
  | '%' :: 's' :: rest => value ++ substitute value rest
  | c :: rest => c :: substitute value rest
  | [] => []

/-- A driver as the documentation has it. -/
def plainDriver : Driver where
  quoteIdent s := String.ofList (Pg.enquote '"' s.toList)
  mogrify query s := String.ofList (substitute (Pg.enquote '\'' s.toList) query.toList)
  repr _ := ""
  options := ["host", "port", "user", "password", "dbname"]

theorem plainDriver_documented : plainDriver.Documented where
  quotes _ _ := rfl
  mogrify s _ := by
    have h : substitute (Pg.enquote '\'' s.toList) selectQuery.toList =
        "SELECT 1 FROM pg_database WHERE datname = ".toList ++ (Pg.enquote '\'' s.toList ++ []) :=
      rfl
    rw [Psycopg2.append_ofList, ← List.append_nil (Pg.enquote _ _), ← h]
    rfl
  options _ hk := hk

/-- Two invocations for the same new database. -/
def twoCreations : Fin 2 → Invocation := fun _ => ⟨.Create, "secret", ["ecomm"], ["web"]⟩

/-- The first runs to its end, then the second. -/
def oneByOne : List (Fin 2 × Act Exn) :=
  List.replicate 18 (0, .call .none) ++ List.replicate 18 (1, .call .none)

/-- Both create or find the database and its schema over texts, and say so. -/
theorem wire_run_fresh :
    (launch twoCreations freshWorld).run (execText plainDriver) oneByOne =
        (launch twoCreations freshWorld).run exec oneByOne ∧
      ∀ i, Sent ((launch twoCreations freshWorld).run (execText plainDriver) oneByOne) i
        .SUCCESS := by
  have hrun := wire_run plainDriver_documented twoCreations freshWorld (by decide +kernel)
    (fun _ => ⟨by decide +revert, by decide +revert⟩) oneByOne
  refine ⟨hrun, fun i => ?_⟩
  rw [hrun]
  unfold Sent
  revert i
  decide +kernel

end ModulithInfra.Postgres
