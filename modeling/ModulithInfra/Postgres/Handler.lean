import ModulithInfra.Calls.Program
import ModulithInfra.Json.Basic
import ModulithInfra.Postgres.Server

/-!
# The database creator

The inline Lambda of `PostgresConfigStack`, as a program of its external calls, and what those calls
do to a healthy server (`exec`). Connections and cursors are values: the handler's local variables
hold their current state, and the connection variable that only the `ecomm` branch binds is an
`Option`.
-/

namespace ModulithInfra.Postgres

open Calls

/-! ### Events, exceptions, responses -/

structure ResourceProperties where
  secretArn : Option String
  databases : Option (List String)
  schemas : Option (List String)

/-- The part of a CloudFormation custom resource event that the handler reads; a key may be missing. -/
structure Event where
  requestType : Option String
  resourceProperties : Option ResourceProperties

/-- The lifecycle events CloudFormation sends. -/
inductive RequestType : Type where
  | Create
  | Update
  | Delete
  deriving DecidableEq

def RequestType.name : RequestType → String
  | .Create => "Create"
  | .Update => "Update"
  | .Delete => "Delete"

/-- The event of the custom resource `DatabaseCreator`. -/
def Event.of (request : RequestType) (secretArn : String) (databases schemas : List String) : Event where
  requestType := some request.name
  resourceProperties := some ⟨some secretArn, some databases, some schemas⟩

inductive Exn : Type where
  | keyError (key : String)
  | typeError (text : String)
  | unboundLocalError (name : String)
  /-- raised by boto3, `json` or psycopg2 -/
  | external (text : String)
  deriving DecidableEq

/-- `str(e)`. -/
def Exn.str : Exn → String
  | .keyError key => "'" ++ key ++ "'"
  | .typeError text => text
  | .unboundLocalError name =>
      "cannot access local variable '" ++ name ++ "' where it is not associated with a value"
  | .external text => text

inductive Status : Type where
  | SUCCESS
  | FAILED
  deriving DecidableEq

/-! ### Calls -/

structure Connection where
  database : String
  autocommit : Bool
  closed : Bool
  deriving DecidableEq

/-- A cursor with the rows its last statement selected. -/
structure Cursor where
  connection : Connection
  rows : List Nat
  deriving DecidableEq

inductive Sql : Type where
  /-- `SELECT 1 FROM pg_database WHERE datname = %s` -/
  | selectDatname (datname : String)
  /-- `CREATE DATABASE {}` -/
  | createDatabase (name : String)
  /-- `CREATE SCHEMA IF NOT EXISTS {}` -/
  | createSchemaIfNotExists (name : String)
  deriving DecidableEq

inductive Call : Type where
  | client (service : String)
  | getSecretValue (secretId : String)
  | jsonLoads (text : String)
  | connect (host port user password : Json.Value) (database : String)
  | setAutocommit (connection : Connection)
  | cursor (connection : Connection)
  | execute (cursor : Cursor) (statement : Sql)
  | fetchone (cursor : Cursor)
  | closeCursor (cursor : Cursor)
  | closeConnection (connection : Connection)
  | send (status : Status) (data : List (String × String))

/-- What a call answers when it does not raise; the secret may have no `SecretString`. -/
abbrev Call.Answer : Call → Type
  | .client _ => Unit
  | .getSecretValue _ => Option String
  | .jsonLoads _ => Json.Value
  | .connect _ _ _ _ _ => Connection
  | .setAutocommit _ => Unit
  | .cursor _ => Cursor
  | .execute _ _ => Cursor
  | .fetchone _ => Option Nat
  | .closeCursor _ => Unit
  | .closeConnection _ => Unit
  | .send _ _ => Unit

/-- The statuses of the responses among some calls. -/
def responses (calls : List Call) : List Status :=
  calls.filterMap fun
    | .send status _ => some status
    | _ => none

@[simp] theorem responses_nil : responses [] = [] := rfl

theorem responses_append (calls calls' : List Call) :
    responses (calls ++ calls') = responses calls ++ responses calls' :=
  List.filterMap_append

/-! ### The world of the calls -/

/-- `secret[key]` on what `json.loads` returned. -/
def subscript (secret : Json.Value) (key : String) : Except Exn Json.Value :=
  match secret with
  | .obj fields =>
    match Json.getItem key fields with
    | some v => .ok v
    | none => .error (.keyError key)
  | _ => .error (.typeError "object is not subscriptable by a string")

/-- The stored secret of the cluster: it parses, and has the keys a connection needs. -/
structure Vault where
  secretString : String
  complete : ∀ key ∈ ["host", "port", "username", "password"],
    (((Json.loads secretString).map (subscript · key)).any Except.isOk) = true

structure World where
  server : Server
  vault : Vault

/-- `psycopg2.connect`; the maintenance database takes connections on every healthy server. -/
def connectTo (database : String) (w : World) : Except Exn Connection × World :=
  if database = "postgres" ∨ w.server.Has database then (.ok ⟨database, false, false⟩, w)
  else (.error (.external ("database \"" ++ database ++ "\" does not exist")), w)

/-- `cursor.execute`. -/
def runSql (cursor : Cursor) (statement : Sql) (w : World) : Except Exn Cursor × World :=
  if cursor.connection.closed then (.error (.external "connection already closed"), w)
  else
    match statement with
    | .selectDatname datname =>
      (.ok { cursor with rows := if w.server.Has datname then [1] else [] }, w)
    | .createDatabase name =>
      if !cursor.connection.autocommit then
        (.error (.external "CREATE DATABASE cannot run inside a transaction block"), w)
      else
        match w.server.databases name with
        | some _ => (.error (.external ("database \"" ++ name ++ "\" already exists")), w)
        | none => (.ok { cursor with rows := [] }, { w with server := w.server.createDatabase name })
    | .createSchemaIfNotExists name =>
      match w.server.databases cursor.connection.database with
      | none => (.error (.external "terminating connection"), w)
      | some present =>
        -- without autocommit the statement is never committed
        if cursor.connection.autocommit then
          (.ok { cursor with rows := [] },
            { w with server := w.server.createSchema cursor.connection.database present name })
        else (.ok { cursor with rows := [] }, w)

/-- What each call does when nothing outside goes wrong. -/
def exec : (call : Call) → World → Except Exn call.Answer × World
  | .client _, w => (.ok (), w)
  | .getSecretValue _, w => (.ok (some w.vault.secretString), w)
  | .jsonLoads text, w =>
    match Json.loads text with
    | some v => (.ok v, w)
    | none => (.error (.external "Expecting value"), w)
  | .connect _ _ _ _ database, w => connectTo database w
  | .setAutocommit _, w => (.ok (), w)
  | .cursor connection, w =>
    if connection.closed then (.error (.external "connection already closed"), w)
    else (.ok ⟨connection, []⟩, w)
  | .execute cursor statement, w => runSql cursor statement w
  | .fetchone cursor, w => (.ok cursor.rows.head?, w)
  | .closeCursor _, w => (.ok (), w)
  -- closing a closed connection does nothing
  | .closeConnection _, w => (.ok (), w)
  | .send _ _, w => (.ok (), w)

/-! ### What a statement can do -/

theorem runSql_select_cases (cursor : Cursor) (db : String) (w : World) :
    (∃ e, runSql cursor (.selectDatname db) w = (.error e, w)) ∨
      runSql cursor (.selectDatname db) w =
        (.ok { cursor with rows := if w.server.Has db then [1] else [] }, w) := by
  unfold runSql
  by_cases hclosed : cursor.connection.closed = true
  · exact .inl ⟨_, by rw [if_pos hclosed]⟩
  · exact .inr (by rw [if_neg hclosed])

theorem runSql_createDatabase_cases (cursor : Cursor) (db : String) (w : World) :
    (∃ e, runSql cursor (.createDatabase db) w = (.error e, w)) ∨
      w.server.databases db = none ∧ runSql cursor (.createDatabase db) w =
        (.ok { cursor with rows := [] }, { w with server := w.server.createDatabase db }) := by
  unfold runSql
  by_cases hclosed : cursor.connection.closed = true
  · exact .inl ⟨_, by rw [if_pos hclosed]⟩
  by_cases hauto : (!cursor.connection.autocommit) = true
  · exact .inl ⟨_, by rw [if_neg hclosed]; dsimp only; rw [if_pos hauto]⟩
  rw [if_neg hclosed]
  dsimp only
  rw [if_neg hauto]
  cases hdb : w.server.databases db with
  | some present => exact .inl ⟨_, rfl⟩
  | none => exact .inr ⟨rfl, rfl⟩

theorem runSql_createSchema_cases (cursor : Cursor) (hauto : cursor.connection.autocommit = true)
    (schema : String) (w : World) :
    (∃ e, runSql cursor (.createSchemaIfNotExists schema) w = (.error e, w)) ∨
      ∃ present, w.server.databases cursor.connection.database = some present ∧
        runSql cursor (.createSchemaIfNotExists schema) w = (.ok { cursor with rows := [] },
          { w with server := w.server.createSchema cursor.connection.database present schema }) := by
  unfold runSql
  by_cases hclosed : cursor.connection.closed = true
  · exact .inl ⟨_, by rw [if_pos hclosed]⟩
  rw [if_neg hclosed]
  dsimp only
  cases hdb : w.server.databases cursor.connection.database with
  | none => exact .inl ⟨_, rfl⟩
  | some present => exact .inr ⟨present, rfl, if_pos hauto⟩

/-! ### The handler -/

abbrev Handler := Prog Call.Answer Exn

abbrev issue (call : Call) : Handler call.Answer := Prog.issue call

/-- `d[key]` for a key of the event. -/
def item {α : Type} (key : String) : Option α → Handler α
  | some a => pure a
  | none => .raise (.keyError key)

/-- `psycopg2.connect` with the credentials of the secret. -/
def connect (secret : Json.Value) (database : String) : Handler Connection := do
  let host ← .ofExcept (subscript secret "host")
  let port ← .ofExcept (subscript secret "port")
  let user ← .ofExcept (subscript secret "username")
  let password ← .ofExcept (subscript secret "password")
  let connection ← issue (.connect host port user password database)
  issue (.setAutocommit connection)
  return { connection with autocommit := true }

/-- `for schema in schemas`. -/
def createSchemas : List String → Cursor → Handler Cursor
  | [], dbCursor => pure dbCursor
  | schema :: schemas, dbCursor => do
    let dbCursor ← issue (.execute dbCursor (.createSchemaIfNotExists schema))
    createSchemas schemas dbCursor

/-- The body of the `if db == 'ecomm'` branch, up to the connection it binds. -/
def createEcommSchemas (secret : Json.Value) (db : String) (schemas : List String) :
    Handler Connection := do
  let dbConn ← connect secret db
  let dbCursor ← issue (.cursor dbConn)
  let dbCursor ← createSchemas schemas dbCursor
  issue (.closeCursor dbCursor)
  return dbConn

/-- Select the database and create it if the answer was empty. -/
def createIfMissing (adminCursor : Cursor) (db : String) : Handler Cursor := do
  let adminCursor ← issue (.execute adminCursor (.selectDatname db))
  let exist ← issue (.fetchone adminCursor)
  if exist.isNone then issue (.execute adminCursor (.createDatabase db))
  else return adminCursor

/-- The `if db == 'ecomm'` branch: the variable `db_conn` after it. -/
def openDbConn (secret : Json.Value) (schemas : List String) (db : String)
    (dbConn : Option Connection) : Handler (Option Connection) :=
  if db = ecomm then some <$> createEcommSchemas secret db schemas else pure dbConn

/-- `db_conn.close()`: the closed connection stays in the variable, if one was ever bound. -/
def closeDbConn : Option Connection → Handler (Option Connection)
  | none => .raise (.unboundLocalError "db_conn")
  | some dbConn => do
    issue (.closeConnection dbConn)
    return some { dbConn with closed := true }

/-- `for db in databases`, with the value of `db_conn` on entry. -/
def createDatabases (secret : Json.Value) (schemas : List String) :
    List String → Cursor → Option Connection → Handler Cursor
  | [], adminCursor, _ => pure adminCursor
  | db :: databases, adminCursor, dbConn => do
    let adminCursor ← createIfMissing adminCursor db
    let dbConn ← openDbConn secret schemas db dbConn
    let dbConn ← closeDbConn dbConn
    createDatabases secret schemas databases adminCursor dbConn

/-- The set-up proper, from the properties of the event. -/
def setUp (secretArn : String) (databases schemas : List String) : Handler Unit := do
  issue (.client "secretsmanager")
  let secretString ← issue (.getSecretValue secretArn)
  let secretString ← item "SecretString" secretString
  let secret ← issue (.jsonLoads secretString)
  let adminConn ← connect secret "postgres"
  let adminCursor ← issue (.cursor adminConn)
  let adminCursor ← createDatabases secret schemas databases adminCursor none
  issue (.closeCursor adminCursor)
  issue (.closeConnection adminConn)
  issue (.send .SUCCESS [])

/-- The `try` block of the handler. -/
def body (event : Event) : Handler Unit := do
  let requestType ← item "RequestType" event.requestType
  if requestType = "Delete" then
    issue (.send .SUCCESS [])
  else
    let properties ← item "ResourceProperties" event.resourceProperties
    let secretArn ← item "SecretArn" properties.secretArn
    let databases ← item "Databases" properties.databases
    let schemas ← item "Schemas" properties.schemas
    setUp secretArn databases schemas

def handler (event : Event) : Handler Unit :=
  (body event).tryCatch fun e => issue (.send .FAILED [("Message", e.str)])

end ModulithInfra.Postgres
