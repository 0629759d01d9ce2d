import ModulithInfra.Postgres.Handler

/-!
# The database creator on a healthy server

What one invocation does when no call fails: it sets up the databases it gets to and sends one
response (`steps_handler`). It gets to all of them only if the list is empty or starts with
`ecomm`; otherwise the first iteration ends in the unbound `db_conn`, after creating the first
database (`reached`, `Completes`).

The loops are followed by `Quiet` runs, stretches of calls without a response. Each loop keeps that
the server was reached by statements of the set-up and that the names handled so far are done.
-/

namespace ModulithInfra.Postgres

open Calls

/-- The databases an invocation gets to. -/
def reached (databases : List String) : List String :=
  if databases.head? = some ecomm then databases else databases.take 1

/-- The loop over the databases comes to its end. -/
def Completes (databases : List String) : Prop :=
  databases = [] ∨ databases.head? = some ecomm

instance (databases : List String) : Decidable (Completes databases) :=
  inferInstanceAs (Decidable (_ ∨ _))

theorem reached_of_completes {databases : List String} (h : Completes databases) :
    reached databases = databases := by
  rcases h with rfl | h
  · rfl
  · rw [reached, if_pos h]

theorem reached_subset (databases : List String) : reached databases ⊆ databases := by
  unfold reached
  split_ifs
  · exact List.Subset.refl _
  · exact List.take_subset _ _

/-! ### Quiet runs -/

/-- The program reaches `q` without a fault and without sending a response. -/
def Quiet {α : Type} (p : Handler α) (w : World) (q : Handler α) (w' : World) : Prop :=
  ∃ calls, responses calls = [] ∧ Steps exec p w calls q w'

namespace Quiet

variable {α β : Type} {p q r : Handler α} {w w' w'' : World}

theorem refl (p : Handler α) (w : World) : Quiet p w p w := ⟨[], rfl, .refl _ _⟩

theorem trans (h : Quiet p w q w') (h' : Quiet q w' r w'') : Quiet p w r w'' := by
  obtain ⟨calls, hcalls, hsteps⟩ := h
  obtain ⟨calls', hcalls', hsteps'⟩ := h'
  exact ⟨calls ++ calls', by rw [responses_append, hcalls, hcalls', List.append_nil],
    hsteps.trans hsteps'⟩

/-- Run the first part of a sequence to its value, then the rest from there. -/
theorem seq {a : α} {f : α → Handler β} {q : Handler β} (h : Quiet p w (.ret a) w')
    (h' : Quiet (f a) w' q w'') : Quiet (p >>= f) w q w'' := by
  obtain ⟨calls, hcalls, hsteps⟩ := h
  exact trans ⟨calls, hcalls, hsteps.bind f⟩ h'

/-- An exception in the first part of a sequence is the sequence's. -/
theorem seq_raise {e : Exn} {f : α → Handler β} (h : Quiet p w (.raise e) w') :
    Quiet (p >>= f) w (.raise e) w' := by
  obtain ⟨calls, hcalls, hsteps⟩ := h
  exact ⟨calls, hcalls, hsteps.bind f⟩

/-- A call that answers `a`, then the rest of the sequence from there. -/
theorem call {c : Call} {a : c.Answer} {f : c.Answer → Handler β} {q : Handler β}
    (hc : responses [c] = []) (h : exec c w = (.ok a, w')) (h' : Quiet (f a) w' q w'') :
    Quiet (issue c >>= f) w q w'' := by
  refine trans ⟨[c], hc, ?_⟩ h'
  have hstep : Steps exec ((Prog.issue c).bind f) w [c] _ (exec c w).2 := .call (.refl _ _)
  rw [h] at hstep
  exact hstep

end Quiet

/-! ### The secret -/

/-- The stored secret parses to a dictionary with the keys of a connection. -/
theorem Vault.subscript_ok (v : Vault) : ∃ secret, Json.loads v.secretString = some secret ∧
    ∀ key ∈ ["host", "port", "username", "password"], ∃ value, subscript secret key = .ok value := by
  cases h : Json.loads v.secretString with
  | none =>
    have hhost := v.complete "host" (by simp)
    simp [h] at hhost
  | some secret =>
    refine ⟨secret, rfl, fun key hkey => ?_⟩
    have hcomplete := v.complete key hkey
    rw [h, Option.map_some, Option.any_some] at hcomplete
    cases hsub : subscript secret key with
    | ok value => exact ⟨value, rfl⟩
    | error e => simp [hsub, Except.isOk, Except.toBool] at hcomplete

/-! ### What the calls answer -/

theorem exec_connect {host port user password : Json.Value} {database : String} {w : World}
    (hdb : database = "postgres" ∨ w.server.Has database) :
    exec (.connect host port user password database) w = (.ok ⟨database, false, false⟩, w) :=
  if_pos hdb

theorem exec_select (cursor : Cursor) (hopen : cursor.connection.closed = false) (db : String)
    (w : World) : exec (.execute cursor (.selectDatname db)) w =
      (.ok { cursor with rows := if w.server.Has db then [1] else [] }, w) := by
  simp [exec, runSql, hopen]

theorem exec_createDatabase (cursor : Cursor) (hopen : cursor.connection.closed = false)
    (hauto : cursor.connection.autocommit = true) {db : String} {w : World}
    (hnew : w.server.databases db = none) : exec (.execute cursor (.createDatabase db)) w =
      (.ok { cursor with rows := [] }, { w with server := w.server.createDatabase db }) := by
  simp [exec, runSql, hopen, hauto, hnew]

theorem exec_createDatabase_exists (cursor : Cursor) (hopen : cursor.connection.closed = false)
    (hauto : cursor.connection.autocommit = true) {db : String} {w : World}
    (hdb : w.server.Has db) : exec (.execute cursor (.createDatabase db)) w =
      (.error (.external ("database \"" ++ db ++ "\" already exists")), w) := by
  obtain ⟨present, hpresent⟩ := Option.isSome_iff_exists.mp hdb
  simp [exec, runSql, hopen, hauto, hpresent]

theorem exec_createSchema (cursor : Cursor) (hopen : cursor.connection.closed = false)
    (hauto : cursor.connection.autocommit = true) (schema : String) {w : World}
    {present : Finset String} (hdb : w.server.databases cursor.connection.database = some present) :
    exec (.execute cursor (.createSchemaIfNotExists schema)) w =
      (.ok { cursor with rows := [] },
        { w with server := w.server.createSchema cursor.connection.database present schema }) := by
  simp [exec, runSql, hopen, hauto, hdb]

/-! ### The loops -/

/-- The keys of a secret that a connection reads are there. -/
def Readable (secret : Json.Value) : Prop :=
  ∀ key ∈ ["host", "port", "username", "password"], ∃ value, subscript secret key = .ok value

/-- A cursor on an open connection with autocommit. -/
def Cursor.Ready (cursor : Cursor) : Prop :=
  cursor.connection.closed = false ∧ cursor.connection.autocommit = true

/-- With such a secret the first call of a connection is `psycopg2.connect`. -/
theorem connect_of_readable {secret : Json.Value} (hsecret : Readable secret) (database : String) :
    ∃ host port user password, connect secret database =
      (do
        let connection ← issue (.connect host port user password database)
        issue (.setAutocommit connection)
        return { connection with autocommit := true }) := by
  obtain ⟨host, hhost⟩ := hsecret "host" (by simp)
  obtain ⟨port, hport⟩ := hsecret "port" (by simp)
  obtain ⟨user, huser⟩ := hsecret "username" (by simp)
  obtain ⟨password, hpassword⟩ := hsecret "password" (by simp)
  refine ⟨host, port, user, password, ?_⟩
  unfold connect
  rw [hhost, hport, huser, hpassword]
  rfl

theorem quiet_connect {secret : Json.Value} (hsecret : Readable secret) {database : String}
    {w : World} (hdb : database = "postgres" ∨ w.server.Has database) :
    Quiet (connect secret database) w (.ret ⟨database, true, false⟩) w := by
  obtain ⟨host, port, user, password, hconnect⟩ := connect_of_readable hsecret database
  rw [hconnect]
  refine .call rfl (exec_connect hdb) ?_
  exact .call rfl rfl (.refl _ _)

/-- The schema loop adds its schemas to `ecomm` and nothing else. -/
theorem quiet_createSchemas {dbs : List String} (hecomm : ecomm ∈ dbs) (schemas : List String)
    {all : List String} (hall : schemas ⊆ all) (cursor : Cursor) (hready : cursor.Ready)
    (hcursor : cursor.connection.database = ecomm) {w : World} (hhas : w.server.Has ecomm) :
    ∃ cursor' server', Quiet (createSchemas schemas cursor) w (.ret cursor')
        { w with server := server' } ∧
      Server.Reach dbs all w.server server' ∧ server'.Done [ecomm] schemas := by
  induction schemas generalizing cursor w with
  | nil => exact ⟨cursor, w.server, .refl _ _, .refl, Server.done_ecomm_nil hhas⟩
  | cons schema schemas ih =>
    obtain ⟨present, hpresent⟩ := Option.isSome_iff_exists.mp hhas
    have hexec := exec_createSchema cursor hready.1 hready.2 schema (w := w)
      (by rw [hcursor]; exact hpresent)
    rw [hcursor] at hexec
    have hgrow : Server.Grow dbs all w.server (w.server.createSchema ecomm present schema) :=
      .schema hecomm (hall List.mem_cons_self) hpresent
    obtain ⟨cursor', server', hquiet, hreach, hdone⟩ := ih (List.subset_of_cons_subset hall)
      { cursor with rows := [] } hready hcursor
      (w := { w with server := w.server.createSchema ecomm present schema })
      (hgrow.extends.has hhas)
    -- the schema created first is still there after the others
    have hfirst := hreach.extends.done (Server.done_createSchema w.server present schema)
    refine ⟨cursor', server', .call rfl hexec hquiet, .head hgrow hreach, ?_⟩
    exact hfirst.cons_schema hdone

theorem quiet_createEcommSchemas {secret : Json.Value} (hsecret : Readable secret)
    {dbs : List String} (hecomm : ecomm ∈ dbs) (schemas : List String) {w : World}
    (hhas : w.server.Has ecomm) :
    ∃ server', Quiet (createEcommSchemas secret ecomm schemas) w (.ret ⟨ecomm, true, false⟩)
        { w with server := server' } ∧
      Server.Reach dbs schemas w.server server' ∧ server'.Done [ecomm] schemas := by
  obtain ⟨cursor', server', hquiet, hreach, hdone⟩ := quiet_createSchemas hecomm schemas
    (List.Subset.refl _) ⟨⟨ecomm, true, false⟩, []⟩ ⟨rfl, rfl⟩ rfl hhas
  refine ⟨server', ?_, hreach, hdone⟩
  refine .seq (quiet_connect hsecret (.inr hhas)) ?_
  refine .call rfl rfl ?_
  refine .seq hquiet ?_
  exact .call rfl rfl (.refl _ _)

/-- The test for the database and its creation leave a server that has it. -/
theorem quiet_createIfMissing (schemas : List String) {dbs : List String} {db : String} (hdb : db ∈ dbs)
    {cursor : Cursor} (hready : cursor.Ready) (w : World) :
    ∃ cursor' server', Quiet (createIfMissing cursor db) w (.ret cursor')
        { w with server := server' } ∧
      cursor'.Ready ∧ Server.Reach dbs schemas w.server server' ∧ server'.Has db := by
  unfold createIfMissing
  by_cases hhas : w.server.Has db
  · refine ⟨{ cursor with rows := [1] }, w.server, ?_, hready, .refl, hhas⟩
    refine .call rfl (exec_select cursor hready.1 db w) ?_
    rw [if_pos hhas]
    exact .call rfl rfl (.refl _ _)
  · have hnew : w.server.databases db = none := by simpa [Server.Has] using hhas
    refine ⟨{ cursor with rows := [] }, w.server.createDatabase db, ?_, hready,
      .single (.database hdb hnew), Server.has_of_eq (Server.createDatabase_self _ _)⟩
    refine .call rfl (exec_select cursor hready.1 db w) ?_
    rw [if_neg hhas]
    refine .call rfl rfl ?_
    have hexec := exec_createDatabase { cursor with rows := [] } hready.1 hready.2 hnew
    have hsteps : Steps exec (Prog.issue (.execute { cursor with rows := [] } (.createDatabase db)))
        w [_] _ _ := .call (.refl _ _)
    rw [hexec] at hsteps
    exact ⟨_, rfl, hsteps⟩

/-- The connection is bound where another name than `ecomm` needs it. -/
theorem exists_dbConn {dbConn : Option Connection} {db : String} {databases : List String}
    (hbound : dbConn.isSome = true ∨ Completes (db :: databases)) (hne : db ≠ ecomm) :
    ∃ conn, dbConn = some conn := by
  rcases hbound with h | h | h
  · exact Option.isSome_iff_exists.mp h
  · cases h
  · exact absurd (Option.some.inj h) hne

/-- The database is as requested, and `db_conn` is bound: to a connection of its own for `ecomm`, to
the one it had for any other name. -/
theorem quiet_openDbConn {secret : Json.Value} (hsecret : Readable secret) (schemas : List String)
    {dbs databases : List String} {db : String} (hdb : db ∈ dbs) {dbConn : Option Connection}
    (hbound : dbConn.isSome = true ∨ Completes (db :: databases)) {w : World}
    (hhas : w.server.Has db) :
    ∃ conn server', Quiet (openDbConn secret schemas db dbConn) w (.ret (some conn))
        { w with server := server' } ∧
      Server.Reach dbs schemas w.server server' ∧ server'.Done [db] schemas := by
  unfold openDbConn
  by_cases hecomm : db = ecomm
  · subst hecomm
    obtain ⟨server', hquiet, hreach, hdone⟩ := quiet_createEcommSchemas hsecret hdb schemas hhas
    rw [if_pos rfl]
    exact ⟨⟨ecomm, true, false⟩, server', .seq hquiet (.refl _ _), hreach, hdone⟩
  · obtain ⟨conn, rfl⟩ := exists_dbConn hbound hecomm
    rw [if_neg hecomm]
    exact ⟨conn, w.server, .refl _ _, .refl, Server.done_singleton hecomm hhas⟩

/-- One iteration: the loop over `db :: databases` gets to the loop over `databases`, with `db` as
requested and `db_conn` bound. -/
theorem quiet_iteration {secret : Json.Value} (hsecret : Readable secret) (schemas : List String)
    {dbs : List String} {db : String} (hdb : db ∈ dbs) (databases : List String)
    {dbConn : Option Connection} (hbound : dbConn.isSome = true ∨ Completes (db :: databases))
    {cursor : Cursor} (hready : cursor.Ready) (w : World) :
    ∃ cursor' conn server', Quiet (createDatabases secret schemas (db :: databases) cursor dbConn) w
        (createDatabases secret schemas databases cursor' (some conn))
        { w with server := server' } ∧
      cursor'.Ready ∧ Server.Reach dbs schemas w.server server' ∧ server'.Done [db] schemas := by
  obtain ⟨cursor', server₁, hquiet₁, hready', hreach₁, hhas⟩ :=
    quiet_createIfMissing schemas hdb hready w
  obtain ⟨conn, server₂, hquiet₂, hreach₂, hdone⟩ :=
    quiet_openDbConn hsecret schemas hdb hbound (w := { w with server := server₁ }) hhas
  refine ⟨cursor', { conn with closed := true }, server₂, ?_, hready', hreach₁.trans hreach₂, hdone⟩
  refine .seq hquiet₁ (.seq hquiet₂ ?_)
  exact .seq (a := some { conn with closed := true }) (.call rfl rfl (.refl _ _)) (.refl _ _)

/-- The loop over the databases, where `db_conn` is bound by the time it is used. -/
theorem quiet_createDatabases {secret : Json.Value} (hsecret : Readable secret)
    (schemas : List String) {dbs : List String} (databases : List String) (hsub : databases ⊆ dbs)
    (dbConn : Option Connection) (hbound : dbConn.isSome = true ∨ Completes databases)
    (cursor : Cursor) (hready : cursor.Ready) (w : World) :
    ∃ cursor' server', Quiet (createDatabases secret schemas databases cursor dbConn) w
        (.ret cursor') { w with server := server' } ∧
      Server.Reach dbs schemas w.server server' ∧ server'.Done databases schemas := by
  induction databases generalizing dbConn cursor w with
  | nil => exact ⟨cursor, w.server, .refl _ _, .refl, Server.done_nil _ _⟩
  | cons db databases ih =>
    have hdb : db ∈ dbs := hsub List.mem_cons_self
    have hrest : databases ⊆ dbs := List.subset_of_cons_subset hsub
    obtain ⟨cursor₁, conn, server₁, hquiet₁, hready₁, hreach₁, hdone₁⟩ :=
      quiet_iteration hsecret schemas hdb databases hbound hready w
    obtain ⟨cursor', server', hquiet, hreach, hdone⟩ :=
      ih hrest (some conn) (.inl rfl) cursor₁ hready₁ { w with server := server₁ }
    refine ⟨cursor', server', hquiet₁.trans hquiet, hreach₁.trans hreach, ?_⟩
    exact (hreach.extends.done hdone₁).append hdone

/-- The first iteration on another name than `ecomm` creates it and finds `db_conn` unbound. -/
theorem quiet_createDatabases_unbound (secret : Json.Value) (schemas : List String) {db : String}
    (hne : db ≠ ecomm) (databases : List String) (cursor : Cursor) (hready : cursor.Ready)
    (w : World) :
    ∃ server', Quiet (createDatabases secret schemas (db :: databases) cursor none) w
        (.raise (.unboundLocalError "db_conn")) { w with server := server' } ∧
      Server.Reach [db] schemas w.server server' ∧ server'.Done [db] schemas := by
  obtain ⟨cursor₁, server₁, hquiet₁, -, hreach₁, hhas⟩ :=
    quiet_createIfMissing schemas (List.mem_singleton.mpr rfl) hready w
  refine ⟨server₁, ?_, hreach₁, Server.done_singleton hne hhas⟩
  refine .seq hquiet₁ ?_
  rw [openDbConn, if_neg hne]
  exact .refl _ _

/-! ### The whole invocation -/

theorem body_of {request : RequestType} (hrequest : request ≠ .Delete) (secretArn : String)
    (databases schemas : List String) :
    body (.of request secretArn databases schemas) = setUp secretArn databases schemas := by
  cases request with
  | Create => rfl
  | Update => rfl
  | Delete => exact absurd rfl hrequest

/-- The calls before the loop: the secret and the admin connection. -/
theorem quiet_setUp (w : World) (secretArn : String) (databases schemas : List String) :
    ∃ secret, Readable secret ∧ ∀ {q : Handler Unit} {w' : World},
      Quiet (do
        let adminCursor ←
          createDatabases secret schemas databases ⟨⟨"postgres", true, false⟩, []⟩ none
        issue (.closeCursor adminCursor)
        issue (.closeConnection ⟨"postgres", true, false⟩)
        issue (.send .SUCCESS [])) w q w' →
      Quiet (setUp secretArn databases schemas) w q w' := by
  obtain ⟨secret, hloads, hsecret⟩ := w.vault.subscript_ok
  refine ⟨secret, hsecret, fun h => ?_⟩
  have hjson : exec (.jsonLoads w.vault.secretString) w = (.ok secret, w) := by
    simp only [exec, hloads]
  refine .call rfl rfl ?_
  refine .call rfl rfl ?_
  refine .seq (.refl _ _) ?_
  refine .call rfl hjson ?_
  refine .seq (quiet_connect hsecret (.inl rfl)) ?_
  exact .call rfl rfl h

/-- The response to a set-up event on a healthy server. -/
def answer (databases : List String) : Status :=
  if Completes databases then .SUCCESS else .FAILED

theorem steps_send {status : Status} {data : List (String × String)} (w : World) :
    Steps exec (issue (.send status data)) w [.send status data] (.ret ()) w :=
  .call (.refl _ _)

/-- One fault-free invocation for a set-up: one response, and the server set up as far as the
invocation gets. -/
theorem steps_handler (w : World) {request : RequestType} (hrequest : request ≠ .Delete)
    (secretArn : String) (databases schemas : List String) :
    ∃ calls, responses calls = [answer databases] ∧
      Steps exec (handler (.of request secretArn databases schemas)) w calls (.ret ())
        { w with server := w.server.provision (reached databases) schemas } := by
  obtain ⟨secret, hsecret, hsetUp⟩ := quiet_setUp w secretArn databases schemas
  unfold handler answer
  rw [body_of hrequest]
  by_cases hcompletes : Completes databases
  · obtain ⟨cursor', server', hquiet, hreach, hdone⟩ :=
      quiet_createDatabases hsecret schemas databases (List.Subset.refl _) none
        (.inr hcompletes) ⟨⟨"postgres", true, false⟩, []⟩ ⟨rfl, rfl⟩ w
    obtain ⟨calls, hcalls, hsteps⟩ := hsetUp (q := issue (.send .SUCCESS []))
      (.seq hquiet (.call rfl rfl (.call rfl rfl (.refl _ _))))
    refine ⟨calls ++ [.send .SUCCESS []], ?_, ?_⟩
    · rw [responses_append, hcalls, if_pos hcompletes]
      rfl
    · rw [reached_of_completes hcompletes, ← Server.eq_provision_of_reach hreach hdone]
      exact (hsteps.trans (steps_send _)).tryCatch _
  · obtain ⟨db, rest, rfl⟩ : ∃ db rest, databases = db :: rest := by
      cases databases with
      | nil => exact absurd (.inl rfl) hcompletes
      | cons db rest => exact ⟨db, rest, rfl⟩
    have hne : db ≠ ecomm := fun h => hcompletes (.inr (by rw [h]; rfl))
    have hreached : reached (db :: rest) = [db] := by simp [reached, hne]
    obtain ⟨server', hquiet, hreach, hdone⟩ :=
      quiet_createDatabases_unbound secret schemas hne rest
        ⟨⟨"postgres", true, false⟩, []⟩ ⟨rfl, rfl⟩ w
    obtain ⟨calls, hcalls, hsteps⟩ := hsetUp (.seq_raise hquiet)
    refine ⟨calls ++ [.send .FAILED [("Message", (Exn.unboundLocalError "db_conn").str)]], ?_, ?_⟩
    · rw [responses_append, hcalls, if_neg hcompletes]
      rfl
    · rw [hreached, ← Server.eq_provision_of_reach hreach hdone]
      exact (hsteps.tryCatch _).trans (steps_send _)

/-- The outcome of a fault-free invocation for a set-up. -/
theorem eval_handler (w : World) {request : RequestType} (hrequest : request ≠ .Delete)
    (secretArn : String) (databases schemas : List String) :
    let o := (handler (.of request secretArn databases schemas)).eval exec w
    o.result = .ok () ∧ responses o.calls = [answer databases] ∧
      o.state = { w with server := w.server.provision (reached databases) schemas } := by
  obtain ⟨calls, hcalls, hsteps⟩ := steps_handler w hrequest secretArn databases schemas
  rw [eval_of_steps hsteps]
  exact ⟨rfl, by rw [eval_ret, List.append_nil, hcalls], rfl⟩

/-! ### The full set-up -/

/-- One fault-free invocation sends `SUCCESS` and nothing else, and leaves the server with exactly
the requested databases and schemas added. -/
def SetsUp (w : World) (request : RequestType) (secretArn : String)
    (databases schemas : List String) : Prop :=
  let o := (handler (.of request secretArn databases schemas)).eval exec w
  responses o.calls = [.SUCCESS] ∧
    o.state = { w with server := w.server.provision databases schemas }

/-- The full set-up happens exactly when the list is empty or starts with `ecomm`. -/
theorem setsUp_iff_completes (w : World) (request : RequestType) (hrequest : request ≠ .Delete)
    (secretArn : String) (databases schemas : List String) :
    SetsUp w request secretArn databases schemas ↔
      databases = [] ∨ databases.head? = some ecomm := by
  obtain ⟨-, hresponses, hstate⟩ := eval_handler w hrequest secretArn databases schemas
  constructor
  · rintro ⟨hsuccess, -⟩
    rw [hresponses] at hsuccess
    by_contra hcompletes
    simp [answer, Completes, hcompletes] at hsuccess
  · intro (hcompletes : Completes databases)
    have hreached := reached_of_completes hcompletes
    refine ⟨?_, by rw [hstate, hreached]⟩
    rw [hresponses, answer, if_pos hcompletes]

/-- A cluster as it is created: the maintenance and the default database, and the generated secret. -/
def freshWorld : World where
  server :=
    { databases := fun db =>
        if db = "postgres" ∨ db = "prod-monolithservices" then some {"public"} else none
      template := {"public"} }
  vault :=
    { secretString :=
        "\x7b\"host\": \"db\", \"port\": 5432, \"username\": \"postgres\", \"password\": \"pw\"\x7d"
      complete := by decide +kernel }

theorem setsUp_iff_completes_ecomm :
    RequestType.Create ≠ .Delete ∧
      (SetsUp freshWorld .Create "secret" ["ecomm"] ["web"] ↔
        ["ecomm"] = [] ∨ ["ecomm"].head? = some ecomm) :=
  ⟨by decide, setsUp_iff_completes freshWorld .Create (by decide) "secret" ["ecomm"] ["web"]⟩

/-- With another name in front of `ecomm` the set-up fails. -/
theorem not_setsUp_orders_ecomm :
    ¬ SetsUp freshWorld .Create "secret" ["orders", "ecomm"] ["web"] := by
  rintro ⟨hresponses, -⟩
  exact absurd hresponses (by decide +kernel)

end ModulithInfra.Postgres
