import ModulithInfra.Postgres.Resume
import Mathlib.Data.Fintype.EquivFin

/-!
# Duplicate deliveries

Copies of one event are handled at once, their calls interleaved in any order, with no fault other
than what the SQL statements themselves dictate. Every copy reports `SUCCESS` and the server ends as
after a single one exactly when there is only one copy or no database is missing to begin with
(`duplicatesHarmless_iff`).

If nothing is missing no copy executes `CREATE DATABASE`, and each runs through whatever the others
do: `Calm` follows the loops under the rely that the server only grows. If a database is missing,
one copy can be stopped between its `SELECT` and its `CREATE DATABASE` while another runs to its
end (`race`).
-/

namespace ModulithInfra.Postgres

open Calls

/-! ### Copies for which nothing is missing -/

/-- No call faults, the others only extend the server, and each call is one statement of the set-up. -/
def calm (v : Invocation) : Contract Call Exn World where
  faults f := f = .none
  rely := World.Extends
  guar _ _ w w' := w'.vault = w.vault ∧ Server.Grow v.databases v.schemas w.server w'.server
  rely_refl := World.Extends.refl
  rely_trans := World.Extends.trans

/-- The program returns whatever the others do, with `Q` and without having sent a response. -/
def Calm {α : Type} (v : Invocation) (p : Handler α) (w : World) (Q : α → World → Prop) : Prop :=
  ∀ tr, Meets exec (calm v) (fun r w' tr' => ∃ a, r = .ok a ∧ Q a w' ∧
    responses (delivered tr') = responses (delivered tr)) p w tr

namespace Calm

variable {α β : Type} {v : Invocation} {p : Handler α} {w : World} {Q Q' : α → World → Prop}

theorem ret {a : α} (h : Q a w) : Calm v (.ret a) w Q :=
  fun _ => ⟨a, rfl, h, rfl⟩

theorem mono (hQ : ∀ a w, Q a w → Q' a w) (h : Calm v p w Q) : Calm v p w Q' :=
  fun tr => (h tr).mono fun _ _ _ ⟨a, ha, hq, htr⟩ => ⟨a, ha, hQ _ _ hq, htr⟩

theorem seq {f : α → Handler β} {Q : β → World → Prop}
    (h : Calm v p w fun a w' => Calm v (f a) w' Q) : Calm v (p >>= f) w Q := by
  intro tr
  refine Meets.bind ((h tr).mono ?_)
  rintro _ w' tr' ⟨a, rfl, hf, htr⟩
  refine (hf tr').mono ?_
  rintro _ w'' tr'' ⟨b, hb, hq, htr'⟩
  exact ⟨b, hb, hq, htr'.trans htr⟩

theorem keep {K : Server → Prop} (hK : ∀ s s', s.Extends s' → K s → K s') (hw : K w.server)
    (h : Calm v p w Q) : Calm v p w fun a w' => Q a w' ∧ K w'.server := by
  intro tr
  have hrely : ∀ w w', (calm v).rely w w' → K w.server → K w'.server :=
    fun _ _ h => hK _ _ h.2
  have hguar : ∀ call f w w', (calm v).guar call f w w' → K w.server → K w'.server :=
    fun _ _ _ _ h => hK _ _ h.2.extends
  refine ((h tr).keep hrely hguar hw).mono ?_
  rintro _ w' tr' ⟨⟨a, ha, hq, htr⟩, hk⟩
  exact ⟨a, ha, ⟨hq, hk⟩, htr⟩

/-- A call that answers in every extension of the server. -/
theorem call {c : Call} {Q : c.Answer → World → Prop} (hc : responses [c] = [])
    (h : ∀ w', w'.vault = w.vault → w.server.Extends w'.server →
      ∃ a server', exec c w' = (.ok a, { w' with server := server' }) ∧
        Server.Grow v.databases v.schemas w'.server server' ∧ Q a { w' with server := server' }) :
    Calm v (issue c) w Q := by
  intro tr
  refine Meets.issue ?_
  rintro w' hrely _ rfl
  obtain ⟨a, server', hexec, hgrow, hq⟩ := h w' hrely.1 hrely.2
  rw [perform_none, hexec]
  refine ⟨⟨rfl, hgrow⟩, a, rfl, hq, ?_⟩
  rw [delivered_append, responses_append]
  show responses (delivered tr) ++ responses [c] = _
  rw [hc, List.append_nil]

/-- A call that answers and changes nothing. -/
theorem idle {c : Call} {Q : c.Answer → World → Prop} (hc : responses [c] = [])
    (h : ∀ w', w'.vault = w.vault → w.server.Extends w'.server →
      ∃ a, exec c w' = (.ok a, w') ∧ Q a w') : Calm v (issue c) w Q := by
  refine call hc fun w' hvault hext => ?_
  obtain ⟨a, hexec, hq⟩ := h w' hvault hext
  exact ⟨a, w'.server, hexec, .refl, hq⟩

end Calm

section CalmLoops

variable {v : Invocation}

theorem calm_connect {secret : Json.Value} (hsecret : Readable secret) {database : String}
    {w : World} (hdb : database = "postgres" ∨ w.server.Has database) :
    Calm v (connect secret database) w fun conn _ => conn = ⟨database, true, false⟩ := by
  obtain ⟨host, port, user, password, hconnect⟩ := connect_of_readable hsecret database
  rw [hconnect]
  refine .seq (.idle rfl fun w' _ hext => ⟨_, exec_connect (hdb.imp_right hext.has), ?_⟩)
  exact .seq (.idle rfl fun _ _ _ => ⟨(), rfl, .ret rfl⟩)

theorem calm_createSchema (hecomm : ecomm ∈ v.databases) {schema : String}
    (hschema : schema ∈ v.schemas) (cursor : Cursor) (hready : cursor.Ready)
    (hcursor : cursor.connection.database = ecomm) {w : World} (hhas : w.server.Has ecomm) :
    Calm v (issue (.execute cursor (.createSchemaIfNotExists schema))) w
      fun cursor' w' => cursor' = { cursor with rows := [] } ∧ w'.server.Done [ecomm] [schema] := by
  refine .call rfl fun w' _ hext => ?_
  obtain ⟨present, hpresent⟩ := Option.isSome_iff_exists.mp (hext.has hhas)
  have hexec := exec_createSchema cursor hready.1 hready.2 schema (w := w')
    (by rw [hcursor]; exact hpresent)
  rw [hcursor] at hexec
  refine ⟨_, _, hexec, .schema hecomm hschema hpresent, rfl, ?_⟩
  exact Server.done_createSchema w'.server present schema

theorem calm_createSchemas (hecomm : ecomm ∈ v.databases) (schemas : List String)
    (hschemas : schemas ⊆ v.schemas) (cursor : Cursor) (hready : cursor.Ready)
    (hcursor : cursor.connection.database = ecomm) {w : World} (hhas : w.server.Has ecomm) :
    Calm v (createSchemas schemas cursor) w fun _ w' => w'.server.Done [ecomm] schemas := by
  induction schemas generalizing cursor w with
  | nil => exact .ret (Server.done_ecomm_nil hhas)
  | cons schema schemas ih =>
    have hfirst := calm_createSchema hecomm (hschemas List.mem_cons_self) cursor hready hcursor hhas
    refine .seq (hfirst.mono ?_)
    rintro _ w' ⟨rfl, hdone⟩
    have hrest := ih (List.subset_of_cons_subset hschemas) { cursor with rows := [] } hready hcursor
      (hdone.1 ecomm (by simp))
    refine (hrest.keep (fun _ _ hext => hext.done) hdone).mono fun _ w'' h => ?_
    exact h.2.cons_schema h.1

theorem calm_createEcommSchemas {secret : Json.Value} (hsecret : Readable secret)
    (hecomm : ecomm ∈ v.databases) {w : World} (hhas : w.server.Has ecomm) :
    Calm v (createEcommSchemas secret ecomm v.schemas) w
      fun _ w' => w'.server.Done [ecomm] v.schemas := by
  unfold createEcommSchemas
  refine .seq (((calm_connect hsecret (.inr hhas)).keep (fun _ _ hext => hext.has) hhas).mono ?_)
  rintro _ w₁ ⟨rfl, hhas₁⟩
  refine .seq (.idle rfl fun w₂ _ hext => ⟨_, rfl, ?_⟩)
  refine .seq ((calm_createSchemas hecomm v.schemas (List.Subset.refl _) _ ⟨rfl, rfl⟩ rfl
    (hext.has hhas₁)).mono fun cursor w₃ hdone => ?_)
  refine .seq (.idle rfl fun w₄ _ hext => ⟨(), rfl, ?_⟩)
  exact .ret (hext.done hdone)

/-- A database that is there is found, and not created. -/
theorem calm_createIfMissing {db : String} (cursor : Cursor) (hready : cursor.Ready) {w : World}
    (hhas : w.server.Has db) :
    Calm v (createIfMissing cursor db) w fun cursor' _ => cursor'.Ready := by
  unfold createIfMissing
  refine .seq (.idle rfl fun w₁ _ hext => ⟨_, exec_select cursor hready.1 db w₁, ?_⟩)
  rw [if_pos (hext.has hhas)]
  exact .seq (.idle rfl fun w₂ _ _ => ⟨some 1, rfl, .ret hready⟩)

theorem calm_openDbConn {secret : Json.Value} (hsecret : Readable secret) {db : String}
    (hdb : db ∈ v.databases) {databases : List String} {dbConn : Option Connection}
    (hbound : dbConn.isSome = true ∨ Completes (db :: databases)) {w : World}
    (hhas : w.server.Has db) :
    Calm v (openDbConn secret v.schemas db dbConn) w fun dbConn' w' =>
      (∃ conn, dbConn' = some conn) ∧ w'.server.Done [db] v.schemas := by
  unfold openDbConn
  by_cases hecomm : db = ecomm
  · subst hecomm
    rw [if_pos rfl]
    refine .seq ((calm_createEcommSchemas hsecret hdb hhas).mono fun conn w₂ hdone => ?_)
    exact .ret ⟨⟨conn, rfl⟩, hdone⟩
  · obtain ⟨conn, rfl⟩ := exists_dbConn hbound hecomm
    rw [if_neg hecomm]
    exact .ret ⟨⟨conn, rfl⟩, Server.done_singleton hecomm hhas⟩

theorem calm_createDatabases {secret : Json.Value} (hsecret : Readable secret)
    (databases : List String) (hsub : databases ⊆ v.databases) (dbConn : Option Connection)
    (hbound : dbConn.isSome = true ∨ Completes databases) (cursor : Cursor) (hready : cursor.Ready)
    {w : World} (hhas : ∀ db ∈ databases, w.server.Has db) :
    Calm v (createDatabases secret v.schemas databases cursor dbConn) w
      fun _ w' => w'.server.Done databases v.schemas := by
  induction databases generalizing dbConn cursor w with
  | nil => exact .ret (Server.done_nil _ _)
  | cons db databases ih =>
    have hkeep : ∀ s s' : Server, s.Extends s' → (∀ db' ∈ db :: databases, s.Has db') →
        ∀ db' ∈ db :: databases, s'.Has db' :=
      fun _ _ hext h db' hdb' => hext.has (h db' hdb')
    refine .seq (((calm_createIfMissing cursor hready (hhas db (by simp))).keep hkeep hhas).mono ?_)
    rintro cursor₁ w₁ ⟨hready₁, hhas₁⟩
    have hopen := calm_openDbConn hsecret (hsub List.mem_cons_self) hbound (hhas₁ db (by simp))
    refine .seq ((hopen.keep hkeep hhas₁).mono ?_)
    rintro _ w₂ ⟨⟨⟨conn, rfl⟩, hdone⟩, hhas₂⟩
    refine .seq (.seq (.idle rfl fun w₃ _ hext₃ => ⟨(), rfl, .ret ?_⟩))
    have hrest := ih (List.subset_of_cons_subset hsub) (some { conn with closed := true }) (.inl rfl)
      cursor₁ hready₁ fun db' hdb' => hext₃.has (hhas₂ db' (by simp [hdb']))
    refine (hrest.keep (fun _ _ hext => hext.done) (hext₃.done hdone)).mono fun _ w₄ h₄ => ?_
    exact h₄.2.append h₄.1

end CalmLoops

/-- The program returns, has sent `SUCCESS` and nothing else, and its set-up is done. -/
def Reports (v : Invocation) (p : Handler Unit) (w : World) : Prop :=
  ∀ tr, Meets exec (calm v) (fun r w' tr' => r = .ok () ∧
    responses (delivered tr') = responses (delivered tr) ++ [.SUCCESS] ∧
    w'.server.Done v.databases v.schemas) p w tr

theorem Calm.reports {α : Type} {v : Invocation} {p : Handler α} {f : α → Handler Unit} {w : World}
    (h : Calm v p w fun a w' => Reports v (f a) w') : Reports v (p >>= f) w := by
  intro tr
  refine Meets.bind ((h tr).mono ?_)
  rintro _ w' tr' ⟨a, rfl, hf, htr⟩
  refine (hf tr').mono ?_
  rintro r w'' tr'' ⟨hr, htr', hdone⟩
  exact ⟨hr, by rw [htr', htr], hdone⟩

theorem reports_send {v : Invocation} {w : World} (hdone : w.server.Done v.databases v.schemas) :
    Reports v (issue (.send .SUCCESS [])) w := by
  intro tr
  refine Meets.issue ?_
  rintro w' hrely _ rfl
  refine ⟨⟨rfl, .refl⟩, rfl, ?_, hrely.2.done hdone⟩
  rw [delivered_append, responses_append]
  rfl

/-- Where no database is missing a copy reports `SUCCESS`, whatever the others do. -/
theorem reports_handler {v : Invocation} (hrequest : v.request ≠ .Delete)
    (hcompletes : Completes v.databases) {w : World} (hhas : ∀ db ∈ v.databases, w.server.Has db) :
    Reports v (handler v.event) w := by
  have hsetUp : Reports v (setUp v.secretArn v.databases v.schemas) w := by
    obtain ⟨secret, hloads, hsecret⟩ := w.vault.subscript_ok
    refine Calm.reports (.idle rfl fun w₁ hvault₁ hext₁ => ⟨(), rfl, ?_⟩)
    refine Calm.reports (.idle rfl fun w₂ hvault₂ hext₂ => ⟨_, rfl, ?_⟩)
    refine Calm.reports (.ret ?_)
    refine Calm.reports (.idle rfl fun w₃ _ hext₃ => ⟨secret, ?_, ?_⟩)
    · rw [hvault₂, hvault₁]
      simp only [exec, hloads]
    have hext : w.server.Extends w₃.server := (hext₁.trans hext₂).trans hext₃
    have hkeep : ∀ s s' : Server, s.Extends s' → (∀ db ∈ v.databases, s.Has db) →
        ∀ db ∈ v.databases, s'.Has db :=
      fun _ _ hext h db hdb => hext.has (h db hdb)
    refine Calm.reports (((calm_connect hsecret (.inl rfl)).keep hkeep
      (hkeep _ _ hext hhas)).mono ?_)
    rintro _ w₄ ⟨rfl, hhas₄⟩
    refine Calm.reports (.idle rfl fun w₅ _ hext₅ => ⟨_, rfl, ?_⟩)
    refine Calm.reports ((calm_createDatabases hsecret v.databases (List.Subset.refl _) none
      (.inr hcompletes) _ ⟨rfl, rfl⟩ (hkeep _ _ hext₅ hhas₄)).mono fun _ w₆ hdone => ?_)
    refine Calm.reports (.idle rfl fun w₇ _ hext₇ => ⟨(), rfl, ?_⟩)
    refine Calm.reports (.idle rfl fun w₈ _ hext₈ => ⟨(), rfl, ?_⟩)
    exact reports_send (hext₈.done (hext₇.done hdone))
  intro tr
  have hbody : body v.event = setUp v.secretArn v.databases v.schemas := body_of hrequest _ _ _
  refine Meets.tryCatch ?_
  rw [hbody]
  refine (hsetUp tr).mono ?_
  rintro _ w' tr' ⟨rfl, htr, hdone⟩
  exact ⟨rfl, htr, hdone⟩

/-! ### A copy stopped before its `CREATE DATABASE` -/

/-- Alone and without a response the program gets to the `CREATE DATABASE` of one of `dbs`, whose
exception it raises. -/
def Pending {α : Type} (dbs : List String) (p : Handler α) (w : World) : Prop :=
  ∃ db ∈ dbs, ∃ (cursor : Cursor) (next : Except Exn Cursor → Handler α) (server' : Server),
    cursor.Ready ∧ (∀ e, next (.error e) = .raise e) ∧
      Quiet p w (.call (.execute cursor (.createDatabase db)) next) { w with server := server' }

namespace Pending

variable {α β : Type} {dbs dbs' : List String} {w : World}

theorem mono (hdbs : dbs ⊆ dbs') {p : Handler α} (h : Pending dbs p w) : Pending dbs' p w := by
  obtain ⟨db, hdb, rest⟩ := h
  exact ⟨db, hdbs hdb, rest⟩

theorem bind {p : Handler α} (h : Pending dbs p w) (f : α → Handler β) :
    Pending dbs (p >>= f) w := by
  obtain ⟨db, hdb, cursor, next, server', hready, hraise, calls, hcalls, hsteps⟩ := h
  refine ⟨db, hdb, cursor, fun r => (next r).bind f, server', hready, fun e => ?_, calls, hcalls,
    hsteps.bind f⟩
  show (next (.error e)).bind f = _
  rw [hraise, Prog.raise_bind]

theorem after {p q : Handler α} {server : Server} (h : Quiet p w q { w with server := server })
    (h' : Pending dbs q { w with server := server }) : Pending dbs p w := by
  obtain ⟨db, hdb, cursor, next, server', hready, hraise, hquiet⟩ := h'
  exact ⟨db, hdb, cursor, next, server', hready, hraise, h.trans hquiet⟩

end Pending

/-- A database that is missing is about to be created after its `SELECT`. -/
theorem pending_createIfMissing {db : String} (cursor : Cursor) (hready : cursor.Ready) {w : World}
    (hmissing : ¬ w.server.Has db) : Pending [db] (createIfMissing cursor db) w := by
  have hquiet : Quiet (createIfMissing cursor db) w
      (issue (.execute { cursor with rows := [] } (.createDatabase db))) w := by
    unfold createIfMissing
    refine .call rfl (exec_select cursor hready.1 db w) ?_
    rw [if_neg hmissing]
    exact .call rfl rfl (.refl _ _)
  exact ⟨db, by simp, { cursor with rows := [] }, _, w.server, hready, fun _ => rfl, hquiet⟩

/-- The loop gets to the first database that is missing. -/
theorem pending_createDatabases {secret : Json.Value} (hsecret : Readable secret)
    (schemas : List String) (databases : List String) (dbConn : Option Connection)
    (hbound : dbConn.isSome = true ∨ Completes databases) (cursor : Cursor) (hready : cursor.Ready)
    {w : World} (hmissing : ∃ db ∈ databases, ¬ w.server.Has db) :
    Pending databases (createDatabases secret schemas databases cursor dbConn) w := by
  induction databases generalizing dbConn cursor w with
  | nil => simp at hmissing
  | cons db databases ih =>
    by_cases hhas : w.server.Has db
    · obtain ⟨late, hlate, hnot⟩ := hmissing
      have hne : late ≠ db := by
        rintro rfl
        exact hnot hhas
      have hrest : late ∈ databases := (List.mem_cons.mp hlate).resolve_left hne
      have hstill : ∀ server, Server.Reach [db] schemas w.server server → ¬ server.Has late := by
        intro server hreach h
        rcases hreach.has_or_mem h with h | h
        · exact hnot h
        · exact hne (List.mem_singleton.mp h)
      obtain ⟨cursor₁, conn, server₁, hquiet, hready₁, hreach, -⟩ :=
        quiet_iteration hsecret schemas (List.mem_singleton.mpr rfl) databases hbound hready w
      have hloop := ih (some conn) (.inl rfl) cursor₁ hready₁ (w := { w with server := server₁ })
        ⟨late, hrest, hstill server₁ hreach⟩
      exact (Pending.after hquiet hloop).mono (List.subset_cons_self _ _)
    · exact ((pending_createIfMissing cursor hready hhas).bind _).mono (by simp)

/-- An invocation gets to the `CREATE DATABASE` of a requested database; if that raises it sends
`FAILED`. -/
theorem pending_handler {v : Invocation} (hrequest : v.request ≠ .Delete)
    (hcompletes : Completes v.databases) {w : World}
    (hmissing : ∃ db ∈ v.databases, ¬ w.server.Has db) :
    ∃ db ∈ v.databases, ∃ (cursor : Cursor) (next : Except Exn Cursor → Handler Unit) (w' : World)
      (calls : List Call), cursor.Ready ∧
        (∀ e, next (.error e) = issue (.send .FAILED [("Message", e.str)])) ∧
        Steps exec (handler v.event) w calls
          (.call (.execute cursor (.createDatabase db)) next) w' := by
  obtain ⟨secret, hsecret, hsetUp⟩ := quiet_setUp w v.secretArn v.databases v.schemas
  obtain ⟨db, hdb, cursor, next, server', hready, hraise, hquiet⟩ :=
    (pending_createDatabases hsecret v.schemas v.databases none (.inr hcompletes)
      ⟨⟨"postgres", true, false⟩, []⟩ ⟨rfl, rfl⟩ hmissing).bind _
  obtain ⟨calls, -, hsteps⟩ := hsetUp hquiet
  have hbody : body v.event = setUp v.secretArn v.databases v.schemas := body_of hrequest _ _ _
  have hhandler := hsteps.tryCatch fun e => issue (.send .FAILED [("Message", e.str)])
  rw [← hbody] at hhandler
  refine ⟨db, hdb, cursor, _, _, calls, hready, fun e => ?_, hhandler⟩
  show (next (.error e)).tryCatch _ = _
  rw [hraise, Prog.raise_tryCatch]

/-! ### Runs of copies -/

section Copies

variable {ι : Type} [DecidableEq ι]

omit [DecidableEq ι] in
theorem compatible_calm (v : Invocation) : Compatible fun _ : ι => calm v :=
  fun _ _ _ _ _ _ _ h => ⟨h.1, h.2.extends⟩

/-- Where no database is missing every finished copy has sent `SUCCESS` and nothing else. -/
theorem finished_reports {v : Invocation} (hrequest : v.request ≠ .Delete)
    (hcompletes : Completes v.databases) {w : World} (hhas : ∀ db ∈ v.databases, w.server.Has db)
    (s : List ι) (hfinished : ((launch (fun _ => v) w).run exec (s.map (·, .call .none))).Finished)
    (i : ι) :
    let p := (launch (fun _ => v) w).run exec (s.map (·, .call .none))
    responses (delivered (p.thread i).trace) = [.SUCCESS] ∧
      p.state.server.Done v.databases v.schemas := by
  intro p
  have hallowed : Allowed (fun _ : ι => calm v) (s.map (·, .call .none)) := by
    intro j f hj
    obtain ⟨k, -, hk⟩ := List.mem_map.mp hj
    cases hk
    rfl
  have hstart : (launch (fun _ : ι => v) w).Meets exec (fun _ => calm v) fun _ r w' tr' =>
      r = .ok () ∧ responses (delivered tr') = [.SUCCESS] ∧
        w'.server.Done v.databases v.schemas := by
    intro j prog hprog
    obtain rfl := Option.some.inj hprog
    exact reports_handler hrequest hcompletes hhas []
  have hmeets := hstart.run (compatible_calm v)
    (fun _ _ _ _ _ hrely h => ⟨h.1, h.2.1, hrely.2.done h.2.2⟩) hallowed
  obtain ⟨prog, hprog⟩ := Option.isSome_iff_exists.mp
    (Pool.prog_isSome_run exec (launch (fun _ : ι => v) w) s (i := i) rfl)
  have hend := hmeets i prog hprog
  have hfin := hfinished i
  rw [Thread.finished, hprog] at hfin
  cases prog with
  | ret a => exact hend.2
  | raise e => exact hend.2
  | call op next => simp [Prog.finished] at hfin

/-- A `CREATE DATABASE` that comes too late: the invocation sends `FAILED`. -/
theorem steps_too_late {db : String} {cursor : Cursor} (hready : cursor.Ready)
    {next : Except Exn Cursor → Handler Unit}
    (hfail : ∀ e, next (.error e) = issue (.send .FAILED [("Message", e.str)])) {w : World}
    (hhas : w.server.Has db) :
    ∃ calls, .FAILED ∈ responses calls ∧
      Steps exec (.call (.execute cursor (.createDatabase db)) next) w calls (.ret ()) w := by
  obtain ⟨e, hexec⟩ : ∃ e, exec (.execute cursor (.createDatabase db)) w = (.error e, w) :=
    ⟨_, exec_createDatabase_exists cursor hready.1 hready.2 hhas⟩
  refine ⟨[.execute cursor (.createDatabase db), .send .FAILED [("Message", e.str)]],
    by simp [responses], .call ?_⟩
  rw [hexec, hfail]
  exact steps_send w

/-- If a database is missing, two copies can overlap so that one sends `FAILED`: it is stopped before
a `CREATE DATABASE`, and the other runs to its end meanwhile. -/
theorem race [Finite ι] {v : Invocation} (hrequest : v.request ≠ .Delete)
    (hcompletes : Completes v.databases) {w : World}
    (hmissing : ∃ db ∈ v.databases, ¬ w.server.Has db) {i j : ι} (hij : i ≠ j) :
    ∃ s : List ι, ((launch (fun _ => v) w).run exec (s.map (·, .call .none))).Finished ∧
      Sent ((launch (fun _ => v) w).run exec (s.map (·, .call .none))) j .FAILED := by
  obtain ⟨db, hdb, cursor, next, w₁, calls₁, hready, hfail, hsteps₁⟩ :=
    pending_handler hrequest hcompletes hmissing
  obtain ⟨s₁, hj₁, hothers₁, hstate₁⟩ :=
    Pool.exists_alone exec (p := launch (fun _ : ι => v) w) (i := j) rfl hsteps₁
  generalize hp₁ : (launch (fun _ : ι => v) w).run exec (s₁.map (·, .call .none)) = p₁ at *
  obtain ⟨calls₂, -, hsteps₂⟩ :=
    steps_handler p₁.state hrequest v.secretArn v.databases v.schemas
  have hi₁ : (p₁.thread i).prog = some (handler v.event) := by rw [hothers₁ i hij]; rfl
  obtain ⟨s₂, -, hothers₂, hstate₂⟩ := Pool.exists_alone exec hi₁ hsteps₂
  generalize hp₂ : p₁.run exec (s₂.map (·, .call .none)) = p₂ at *
  have hhas : p₂.state.server.Has db := by
    rw [hstate₂, reached_of_completes hcompletes]
    exact (Server.done_provision _ _ _).1 db hdb
  obtain ⟨calls₃, hcalls₃, hsteps₃⟩ := steps_too_late hready hfail hhas
  have hj₂ : (p₂.thread j).prog =
      some (.call (.execute cursor (.createDatabase db)) next) := by
    rw [hothers₂ j (Ne.symm hij), hj₁]
  obtain ⟨s₃, hj₃, -, -⟩ := Pool.exists_alone exec hj₂ hsteps₃
  generalize hp₃ : p₂.run exec (s₃.map (·, .call .none)) = p₃ at *
  obtain ⟨s₄, hfinished⟩ := Pool.exists_finished exec p₃
  have hrun : (launch (fun _ : ι => v) w).run exec
      ((s₁ ++ s₂ ++ s₃ ++ s₄).map (·, .call .none)) = p₃.run exec (s₄.map (·, .call .none)) := by
    simp only [List.map_append, Pool.run_append, hp₁, hp₂, hp₃]
  refine ⟨s₁ ++ s₂ ++ s₃ ++ s₄, by rw [hrun]; exact hfinished, ?_⟩
  have hsent : Sent p₃ j .FAILED := by
    rw [Sent, hj₃, delivered_append, responses_append, delivered_map_none]
    exact List.mem_append_right _ hcalls₃
  obtain ⟨later, hlater⟩ := Pool.trace_prefix_run exec p₃ (s₄.map (·, .call .none)) j
  rw [hrun, Sent, ← hlater, delivered_append, responses_append]
  exact List.mem_append_left _ hsent

end Copies

/-- In every interleaving of `n + 1` copies without outside failures all of them report `SUCCESS`
and nothing else, and the world ends as after a single invocation. -/
def DuplicatesHarmless (n : Nat) (v : Invocation) (w : World) : Prop :=
  ∀ s : List (Fin (n + 1)),
    let p := (launch (fun _ => v) w).run exec (s.map (·, .call .none))
    p.Finished →
      (∀ i, responses (delivered (p.thread i).trace) = [.SUCCESS]) ∧
        p.state = ((handler v.event).eval exec w).state

theorem duplicatesHarmless_of_present {n : Nat} {v : Invocation} (hrequest : v.request ≠ .Delete)
    (hcompletes : Completes v.databases) {w : World} (hhas : ∀ db ∈ v.databases, w.server.Has db) :
    DuplicatesHarmless n v w := by
  intro s p hfinished
  have hreports := finished_reports hrequest hcompletes hhas s hfinished
  refine ⟨fun i => (hreports i).1, ?_⟩
  obtain ⟨-, -, hsingle⟩ := eval_handler w hrequest v.secretArn v.databases v.schemas
  obtain ⟨hvault, hreach⟩ := run_reach (fun _ : Fin (n + 1) => v) (fun _ => ⟨rfl, rfl⟩) w
    (s.map (·, .call .none))
  rw [reached_of_completes hcompletes] at hreach hsingle
  have hserver := Server.eq_provision_of_reach hreach (hreports 0).2
  calc p.state
      = ⟨p.state.server, p.state.vault⟩ := rfl
    _ = ⟨w.server.provision v.databases v.schemas, w.vault⟩ := by rw [hserver, hvault]
    _ = ((handler v.event).eval exec w).state := hsingle.symm

theorem duplicatesHarmless_single {v : Invocation} (hrequest : v.request ≠ .Delete)
    (hcompletes : Completes v.databases) (w : World) : DuplicatesHarmless 0 v w := by
  intro s p hfinished
  obtain ⟨calls, hcalls, hsteps⟩ := steps_handler w hrequest v.secretArn v.databases v.schemas
  obtain ⟨-, -, hsingle⟩ := eval_handler w hrequest v.secretArn v.databases v.schemas
  have hs : s = List.replicate s.length 0 :=
    List.eq_replicate_iff.mpr ⟨rfl, fun i _ => Subsingleton.elim (α := Fin 1) i 0⟩
  have hrun := Pool.run_alone exec (p := launch (fun _ : Fin 1 => v) w) (i := 0) rfl hsteps
  have hdone : ((launch (fun _ : Fin 1 => v) w).run exec (Pool.alone 0 calls.length)).Finished := by
    intro i
    obtain rfl := Subsingleton.elim (α := Fin 1) 0 i
    rw [hrun]
    simp only [Function.update_self]
    rfl
  have hp : p = (launch (fun _ : Fin 1 => v) w).run exec (Pool.alone 0 calls.length) := by
    have halone : p = (launch (fun _ : Fin 1 => v) w).run exec (Pool.alone 0 s.length) := by
      show (launch (fun _ : Fin 1 => v) w).run exec (s.map (·, .call .none)) = _
      rw [hs, List.map_replicate, List.length_replicate]
      rfl
    rw [halone] at hfinished ⊢
    exact Pool.alone_unique exec hfinished hdone
  rw [hp, hrun]
  refine ⟨fun i => ?_, hsingle.symm⟩
  obtain rfl := Subsingleton.elim (α := Fin 1) 0 i
  simp only [Function.update_self, launch, Thread.start, List.nil_append, delivered_map_none]
  rw [hcalls, answer, if_pos hcompletes]

theorem not_duplicatesHarmless {n : Nat} (hn : n ≠ 0) {v : Invocation} (hrequest : v.request ≠ .Delete)
    (hcompletes : Completes v.databases) {w : World}
    (hmissing : ∃ db ∈ v.databases, ¬ w.server.Has db) : ¬ DuplicatesHarmless n v w := by
  intro h
  have hij : (0 : Fin (n + 1)) ≠ Fin.last n := fun heq => hn (Fin.val_eq_of_eq heq).symm
  obtain ⟨s, hfinished, hfailed⟩ := race hrequest hcompletes hmissing hij
  have hsuccess := (h s hfinished).1 (Fin.last n)
  rw [Sent, hsuccess] at hfailed
  simp at hfailed

/-- Duplicates of a set-up event are harmless exactly when there are none or no database is missing. -/
theorem duplicatesHarmless_iff (n : Nat) (v : Invocation) (hrequest : v.request ≠ .Delete)
    (hdatabases : v.databases = [] ∨ v.databases.head? = some ecomm) (w : World) :
    DuplicatesHarmless n v w ↔ n = 0 ∨ ∀ db ∈ v.databases, w.server.Has db := by
  constructor
  · intro h
    by_contra hnot
    obtain ⟨hn, hmissing⟩ := not_or.mp hnot
    exact not_duplicatesHarmless hn hrequest hdatabases (by simpa using hmissing) h
  · rintro (rfl | hhas)
    · exact duplicatesHarmless_single hrequest hdatabases w
    · exact duplicatesHarmless_of_present hrequest hdatabases hhas

/-- The event of the deployed custom resource, for one list of schemas. -/
def createEcomm : Invocation := ⟨.Create, "secret", ["ecomm"], ["web"]⟩

theorem duplicatesHarmless_iff_two :
    RequestType.Create ≠ .Delete ∧ (["ecomm"] = [] ∨ ["ecomm"].head? = some ecomm) ∧
      (DuplicatesHarmless 1 createEcomm freshWorld ↔
        1 = 0 ∨ ∀ db ∈ createEcomm.databases, freshWorld.server.Has db) :=
  ⟨by decide, .inr rfl, duplicatesHarmless_iff 1 createEcomm (by decide) (.inr rfl) freshWorld⟩

/-- Two copies on a cluster as it is created. -/
theorem not_duplicatesHarmless_two : ¬ DuplicatesHarmless 1 createEcomm freshWorld := by
  have hmissing : ∃ db ∈ createEcomm.databases, ¬ freshWorld.server.Has db :=
    ⟨"ecomm", by decide, by decide +kernel⟩
  exact not_duplicatesHarmless (by decide) (by decide) (.inr rfl) hmissing

end ModulithInfra.Postgres
