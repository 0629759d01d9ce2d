import ModulithInfra.Calls.Pool
import ModulithInfra.Postgres.Healthy

/-!
# Interleaved and faulty invocations

Any number of invocations run against one server, their calls interleaved in any order; a call may
raise before or after taking effect and an invocation may be killed. Nothing that exists is ever
lost, whatever is added was requested, and an invocation that reports `SUCCESS` for a set-up leaves
nothing of its request missing, then and later (`success_is_sound`).

The proof is a rely-guarantee argument. An invocation relies on the others only extending the
server, so that what its `SELECT` found stays; each of its own calls is at most one statement of its
set-up, and when it sends `SUCCESS` its set-up is done (`Invocation.contract`). The loops are
followed in `Safe`, which asks nothing of a run that raises.
-/

namespace ModulithInfra.Postgres

open Calls

/-- The secret is as it was, and nothing of the server is lost. -/
def World.Extends (w w' : World) : Prop := w'.vault = w.vault ∧ w.server.Extends w'.server

theorem World.Extends.refl (w : World) : w.Extends w := ⟨rfl, Server.Extends.refl _⟩

theorem World.Extends.trans {w w' w'' : World} (h : w.Extends w') (h' : w'.Extends w'') :
    w.Extends w'' :=
  ⟨h'.1.trans h.1, h.2.trans h'.2⟩

structure Invocation where
  request : RequestType
  secretArn : String
  databases : List String
  schemas : List String

namespace Invocation

def event (v : Invocation) : Event := .of v.request v.secretArn v.databases v.schemas

/-- The databases the invocation may create. -/
def touched (v : Invocation) : List String :=
  if v.request = .Delete then [] else reached v.databases

def contract (v : Invocation) : Contract Call Exn World where
  faults _ := True
  rely := World.Extends
  guar call _ w w' :=
    w'.vault = w.vault ∧ Server.Grow v.touched v.schemas w.server w'.server ∧
      (v.request ≠ .Delete → ∀ data, call = .send .SUCCESS data →
        w.server.Done v.databases v.schemas)
  rely_refl := World.Extends.refl
  rely_trans := World.Extends.trans

theorem touched_of_setUp {v : Invocation} (h : v.request ≠ .Delete) :
    v.touched = reached v.databases :=
  if_neg h

theorem touched_subset (v : Invocation) : v.touched ⊆ v.databases := by
  unfold touched
  split_ifs
  · exact List.nil_subset _
  · exact reached_subset _

/-- What an invocation guarantees, the others rely on. -/
theorem guar_rely {v u : Invocation} {call : Call} {f : Fault Exn} {w w' : World}
    (h : v.contract.guar call f w w') : u.contract.rely w w' :=
  ⟨h.1, h.2.1.extends⟩

end Invocation

/-! ### Safe programs -/

/-- Every call of the program respects the contract, and where it returns `a`, `Q a` holds. -/
def Safe {α : Type} (v : Invocation) (p : Handler α) (w : World) (Q : α → World → Prop) : Prop :=
  ∀ tr, Meets exec v.contract (fun r w _ => ∀ a, r = .ok a → Q a w) p w tr

namespace Safe

variable {α β : Type} {v : Invocation} {p : Handler α} {w : World} {Q Q' : α → World → Prop}

theorem ret {a : α} (h : Q a w) : Safe v (.ret a) w Q := by
  intro tr a' ha'
  obtain rfl := Except.ok.inj ha'
  exact h

theorem raise (e : Exn) : Safe v (.raise e) w Q := by
  intro tr a ha
  cases ha

theorem mono (hQ : ∀ a w, Q a w → Q' a w) (h : Safe v p w Q) : Safe v p w Q' :=
  fun tr => (h tr).mono fun _ _ _ hr a ha => hQ _ _ (hr a ha)

theorem seq {f : α → Handler β} {Q : β → World → Prop}
    (h : Safe v p w fun a w' => Safe v (f a) w' Q) : Safe v (p >>= f) w Q := by
  intro tr
  refine Meets.bind ((h tr).mono fun r w' tr' hr => ?_)
  cases r with
  | ok a => exact hr a rfl tr'
  | error e => exact fun a ha => by cases ha

/-- What is done stays done while the program and the others run. -/
theorem keep {K : Server → Prop} (hK : ∀ s s', s.Extends s' → K s → K s') (hw : K w.server)
    (h : Safe v p w Q) : Safe v p w fun a w' => Q a w' ∧ K w'.server := by
  intro tr
  have hrely : ∀ w w', v.contract.rely w w' → K w.server → K w'.server :=
    fun _ _ h => hK _ _ h.2
  have hguar : ∀ call f w w', v.contract.guar call f w w' → K w.server → K w'.server :=
    fun _ _ _ _ h => hK _ _ h.2.1.extends
  exact ((h tr).keep hrely hguar hw).mono fun r w' tr' hr a ha => ⟨hr.1 a ha, hr.2⟩

/-- A call is safe if it respects the contract whether or not it takes effect. -/
theorem issue {call : Call} {Q : call.Answer → World → Prop}
    (h : ∀ w', v.contract.rely w w' → ∀ f, v.contract.guar call f w' w' ∧
      v.contract.guar call f w' (exec call w').2 ∧
      ∀ a, (exec call w').1 = .ok a → Q a (exec call w').2) : Safe v (issue call) w Q := by
  intro tr
  refine Meets.issue fun w' hrely f _ => ?_
  obtain ⟨hbefore, hafter, hanswer⟩ := h w' hrely f
  cases f with
  | none => exact ⟨hafter, hanswer⟩
  | before e => exact ⟨hbefore, fun a ha => by cases ha⟩
  | after e => exact ⟨hafter, fun a ha => by cases ha⟩

/-- A call that changes nothing and is not a report of success. -/
theorem idle {call : Call} {Q : call.Answer → World → Prop}
    (hsend : ∀ data, call ≠ .send .SUCCESS data) (hexec : ∀ w, (exec call w).2 = w)
    (hQ : ∀ w', v.contract.rely w w' → ∀ a, (exec call w').1 = .ok a → Q a w') :
    Safe v (Postgres.issue call) w Q := by
  refine issue fun w' hrely f => ?_
  have hguar : v.contract.guar call f w' w' := ⟨rfl, .refl, fun _ data h => absurd h (hsend data)⟩
  rw [hexec w']
  exact ⟨hguar, hguar, hQ w' hrely⟩

/-- A statement that is one of the set-up's, or changes nothing. -/
theorem statement {cursor : Cursor} {sql : Sql} {Q : Cursor → World → Prop}
    (h : ∀ w', v.contract.rely w w' →
      (runSql cursor sql w').2.vault = w'.vault ∧
        Server.Grow v.touched v.schemas w'.server (runSql cursor sql w').2.server ∧
        ∀ a, (runSql cursor sql w').1 = .ok a → Q a (runSql cursor sql w').2) :
    Safe v (Postgres.issue (.execute cursor sql)) w Q := by
  refine issue fun w' hrely f => ?_
  obtain ⟨hvault, hgrow, hanswer⟩ := h w' hrely
  exact ⟨⟨rfl, .refl, fun _ _ => nofun⟩, ⟨hvault, hgrow, fun _ _ => nofun⟩, hanswer⟩

end Safe

/-! ### The loops -/

section Loops

variable {v : Invocation}

theorem safe_ofExcept {α : Type} (x : Except Exn α) (w : World) :
    Safe v (.ofExcept x) w fun _ w' => w' = w := by
  cases x with
  | ok a => exact Safe.ret rfl
  | error e => exact Safe.raise e

theorem exec_connect_state {host port user password : Json.Value} {database : String} (w : World) :
    (exec (.connect host port user password database) w).2 = w := by
  show (connectTo database w).2 = w
  unfold connectTo
  split_ifs <;> rfl

theorem exec_connect_answer {host port user password : Json.Value} {database : String} {w : World}
    {a : Connection} (h : (exec (.connect host port user password database) w).1 = .ok a) :
    a = ⟨database, false, false⟩ := by
  change (connectTo database w).1 = .ok a at h
  unfold connectTo at h
  split_ifs at h
  exact (Except.ok.inj h).symm

/-- A connection that was opened is to the database asked for, with autocommit. -/
theorem safe_connect (secret : Json.Value) (database : String) (w : World) :
    Safe v (connect secret database) w fun conn _ => conn = ⟨database, true, false⟩ := by
  unfold connect
  refine .seq ((safe_ofExcept _ _).mono ?_)
  rintro host _ rfl
  refine .seq ((safe_ofExcept _ _).mono ?_)
  rintro port _ rfl
  refine .seq ((safe_ofExcept _ _).mono ?_)
  rintro user _ rfl
  refine .seq ((safe_ofExcept _ _).mono ?_)
  rintro password w rfl
  refine .seq (.idle (fun _ => nofun) exec_connect_state fun w' _ conn hconn => ?_)
  obtain rfl := exec_connect_answer hconn
  exact .seq (.idle (fun _ => nofun) (fun _ => rfl) fun _ _ _ _ => Safe.ret rfl)

/-- A schema statement that succeeded has its schema in the database of the connection. -/
theorem safe_createSchema (hecomm : ecomm ∈ v.touched) {schema : String}
    (hschema : schema ∈ v.schemas) (rows : List Nat) (w : World) :
    Safe v (issue (.execute ⟨⟨ecomm, true, false⟩, rows⟩ (.createSchemaIfNotExists schema))) w
      fun cursor w' => cursor.connection = ⟨ecomm, true, false⟩ ∧
        w'.server.Done [ecomm] [schema] := by
  refine .statement fun w' _ => ?_
  rcases runSql_createSchema_cases ⟨⟨ecomm, true, false⟩, rows⟩ rfl schema w' with
    ⟨e, hrun⟩ | ⟨present, hdb, hrun⟩
  · rw [hrun]
    exact ⟨rfl, .refl, fun _ => nofun⟩
  · rw [hrun]
    refine ⟨rfl, .schema hecomm hschema hdb, fun cursor hcursor => ?_⟩
    obtain rfl := Except.ok.inj hcursor
    exact ⟨rfl, Server.done_createSchema w'.server present schema⟩

theorem safe_createSchemas (hecomm : ecomm ∈ v.touched) (schemas : List String)
    (hschemas : schemas ⊆ v.schemas) (rows : List Nat) {w : World} (hhas : w.server.Has ecomm) :
    Safe v (createSchemas schemas ⟨⟨ecomm, true, false⟩, rows⟩) w
      fun _ w' => w'.server.Done [ecomm] schemas := by
  induction schemas generalizing rows w with
  | nil => exact Safe.ret (Server.done_ecomm_nil hhas)
  | cons schema schemas ih =>
    have hschema : schema ∈ v.schemas := hschemas List.mem_cons_self
    refine .seq ((safe_createSchema hecomm hschema rows w).mono fun cursor w' hcursor => ?_)
    obtain ⟨conn, rows'⟩ := cursor
    obtain ⟨rfl, hdone⟩ := hcursor
    have hhas' : w'.server.Has ecomm := hdone.1 ecomm (by simp)
    have hrest := ih (fun s hs => hschemas (List.mem_cons_of_mem _ hs)) rows' hhas'
    refine (hrest.keep (fun _ _ hext => hext.done) hdone).mono fun _ w'' h => ?_
    exact h.2.cons_schema h.1

theorem safe_createEcommSchemas (hecomm : ecomm ∈ v.touched) (secret : Json.Value) {w : World}
    (hhas : w.server.Has ecomm) :
    Safe v (createEcommSchemas secret ecomm v.schemas) w
      fun _ w' => w'.server.Done [ecomm] v.schemas := by
  unfold createEcommSchemas
  refine .seq (((safe_connect secret ecomm w).keep (fun _ _ hext => hext.has) hhas).mono ?_)
  rintro _ w₁ ⟨rfl, hhas₁⟩
  refine .seq (.idle (fun _ => nofun) (fun _ => rfl) fun w₂ hrely cursor hcursor => ?_)
  obtain rfl := Except.ok.inj hcursor
  refine .seq ((safe_createSchemas hecomm v.schemas (List.Subset.refl _) []
    (hrely.2.has hhas₁)).mono fun cursor w₃ hdone => ?_)
  refine .seq (.idle (fun _ => nofun) (fun _ => rfl) fun w₄ hrely _ _ => ?_)
  exact Safe.ret (hrely.2.done hdone)

theorem safe_createDatabase {db : String} (hdb : db ∈ v.touched) (cursor : Cursor) (w : World) :
    Safe v (issue (.execute cursor (.createDatabase db))) w fun _ w' => w'.server.Has db := by
  refine .statement fun w' _ => ?_
  rcases runSql_createDatabase_cases cursor db w' with ⟨e, hrun⟩ | ⟨hnew, hrun⟩
  · rw [hrun]
    exact ⟨rfl, .refl, fun _ => nofun⟩
  · rw [hrun]
    refine ⟨rfl, .database hdb hnew, fun _ _ => ?_⟩
    exact Server.has_of_eq (Server.createDatabase_self _ _)

/-- A `SELECT` answers a row exactly when it finds the database. -/
theorem safe_select (cursor : Cursor) (db : String) (w : World) :
    Safe v (issue (.execute cursor (.selectDatname db))) w
      fun cursor' w' => cursor'.rows = if w'.server.Has db then [1] else [] := by
  refine .statement fun w' _ => ?_
  rcases runSql_select_cases cursor db w' with ⟨e, hrun⟩ | hrun
  · rw [hrun]
    exact ⟨rfl, .refl, fun _ => nofun⟩
  · rw [hrun]
    refine ⟨rfl, .refl, fun cursor' hcursor' => ?_⟩
    obtain rfl := Except.ok.inj hcursor'
    rfl

/-- A statement that created a database, or a `SELECT` that found it, leaves it in the server. -/
theorem safe_createIfMissing {db : String} (hdb : db ∈ v.touched) (cursor : Cursor) (w : World) :
    Safe v (createIfMissing cursor db) w fun _ w' => w'.server.Has db := by
  unfold createIfMissing
  refine .seq ((safe_select cursor db w).mono fun cursor₁ w₁ hrows => ?_)
  refine .seq (.idle (fun _ => nofun) (fun _ => rfl) fun w₂ hrely exist hexist => ?_)
  obtain rfl := Except.ok.inj hexist
  by_cases hhas : w₁.server.Has db
  · have hnone : cursor₁.rows.head?.isNone = false := by rw [hrows, if_pos hhas]; rfl
    rw [hnone]
    exact Safe.ret (hrely.2.has hhas)
  · have hnone : cursor₁.rows.head?.isNone = true := by rw [hrows, if_neg hhas]; rfl
    rw [hnone, if_pos rfl]
    exact safe_createDatabase hdb cursor₁ w₂

/-- `db_conn.close()` returns only if the variable was bound. -/
theorem safe_closeDbConn (dbConn : Option Connection) (w : World) :
    Safe v (closeDbConn dbConn) w fun dbConn' w' =>
      dbConn.isSome = true ∧ dbConn'.isSome = true ∧ w.server.Extends w'.server := by
  cases dbConn with
  | none => exact Safe.raise _
  | some conn =>
    exact .seq (.idle (fun _ => nofun) (fun _ => rfl) fun w' hrely _ _ =>
      Safe.ret ⟨rfl, rfl, hrely.2⟩)

/-- `db_conn` is bound afterwards only if it was before or the name is `ecomm`. -/
theorem safe_openDbConn {db : String} (hdb : db ∈ v.touched) (secret : Json.Value)
    (dbConn : Option Connection) {w : World} (hhas : w.server.Has db) :
    Safe v (openDbConn secret v.schemas db dbConn) w fun dbConn' w' =>
      (dbConn'.isSome = true → dbConn.isSome = true ∨ db = ecomm) ∧
        w'.server.Done [db] v.schemas := by
  unfold openDbConn
  by_cases hecomm : db = ecomm
  · subst hecomm
    rw [if_pos rfl]
    refine .seq ((safe_createEcommSchemas hdb secret hhas).mono fun conn w₂ hdone => ?_)
    exact Safe.ret ⟨fun _ => .inr rfl, hdone⟩
  · rw [if_neg hecomm]
    exact Safe.ret ⟨.inl, Server.done_singleton hecomm hhas⟩

/-- The loop over the databases only returns with all of them done. Until `db_conn` is bound, only
the first of them may be touched. -/
theorem safe_createDatabases (secret : Json.Value) (databases : List String)
    (dbConn : Option Connection)
    (hsub : (if dbConn.isSome then databases else reached databases) ⊆ v.touched)
    (cursor : Cursor) (w : World) :
    Safe v (createDatabases secret v.schemas databases cursor dbConn) w
      fun _ w' => w'.server.Done databases v.schemas := by
  induction databases generalizing dbConn cursor w with
  | nil => exact Safe.ret (Server.done_nil _ _)
  | cons db databases ih =>
    have hdb : db ∈ v.touched := by
      refine hsub ?_
      unfold reached
      split_ifs <;> simp
    have hrest : dbConn.isSome = true ∨ db = ecomm → databases ⊆ v.touched := by
      intro hbound name hname
      refine hsub ?_
      unfold reached
      rcases hbound with hbound | rfl
      · rw [if_pos hbound]
        exact List.mem_cons_of_mem _ hname
      · rw [List.head?_cons, if_pos rfl, ite_self]
        exact List.mem_cons_of_mem _ hname
    refine .seq ((safe_createIfMissing hdb cursor w).mono fun cursor₁ w₁ hhas => ?_)
    refine .seq ((safe_openDbConn hdb secret dbConn hhas).mono fun dbConn₂ w₂ h₂ => ?_)
    refine .seq ((safe_closeDbConn dbConn₂ w₂).mono fun dbConn₃ w₃ h₃ => ?_)
    have hih := ih dbConn₃ (by rw [if_pos h₃.2.1]; exact hrest (h₂.1 h₃.1)) cursor₁ w₃
    refine (hih.keep (fun _ _ hext => hext.done) (h₃.2.2.done h₂.2)).mono fun _ w₄ h₄ => ?_
    exact h₄.2.append h₄.1

end Loops

/-! ### The whole invocation -/

/-- Sending a response; success may be reported once the set-up is done. -/
theorem safe_send {v : Invocation} {status : Status} {data : List (String × String)} {w : World}
    (h : status = .SUCCESS → v.request ≠ .Delete → w.server.Done v.databases v.schemas) :
    Safe v (issue (.send status data)) w fun _ _ => True := by
  refine .issue fun w' hrely f => ?_
  have hguar : v.contract.guar (.send status data) f w' w' := by
    refine ⟨rfl, .refl, fun hrequest data' hsend => ?_⟩
    cases hsend
    exact hrely.2.done (h rfl hrequest)
  exact ⟨hguar, hguar, fun _ _ => trivial⟩

theorem safe_item {α : Type} {v : Invocation} (key : String) (x : Option α) (w : World) :
    Safe v (item key x) w fun _ w' => w' = w := by
  cases x with
  | none => exact Safe.raise _
  | some a => exact Safe.ret rfl

theorem exec_jsonLoads_state (text : String) (w : World) : (exec (.jsonLoads text) w).2 = w := by
  cases h : Json.loads text <;> simp [exec, h]

theorem exec_cursor_state (connection : Connection) (w : World) :
    (exec (.cursor connection) w).2 = w := by
  cases h : connection.closed <;> simp [exec, h]

/-- A set-up reports success only when it is done. -/
theorem safe_setUp {v : Invocation} (hrequest : v.request ≠ .Delete) (w : World) :
    Safe v (setUp v.secretArn v.databases v.schemas) w fun _ _ => True := by
  have hsub : reached v.databases ⊆ v.touched := by
    rw [Invocation.touched_of_setUp hrequest]
    exact List.Subset.refl _
  refine .seq (.idle (fun _ => nofun) (fun _ => rfl) fun w₁ _ _ _ => ?_)
  refine .seq (.idle (fun _ => nofun) (fun _ => rfl) fun w₂ _ secretString _ => ?_)
  refine .seq ((safe_item _ secretString w₂).mono fun text w₃ _ => ?_)
  refine .seq (.idle (fun _ => nofun) (exec_jsonLoads_state text) fun w₄ _ secret _ => ?_)
  refine .seq ((safe_connect secret "postgres" w₄).mono fun adminConn w₅ _ => ?_)
  refine .seq (.idle (fun _ => nofun) (exec_cursor_state adminConn) fun w₆ _ adminCursor _ => ?_)
  refine .seq ((safe_createDatabases secret v.databases none hsub adminCursor w₆).mono
    fun adminCursor' w₇ hdone => ?_)
  refine .seq (.idle (fun _ => nofun) (fun _ => rfl) fun w₈ hrely₈ _ _ => ?_)
  refine .seq (.idle (fun _ => nofun) (fun _ => rfl) fun w₉ hrely₉ _ _ => ?_)
  exact safe_send fun _ _ => hrely₉.2.done (hrely₈.2.done hdone)

/-- Every invocation meets its contract. -/
theorem meets_handler (v : Invocation) (w : World) (tr : List (Call × Fault Exn)) :
    Meets exec v.contract (fun _ _ _ => True) (handler v.event) w tr := by
  have hbody : Safe v (body v.event) w fun _ _ => True := by
    by_cases hrequest : v.request = .Delete
    · have hdelete : body v.event = issue (.send .SUCCESS []) := by
        simp only [body, Invocation.event, Event.of, hrequest, item, RequestType.name]
        rfl
      rw [hdelete]
      exact safe_send fun _ h => absurd hrequest h
    · rw [Invocation.event, body_of hrequest]
      exact safe_setUp hrequest w
  refine Meets.tryCatch ((hbody tr).mono fun r w' tr' _ => ?_)
  cases r with
  | ok _ => exact trivial
  | error e =>
    have hsend : Safe v (issue (.send .FAILED [("Message", e.str)])) w' fun _ _ => True :=
      safe_send nofun
    exact (hsend tr').mono fun _ _ _ _ => trivial

/-! ### Whole runs -/

section Runs

variable {ι : Type}

/-- The invocations as they start, one thread each. -/
def launch (v : ι → Invocation) (w : World) : Pool ι Call.Answer Exn World Unit where
  thread i := .start (handler (v i).event)
  state := w

/-- What thread `i` of a pool has sent. -/
def Sent (p : Pool ι Call.Answer Exn World Unit) (i : ι) (status : Status) : Prop :=
  status ∈ responses (delivered (p.thread i).trace)

theorem compatible_contracts (v : ι → Invocation) : Compatible fun i => (v i).contract :=
  fun _ _ _ _ _ _ _ h => Invocation.guar_rely h

theorem launch_meets (v : ι → Invocation) (w : World) :
    (launch v w).Meets exec (fun i => (v i).contract) fun _ _ _ _ => True := by
  intro i prog hprog
  obtain rfl := Option.some.inj hprog
  exact meets_handler (v i) w []

variable [DecidableEq ι]

theorem run_meets (v : ι → Invocation) (w : World) (s : List (ι × Act Exn)) :
    ((launch v w).run exec s).Meets exec (fun i => (v i).contract) fun _ _ _ _ => True :=
  (launch_meets v w).run (compatible_contracts v) (fun _ _ _ _ _ _ h => h) fun _ _ _ => trivial

/-- A response is on the trace because it was sent before or is sent now. -/
theorem sent_call {p : Pool ι Call.Answer Exn World Unit} {i j : ι} {call : Call} {f : Fault Exn}
    {prog : Option (Handler Unit)} {w' : World} {status : Status}
    (h : Sent ⟨Function.update p.thread i ⟨prog, (p.thread i).trace ++ [(call, f)]⟩, w'⟩ j status) :
    Sent p j status ∨ j = i ∧ ∃ data, call = .send status data := by
  unfold Sent at h ⊢
  dsimp only at h
  by_cases hij : j = i
  · subst hij
    rw [Function.update_self] at h
    obtain ⟨sent, hsent, hstatus⟩ := List.mem_filterMap.mp h
    rcases mem_delivered_concat hsent with hold | rfl
    · exact .inl (List.mem_filterMap.mpr ⟨sent, hold, hstatus⟩)
    · refine .inr ⟨rfl, ?_⟩
      cases sent <;> simp at hstatus
      subst hstatus
      exact ⟨_, rfl⟩
  · rw [Function.update_of_ne hij] at h
    exact .inl h

theorem sent_kill {p : Pool ι Call.Answer Exn World Unit} {i j : ι} {status : Status}
    (h : Sent { p with thread := Function.update p.thread i ⟨none, (p.thread i).trace⟩ } j status) :
    Sent p j status := by
  unfold Sent at h ⊢
  dsimp only at h
  by_cases hij : j = i
  · subst hij
    rwa [Function.update_self] at h
  · rwa [Function.update_of_ne hij] at h

/-- The server only ever grows. -/
theorem run_extends (v : ι → Invocation) (w : World) (s s' : List (ι × Act Exn)) :
    ((launch v w).run exec s).state.server.Extends
      (((launch v w).run exec s).run exec s').state.server := by
  refine Pool.run_induction (I := fun q =>
      ((launch v w).run exec s).state.server.Extends q.state.server)
    (compatible_contracts v) (fun _ _ _ _ _ _ h => h) (run_meets v w s) (fun _ _ _ => trivial)
    (Server.Extends.refl _) ?_ ?_
  · intro q i call next f hI _ _ hguar
    exact hI.trans hguar.2.1.extends
  · intro q i hI
    exact hI

/-- Everything on the server was there at first or was requested by some set-up. -/
theorem run_madeFrom (v : ι → Invocation) (w : World) (s : List (ι × Act Exn)) :
    Server.MadeFrom {db | ∃ i, (v i).request ≠ .Delete ∧ db ∈ (v i).databases}
      {schema | ∃ i, (v i).request ≠ .Delete ∧ ecomm ∈ (v i).databases ∧ schema ∈ (v i).schemas}
      w.server ((launch v w).run exec s).state.server := by
  refine Pool.run_induction (I := fun q => Server.MadeFrom _ _ w.server q.state.server)
    (compatible_contracts v) (fun _ _ _ _ _ _ h => h) (launch_meets v w) (fun _ _ _ => trivial)
    (Server.MadeFrom.refl _ _ _) ?_ ?_
  · intro q i call next f hI _ _ hguar
    have hrequest : ∀ db ∈ (v i).touched, (v i).request ≠ .Delete := by
      intro db hdb hdelete
      rw [Invocation.touched, if_pos hdelete] at hdb
      cases hdb
    refine hI.grow hguar.2.1 (fun db hdb => ?_) fun hecomm schema hschema => ?_
    · exact ⟨i, hrequest db hdb, (v i).touched_subset hdb⟩
    · exact ⟨i, hrequest _ hecomm, (v i).touched_subset hecomm, hschema⟩
  · intro q i hI
    exact hI

/-- A set-up that has reported success is done. -/
theorem run_done (v : ι → Invocation) (w : World) (s : List (ι × Act Exn)) {i : ι}
    (hrequest : (v i).request ≠ .Delete) (h : Sent ((launch v w).run exec s) i .SUCCESS) :
    ((launch v w).run exec s).state.server.Done (v i).databases (v i).schemas := by
  revert h
  refine Pool.run_induction
    (I := fun q => Sent q i .SUCCESS → q.state.server.Done (v i).databases (v i).schemas)
    (compatible_contracts v) (fun _ _ _ _ _ _ h => h) (launch_meets v w) (fun _ _ _ => trivial)
    ?_ ?_ ?_
  · intro h
    cases h
  · intro q j call next f hI _ _ hguar hsent
    refine hguar.2.1.extends.done ?_
    rcases sent_call hsent with hsent | ⟨rfl, data, rfl⟩
    · exact hI hsent
    · exact hguar.2.2 hrequest data rfl
  · intro q j hI hsent
    exact hI (sent_kill hsent)

/-- In every run of any invocations, with any faults and kills: the server only grows, by what some
set-up requested and nothing else, and an invocation that has sent `SUCCESS` for a set-up finds
nothing of it missing from then on. -/
theorem success_is_sound (v : ι → Invocation) (w : World) (s s' : List (ι × Act Exn)) :
    let p := (launch v w).run exec s
    let p' := p.run exec s'
    p.state.server.Extends p'.state.server ∧
    (∀ db, p.state.server.Has db →
      w.server.Has db ∨ ∃ i, (v i).request ≠ .Delete ∧ db ∈ (v i).databases) ∧
    (∀ db present schema, p.state.server.databases db = some present → schema ∈ present →
      (∃ old, w.server.databases db = some old ∧ schema ∈ old) ∨
        (w.server.databases db = none ∧ schema ∈ w.server.template) ∨
        (db = ecomm ∧ ∃ i, (v i).request ≠ .Delete ∧ ecomm ∈ (v i).databases ∧
          schema ∈ (v i).schemas)) ∧
    (∀ i, (v i).request ≠ .Delete → Sent p i .SUCCESS →
      p'.state.server.Done (v i).databases (v i).schemas) := by
  intro p p'
  have hmade := run_madeFrom v w s
  refine ⟨run_extends v w s s', hmade.database, hmade.schema, fun i hrequest hsent => ?_⟩
  exact (run_extends v w s s').done (run_done v w s hrequest hsent)

end Runs

end ModulithInfra.Postgres
