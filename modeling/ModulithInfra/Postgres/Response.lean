import ModulithInfra.Calls.Straight
import ModulithInfra.Postgres.Healthy

/-!
# One response for each invocation

Whatever the calls of the database creator do, an invocation sends exactly one response: every exit
of its `try` block is the one `send` at the end of it, or an exception that the `except` block answers
with one `send` of its own. That the block has no other exit is followed through both loops: what
comes before its last call is `Straight` and sends nothing (`setUp_endsIn`).

The world is arbitrary. Which calls raise, at which iteration, and what the others answer may depend
on all that was called before; only `send` is trusted to return (`Delivers`).
-/

namespace ModulithInfra.Postgres

open Calls

/-- The call is not a response. -/
def NoResponse (call : Call) : Prop := responses [call] = []

theorem responses_eq_nil {calls : List Call} (h : ∀ call ∈ calls, NoResponse call) :
    responses calls = [] := by
  induction calls with
  | nil => rfl
  | cons call calls ih =>
    have hcall : responses [call] = [] := h call (by simp)
    have hcalls : responses calls = [] := ih fun c hc => h c (by simp [hc])
    have hsplit := responses_append [call] calls
    rw [hcall, hcalls] at hsplit
    exact hsplit

/-! ### The steps of the set-up send nothing -/

theorem straight_issue {call : Call} (h : responses [call] = []) :
    (issue call).Straight NoResponse :=
  Prog.Straight.issue h

theorem straight_item {α : Type} (key : String) (value : Option α) :
    (item key value).Straight NoResponse := by
  cases value with
  | some a => trivial
  | none => trivial

theorem straight_connect (secret : Json.Value) (database : String) :
    (connect secret database).Straight NoResponse := by
  refine (Prog.Straight.ofExcept _).bind fun host => ?_
  refine (Prog.Straight.ofExcept _).bind fun port => ?_
  refine (Prog.Straight.ofExcept _).bind fun user => ?_
  refine (Prog.Straight.ofExcept _).bind fun password => ?_
  refine (straight_issue rfl).bind fun connection => ?_
  exact (straight_issue rfl).bind fun _ => trivial

theorem straight_createSchemas (schemas : List String) (dbCursor : Cursor) :
    (createSchemas schemas dbCursor).Straight NoResponse := by
  induction schemas generalizing dbCursor with
  | nil => trivial
  | cons schema schemas ih =>
    exact (straight_issue rfl).bind fun dbCursor => ih dbCursor

theorem straight_createEcommSchemas (secret : Json.Value) (db : String) (schemas : List String) :
    (createEcommSchemas secret db schemas).Straight NoResponse := by
  refine (straight_connect secret db).bind fun dbConn => ?_
  refine (straight_issue rfl).bind fun dbCursor => ?_
  refine (straight_createSchemas schemas dbCursor).bind fun dbCursor => ?_
  exact (straight_issue rfl).bind fun _ => trivial

theorem straight_createIfMissing (adminCursor : Cursor) (db : String) :
    (createIfMissing adminCursor db).Straight NoResponse := by
  refine (straight_issue rfl).bind fun adminCursor => ?_
  refine (straight_issue rfl).bind fun exist => ?_
  by_cases hexist : exist.isNone = true
  · rw [if_pos hexist]
    exact straight_issue rfl
  · rw [if_neg hexist]
    trivial

theorem straight_openDbConn (secret : Json.Value) (schemas : List String) (db : String)
    (dbConn : Option Connection) : (openDbConn secret schemas db dbConn).Straight NoResponse := by
  unfold openDbConn
  by_cases hdb : db = ecomm
  · rw [if_pos hdb]
    exact (straight_createEcommSchemas secret db schemas).bind fun _ => trivial
  · rw [if_neg hdb]
    trivial

theorem straight_closeDbConn (dbConn : Option Connection) :
    (closeDbConn dbConn).Straight NoResponse := by
  cases dbConn with
  | none => trivial
  | some dbConn => exact (straight_issue rfl).bind fun _ => trivial

theorem straight_createDatabases (secret : Json.Value) (schemas databases : List String)
    (adminCursor : Cursor) (dbConn : Option Connection) :
    (createDatabases secret schemas databases adminCursor dbConn).Straight NoResponse := by
  induction databases generalizing adminCursor dbConn with
  | nil => trivial
  | cons db databases ih =>
    refine (straight_createIfMissing adminCursor db).bind fun adminCursor => ?_
    refine (straight_openDbConn secret schemas db dbConn).bind fun dbConn => ?_
    exact (straight_closeDbConn dbConn).bind fun dbConn => ih adminCursor dbConn

/-- The set-up makes its one response last. -/
theorem setUp_endsIn (secretArn : String) (databases schemas : List String) :
    (setUp secretArn databases schemas).EndsIn NoResponse (.send .SUCCESS []) := by
  refine (straight_issue rfl).endsIn fun _ => ?_
  refine (straight_issue rfl).endsIn fun secretString => ?_
  refine (straight_item _ secretString).endsIn fun secretString => ?_
  refine (straight_issue rfl).endsIn fun secret => ?_
  refine (straight_connect secret "postgres").endsIn fun adminConn => ?_
  refine (straight_issue rfl).endsIn fun adminCursor => ?_
  refine (straight_createDatabases secret schemas databases adminCursor none).endsIn
    fun adminCursor => ?_
  refine (straight_issue rfl).endsIn fun _ => ?_
  refine (straight_issue rfl).endsIn fun _ => ?_
  exact Prog.EndsIn.issue

/-- A `Delete` is answered at once. -/
theorem body_delete {event : Event} (hdelete : event.requestType = some "Delete") :
    body event = issue (.send .SUCCESS []) := by
  unfold body
  rw [hdelete]
  simp [item]

/-- So does the whole `try` block, whichever keys the event has. -/
theorem body_endsIn (event : Event) : (body event).EndsIn NoResponse (.send .SUCCESS []) := by
  refine (straight_item _ event.requestType).endsIn fun requestType => ?_
  by_cases hdelete : requestType = "Delete"
  · rw [if_pos hdelete]
    exact Prog.EndsIn.issue
  · rw [if_neg hdelete]
    refine (straight_item _ event.resourceProperties).endsIn fun properties => ?_
    refine (straight_item _ properties.secretArn).endsIn fun secretArn => ?_
    refine (straight_item _ properties.databases).endsIn fun databases => ?_
    refine (straight_item _ properties.schemas).endsIn fun schemas => ?_
    exact setUp_endsIn secretArn databases schemas

/-! ### The invocation -/

section Invocation

variable {State : Type} (exec : (call : Call) → State → Except Exn call.Answer × State)

/-- `cfnresponse.send` delivers the response and returns. -/
def Delivers : Prop := ∀ status data σ, (exec (.send status data) σ).1 = .ok ()

variable {exec}

/-- The two ends of an invocation: the set-up's own response, or a `FAILED` with the text of the
exception that ended it. -/
theorem handler_cases (hsend : Delivers exec) (event : Event) (σ : State) :
    ((body event).Completes exec σ ∧ ((handler event).eval exec σ).result = .ok () ∧
      responses ((handler event).eval exec σ).calls = [.SUCCESS]) ∨
    (¬ (body event).Completes exec σ ∧ ((handler event).eval exec σ).result = .ok () ∧
      ∃ (e : Exn) (calls : List Call), ((body event).eval exec σ).result = .error e ∧
        (∀ call ∈ calls, NoResponse call) ∧
        ((handler event).eval exec σ).calls = calls ++ [.send .FAILED [("Message", e.str)]]) := by
  have hlast : ∀ σ, ∃ a, (exec (.send .SUCCESS []) σ).1 = .ok a :=
    fun σ => ⟨(), hsend .SUCCESS [] σ⟩
  have hhandler : (handler event).eval exec σ = ((body event).eval exec σ).orElse exec
      fun e => issue (.send .FAILED [("Message", e.str)]) := eval_tryCatch exec _ _ σ
  rw [hhandler]
  rcases (body_endsIn event).eval_cases hlast σ with
    ⟨hdone, ⟨a, hresult⟩, calls, hcalls, hquiet⟩ | ⟨hnot, ⟨e, hresult⟩, hquiet⟩
  · refine .inl ⟨hdone, ?_, ?_⟩
    · simp only [Outcome.orElse, hresult]
    · simp only [Outcome.orElse, hresult, hcalls]
      rw [responses_append, responses_eq_nil hquiet]
      rfl
  · have hfailed := hsend .FAILED [("Message", e.str)] ((body event).eval exec σ).state
    refine .inr ⟨hnot, ?_, e, _, hresult, hquiet, ?_⟩
    · simp only [Outcome.orElse, hresult]
      rw [issue, Prog.issue, eval_call, hfailed]
      rfl
    · simp only [Outcome.orElse, hresult]
      rw [issue, Prog.issue, eval_call, hfailed]
      rfl

/-- Every invocation returns and has sent exactly one response: `SUCCESS` if and only if the request
was a `Delete` or every step of the body completed. A `Delete` makes no other call. -/
theorem one_truthful_response (hsend : Delivers exec) (event : Event) (σ : State) :
    ((handler event).eval exec σ).result = .ok () ∧
      (∃ status, responses ((handler event).eval exec σ).calls = [status] ∧
        (status = .SUCCESS ↔
          event.requestType = some "Delete" ∨ (body event).Completes exec σ)) ∧
      (event.requestType = some "Delete" →
        ((handler event).eval exec σ).calls = [.send .SUCCESS []]) := by
  have hcompletes : event.requestType = some "Delete" → (body event).Completes exec σ := by
    intro hdelete
    rw [body_delete hdelete]
    exact ⟨(), hsend .SUCCESS [] σ, trivial⟩
  refine ⟨?_, ?_, fun hdelete => ?_⟩
  · rcases handler_cases hsend event σ with ⟨-, hresult, -⟩ | ⟨-, hresult, -⟩ <;> exact hresult
  · rcases handler_cases hsend event σ with
      ⟨hdone, -, hresponses⟩ | ⟨hnot, -, e, calls, -, hquiet, hcalls⟩
    · exact ⟨.SUCCESS, hresponses, fun _ => .inr hdone, fun _ => rfl⟩
    · refine ⟨.FAILED, ?_, nofun, fun h => ?_⟩
      · rw [hcalls, responses_append, responses_eq_nil hquiet]
        rfl
      · rcases h with hdelete | hdone
        · exact absurd (hcompletes hdelete) hnot
        · exact absurd hdone hnot
  · unfold handler
    rw [body_delete hdelete, issue, Prog.issue, Prog.call_tryCatch, eval_call,
      hsend .SUCCESS [] σ]
    rfl

end Invocation

/-! ### Scheduled failures -/

/-- The healthy server under a schedule of faults, one for each call until it runs out; `send` is
never at fault. -/
def execUnder : (call : Call) → World × List (Fault Exn) →
    Except Exn call.Answer × (World × List (Fault Exn))
  | .send _ _, σ => (.ok (), σ)
  | call, (w, []) => ((exec call w).1, (exec call w).2, [])
  | call, (w, fault :: faults) =>
      ((perform exec call fault w).1, (perform exec call fault w).2, faults)

theorem delivers_execUnder : Delivers execUnder := fun _ _ _ => rfl

/-- The third call, `json.loads`, raises. -/
theorem one_truthful_response_loads :
    responses ((handler (.of .Create "secret" ["ecomm"] ["web"])).eval execUnder
      (freshWorld, [.none, .none, .before (.external "Expecting value")])).calls = [.FAILED] := by
  obtain ⟨-, ⟨status, hstatus, -⟩, -⟩ := one_truthful_response delivers_execUnder
    (.of .Create "secret" ["ecomm"] ["web"])
    (freshWorld, [.none, .none, .before (.external "Expecting value")])
  rw [hstatus]
  cases status with
  | FAILED => rfl
  | SUCCESS =>
    have hcalls : responses ((handler (.of .Create "secret" ["ecomm"] ["web"])).eval execUnder
        (freshWorld, [.none, .none, .before (.external "Expecting value")])).calls ≠ [.SUCCESS] := by
      decide
    exact absurd hstatus hcalls

end ModulithInfra.Postgres
