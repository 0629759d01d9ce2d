import ModulithInfra.App.Environment
import ModulithInfra.Calls.Pool
import ModulithInfra.DocumentDb.UpdateSecret
import ModulithInfra.Json.RoundTrip

/-!
# The shape of the DocumentDB secret

The secret starts as a text that Secrets Manager makes of a template, and any number of invocations of
the update handler then read it, set the endpoint and put it back, with no lock between the two. The
template and the payloads of the invocations are put together from text by hand.

Whatever the interleaving and the failures, the secret keeps the fields and the values it was made
with, and its endpoint is that of the last put that took effect (`secret_keeps_shape`): invocations
overlap, but what one could overwrite of another's is the endpoint alone. The contract of an
invocation says so: it relies on the others to keep the secret's shape, and every call of it does.
-/

namespace ModulithInfra.DocumentDb

open Calls
open App (Environment)
open Postgres (Exn)

/-! ### The secret -/

/-- The fields of the secret. -/
def secretFields (environment password endpoint : String) : Json.Fields :=
  [("username", .str (documentDbMasterUser environment)), ("port", .int 27017),
    ("documentdb_endpoint", .str endpoint), ("password", .str password)]

/-- The text is an object of exactly these fields, in any order. -/
def HoldsSecret (environment password endpoint text : String) : Prop :=
  ∃ fields, Json.loads text = some (.obj fields) ∧
    fields.Perm (secretFields environment password endpoint)

/-- What Secrets Manager stores for a template: some text for the template's object with the generated
string under its key. -/
def Generates (template key generated text : String) : Prop :=
  ∃ fields fields', Json.loads template = some (.obj fields) ∧ Json.loads text = some (.obj fields') ∧
    fields'.Perm (Json.setItem key (.str generated) fields)

theorem canonical_secretFields (environment password endpoint : String) :
    Json.Canonical (.obj (secretFields environment password endpoint)) := by
  refine ⟨?_, trivial, trivial, trivial, trivial, trivial⟩
  simp [secretFields]

/-- Setting the endpoint gives the secret with the new endpoint, written by `json.dumps`. -/
theorem holdsSecret_dumps {environment password endpoint : String} {fields : Json.Fields}
    (hfields : fields.Perm (secretFields environment password endpoint)) (endpoint' : String) :
    HoldsSecret environment password endpoint'
      (Json.dumps (.obj (Json.setItem "documentdb_endpoint" (.str endpoint') fields))) := by
  have hkeys := ((canonical_secretFields environment password endpoint).perm hfields).1
  have hset : (Json.setItem "documentdb_endpoint" (.str endpoint') fields).Perm
      (secretFields environment password endpoint') := by
    have hperm := Json.setItem_perm hfields hkeys "documentdb_endpoint" (.str endpoint')
    simpa [secretFields, Json.setItem] using hperm
  exact ⟨_, Json.loads_dumps ((canonical_secretFields _ _ _).perm hset), hset⟩

/-! ### The template -/

theorem plain_of_isAlphanum {c : Char} (h : c.isAlphanum = true) : Json.Plain c := by
  have hcode : '0'.toNat ≤ c.toNat := by
    rcases Bool.or_eq_true_iff.mp h with halpha | hdigit
    · rcases Bool.or_eq_true_iff.mp halpha with hupper | hlower
      · have hge : 'A'.val ≤ c.val := (of_decide_eq_true hupper).1
        exact le_trans (by decide) (UInt32.le_iff_toNat_le.mp hge)
      · have hge : 'a'.val ≤ c.val := of_decide_eq_true (Bool.and_eq_true_iff.mp hlower).1
        exact le_trans (by decide) (UInt32.le_iff_toNat_le.mp hge)
    · exact (Char.isDigit_iff_toNat.mp hdigit).1
  refine ⟨?_, ?_, le_trans (by decide) hcode⟩
  · rintro rfl
    simp at hcode
  · rintro rfl
    simp at h

theorem plain_template : ∀ text ∈ ["username", "-docadmin"], Json.PlainText text := by
  decide +kernel

theorem plainText_masterUser (environment : Environment) :
    Json.PlainText (documentDbMasterUser environment.name) := by
  have hending := plain_template "-docadmin" (by simp)
  intro c hc
  rw [documentDbMasterUser, String.toList_append, List.mem_append] at hc
  rcases hc with hc | hc
  · rcases environment.char hc with halphanum | rfl
    · exact plain_of_isAlphanum halphanum
    · decide
  · exact hending c hc

/-- The fields of the template after the first are written as `json.dumps` writes them. -/
theorem renderFields_template :
    Json.renderFields [("port", .int 27017), ("documentdb_endpoint", .str "")] =
      "\"port\": 27017, \"documentdb_endpoint\": \"\"".toList := by
  decide +kernel

theorem secretStringTemplate_toList (environment : String) :
    (secretStringTemplate environment).toList =
      '{' :: '"' :: ("username".toList ++ '"' :: ':' :: '"' ::
        ((documentDbMasterUser environment).toList ++ '"' :: ',' :: ' ' ::
          (Json.renderFields [("port", .int 27017), ("documentdb_endpoint", .str "")] ++ ['}']))) := by
  simp [secretStringTemplate, renderFields_template]

theorem loads_secretStringTemplate (environment : Environment) :
    Json.loads (secretStringTemplate environment.name) =
      some (.obj [("username", .str (documentDbMasterUser environment.name)), ("port", .int 27017),
        ("documentdb_endpoint", .str "")]) := by
  have hvalue : ∀ fuel, Json.value (fuel + 50) (secretStringTemplate environment.name).toList =
      some (.obj [("username", .str (documentDbMasterUser environment.name)), ("port", .int 27017),
        ("documentdb_endpoint", .str "")], []) := by
    intro fuel
    have husername := plain_template "username" (by simp)
    have hfields : Json.CanonicalFields [("port", .int 27017), ("documentdb_endpoint", .str "")] :=
      ⟨trivial, trivial, trivial⟩
    have hlength : (Json.renderFields [("port", .int 27017), ("documentdb_endpoint", .str "")]).length ≤
        fuel + 47 + 1 := by
      rw [renderFields_template]
      simp
    rw [secretStringTemplate_toList, Json.value_object]
    exact Json.members_string husername (plainText_masterUser environment) (by simp) hfields (by simp)
      hlength []
  have hlength : 50 ≤ (secretStringTemplate environment.name).toList.length + 1 := by
    simp [secretStringTemplate]
  exact Json.loads_of_value (secretStringTemplate_toList environment.name) hlength hvalue

/-- What Secrets Manager makes of the template is the secret without an endpoint. -/
theorem holdsSecret_of_generates {environment : Environment} {password text : String}
    (h : Generates (secretStringTemplate environment.name) "password" password text) :
    HoldsSecret environment.name password "" text := by
  obtain ⟨fields, fields', htemplate, htext, hperm⟩ := h
  rw [loads_secretStringTemplate] at htemplate
  obtain rfl := Json.Value.obj.inj (Option.some.inj htemplate)
  refine ⟨fields', htext, ?_⟩
  simpa [Json.setItem, secretFields] using hperm

theorem generateSecretString_template (environment : Environment) (password : String) :
    generateSecretString (secretStringTemplate environment.name) "password" password =
      some (Json.dumps (.obj (secretFields environment.name password ""))) := by
  simp [generateSecretString, loads_secretStringTemplate, Json.setItem, secretFields]

/-- `generateSecretString` is one way to store it. -/
theorem generates_of_generateSecretString {environment : Environment} {password text : String}
    (h : generateSecretString (secretStringTemplate environment.name) "password" password = some text) :
    Generates (secretStringTemplate environment.name) "password" password text := by
  rw [generateSecretString_template] at h
  obtain rfl := Option.some.inj h
  refine ⟨_, _, loads_secretStringTemplate environment,
    Json.loads_dumps (canonical_secretFields _ _ _), ?_⟩
  simp [Json.setItem, secretFields]

/-! ### Invocations -/

/-- The two payloads of the custom resource. -/
inductive Lifecycle : Type where
  | onCreate
  | onUpdate
  deriving DecidableEq

def Lifecycle.requestType : Lifecycle → String
  | .onCreate => "Create"
  | .onUpdate => "Update"

def Lifecycle.sdkCall : Lifecycle → String → String → String → AwsSdkCall
  | .onCreate => DocumentDb.onCreate
  | .onUpdate => DocumentDb.onUpdate

/-- An invocation of the update handler: a payload, and the strings it is rendered from. -/
structure Invocation where
  lifecycle : Lifecycle
  secretArn : String
  endpoint : String
  secretArn_plain : Json.PlainText secretArn
  endpoint_plain : Json.PlainText endpoint

namespace Invocation

variable (v : Invocation)

def payload (environment : String) : String :=
  (v.lifecycle.sdkCall environment v.secretArn v.endpoint).payload

/-- What the payload is to say. -/
def event : Json.Value := eventOf v.lifecycle.requestType v.secretArn v.endpoint

/-- The handler on the payload. -/
def program (environment : String) : Handler Json.Value := do
  handler (← .ofExcept (loads (v.payload environment)))

theorem requestType_mem : v.lifecycle.requestType ∈ ["Create", "Update"] := by
  cases v.lifecycle with
  | onCreate => simp [Lifecycle.requestType]
  | onUpdate => simp [Lifecycle.requestType]

theorem loads_payload (environment : String) : Json.loads (v.payload environment) = some v.event := by
  have hpayload : v.payload environment =
      DocumentDb.payload v.lifecycle.requestType v.secretArn v.endpoint := by
    unfold payload
    cases v.lifecycle <;> rfl
  rw [hpayload]
  exact DocumentDb.loads_payload (plain_requestType _ v.requestType_mem) v.secretArn_plain
    v.endpoint_plain

end Invocation

/-- The call is a put to the secret, and it takes effect. -/
def stores (secretArn : String) : Call → Fault Exn → Bool
  | .putSecretValue _ _, .before _ => false
  | .putSecretValue (.str secretId) _, _ => secretId = secretArn
  | _, _ => false

/-- The secret is the text of a put that takes effect, and any other call leaves it alone. -/
theorem perform_of_stores {secretId : Json.Value} {text : String} {f : Fault Exn} {w : World}
    (h : stores w.secretArn (.putSecretValue secretId text) f = true) :
    (perform exec (.putSecretValue secretId text) f w).2 = { w with secretString := text } := by
  cases secretId with
  | str secretId =>
    cases f with
    | before e => simp [stores] at h
    | none =>
      have harn : secretId = w.secretArn := by simpa [stores] using h
      simp [exec, harn]
    | after e =>
      have harn : secretId = w.secretArn := by simpa [stores] using h
      simp [exec, harn]
  | _ => cases f <;> simp [stores] at h

theorem perform_of_not_stores {call : Call} {f : Fault Exn} {w : World}
    (h : stores w.secretArn call f = false) : (perform exec call f w).2 = w := by
  cases call with
  | client service => cases f <;> rfl
  | getSecretValue secretId =>
    have hexec : (exec (.getSecretValue secretId) w).2 = w := by
      cases secretId with
      | str secretId => by_cases harn : secretId = w.secretArn <;> simp [exec, harn]
      | _ => rfl
    cases f with
    | before e => rfl
    | none => exact hexec
    | after e => exact hexec
  | putSecretValue secretId text =>
    cases secretId with
    | str secretId =>
      cases f with
      | before e => rfl
      | none =>
        have harn : secretId ≠ w.secretArn := by simpa [stores] using h
        simp [exec, harn]
      | after e =>
        have harn : secretId ≠ w.secretArn := by simpa [stores] using h
        simp [exec, harn]
    | _ => cases f <;> rfl

section Pool

variable {ι : Type} (invocation : ι → Invocation)

/-- The endpoint of the last put among some calls that took effect; empty if there is none. -/
def lastEndpoint (secretArn : String) (calls : List (ι × Call × Fault Exn)) : String :=
  calls.foldl (fun endpoint (i, call, f) =>
    if stores secretArn call f then (invocation i).endpoint else endpoint) ""

theorem lastEndpoint_concat (secretArn : String) (calls : List (ι × Call × Fault Exn)) (i : ι)
    (call : Call) (f : Fault Exn) :
    lastEndpoint invocation secretArn (calls ++ [(i, call, f)]) =
      if stores secretArn call f then (invocation i).endpoint
      else lastEndpoint invocation secretArn calls := by
  simp [lastEndpoint, List.foldl_append]

/-- The invocations about to start, the secret as it is. -/
def launch (environment : String) (w : World) : Pool ι Call.Answer Exn World Json.Value where
  thread i := .start ((invocation i).program environment)
  state := w

end Pool

/-! ### The contract of an invocation -/

section Contract

variable (environment : Environment) (password secretArn : String)

/-- The secret has its shape, with some endpoint. -/
def Kept (w : World) : Prop :=
  w.secretArn = secretArn ∧ ∃ endpoint, HoldsSecret environment.name password endpoint w.secretString

/-- What a call of an invocation does to a secret that has its shape. -/
def Writes (v : Invocation) (call : Call) (f : Fault Exn) (w w' : World) : Prop :=
  Kept environment password secretArn w → w'.secretArn = secretArn ∧
    if stores secretArn call f then
      HoldsSecret environment.name password v.endpoint w'.secretString
    else w'.secretString = w.secretString

variable {environment password secretArn} {v : Invocation}

theorem Writes.kept {call : Call} {f : Fault Exn} {w w' : World}
    (h : Writes environment password secretArn v call f w w')
    (hw : Kept environment password secretArn w) :
    Kept environment password secretArn w' := by
  obtain ⟨harn, hsecret⟩ := h hw
  refine ⟨harn, ?_⟩
  by_cases hstores : stores secretArn call f = true
  · rw [if_pos hstores] at hsecret
    exact ⟨v.endpoint, hsecret⟩
  · rw [if_neg hstores] at hsecret
    rw [hsecret]
    exact hw.2

theorem kept_refl (w : World) (h : Kept environment password secretArn w) :
    Kept environment password secretArn w := h

theorem kept_trans {w w' w'' : World}
    (h : Kept environment password secretArn w → Kept environment password secretArn w')
    (h' : Kept environment password secretArn w' → Kept environment password secretArn w'')
    (hw : Kept environment password secretArn w) : Kept environment password secretArn w'' :=
  h' (h hw)

variable (environment password secretArn)

def contract (v : Invocation) : Contract Call Exn World where
  faults _ := True
  rely w w' := Kept environment password secretArn w → Kept environment password secretArn w'
  guar := Writes environment password secretArn v
  rely_refl := kept_refl
  rely_trans := kept_trans

theorem compatible_contract {ι : Type} (invocation : ι → Invocation) :
    Compatible fun i => contract environment password secretArn (invocation i) := by
  intro i j _ call f w w' hwrites hw
  exact Writes.kept hwrites hw

/-- The program keeps the contract, whatever it ends in. -/
def Keeps {α : Type} (v : Invocation) (p : Handler α) (w : World)
    (trace : List (Call × Fault Exn)) : Prop :=
  Meets exec (contract environment password secretArn v) (fun _ _ _ => True) p w trace

variable {environment password secretArn}

/-- A call that only reads, then the rest with its answer. -/
theorem keeps_read {α : Type} {call : Call} {f : call.Answer → Handler α} {w : World}
    {trace : List (Call × Fault Exn)} (hstores : ∀ fault, stores secretArn call fault = false)
    (hw : Kept environment password secretArn w)
    (h : ∀ w' a trace, Kept environment password secretArn w' → (exec call w').1 = .ok a →
      Keeps environment password secretArn v (f a) w' trace) :
    Keeps environment password secretArn v ((issue call).bind f) w trace := by
  refine Meets.bind (Meets.issue fun w' hrely fault _ => ?_)
  have hperform : (perform exec call fault w').2 = w' := by
    apply perform_of_not_stores
    rw [(hrely hw).1]
    exact hstores fault
  rw [hperform]
  refine ⟨fun hw' => ⟨hw'.1, ?_⟩, ?_⟩
  · rw [hstores]
    rfl
  · cases fault with
    | none =>
      rw [perform_none]
      cases hr : (exec call w').1 with
      | ok a => exact h w' a _ (hrely hw) hr
      | error e => trivial
    | before e => trivial
    | after e => trivial

/-- The body of the handler with the strings of its event. -/
theorem updateSecret_event (v : Invocation) :
    updateSecret v.event = (issue (.client "secretsmanager")).bind fun _ =>
      (issue (.getSecretValue (.str v.secretArn))).bind fun response =>
        (Prog.ofExcept (secretStringOf response)).bind fun text =>
          (Prog.ofExcept (loads text)).bind fun secret =>
            (Prog.ofExcept (assign secret "documentdb_endpoint" (.str v.endpoint))).bind fun secret =>
              issue (.putSecretValue (.str v.secretArn) (Json.dumps secret)) := by
  simp [updateSecret, Invocation.event, Prog.ofExcept]

theorem keeps_put {fields : Json.Fields} {endpoint : String} {w : World}
    {trace : List (Call × Fault Exn)}
    (hfields : fields.Perm (secretFields environment.name password endpoint)) :
    Keeps environment password secretArn v
      (issue (.putSecretValue (.str v.secretArn)
        (Json.dumps (.obj (Json.setItem "documentdb_endpoint" (.str v.endpoint) fields)))))
      w trace := by
  refine Meets.issue fun w' hrely fault _ => ⟨fun hw' => ?_, trivial⟩
  obtain ⟨rfl, -⟩ := hw'
  split_ifs with hstores
  · rw [perform_of_stores hstores]
    exact ⟨rfl, holdsSecret_dumps hfields v.endpoint⟩
  · rw [perform_of_not_stores (by simpa using hstores)]
    exact ⟨rfl, rfl⟩

theorem keeps_updateSecret {w : World} {trace : List (Call × Fault Exn)}
    (hw : Kept environment password secretArn w) :
    Keeps environment password secretArn v (updateSecret v.event) w trace := by
  rw [updateSecret_event]
  refine keeps_read (fun fault => by cases fault <;> rfl) hw ?_
  intro w _ trace hw _
  refine keeps_read (fun fault => by cases fault <;> rfl) hw ?_
  intro w response trace hw hresponse
  by_cases harn : v.secretArn = w.secretArn
  · obtain ⟨-, endpoint, fields, htext, hfields⟩ := hw
    have hanswer : response = some w.secretString := by
      simpa [exec, harn, eq_comm] using hresponse
    subst hanswer
    simp only [secretStringOf, Prog.ofExcept, Prog.ret_bind, loads_eq_ok htext, assign]
    exact keeps_put hfields
  · simp [exec, harn] at hresponse

theorem program_eq (v : Invocation) (environment : String) :
    v.program environment = (updateSecret v.event).bind fun _ =>
      .ret (.obj [("PhysicalResourceId", .str "UpdateSecretWithEndpoints")]) := by
  rw [Invocation.program, loads_eq_ok (v.loads_payload environment)]
  exact handler_eventOf v.requestType_mem v.secretArn v.endpoint

theorem keeps_program (v : Invocation) {w : World} {trace : List (Call × Fault Exn)}
    (hw : Kept environment password secretArn w) :
    Keeps environment password secretArn v (v.program environment.name) w trace := by
  rw [program_eq]
  refine Meets.bind ((keeps_updateSecret hw).mono fun r _ _ _ => ?_)
  cases r with
  | ok _ => trivial
  | error _ => trivial

end Contract

/-! ### Runs -/

section Runs

variable {ι : Type} (environment : Environment) (password secretArn : String)
  (invocation : ι → Invocation)

/-- The secret has its shape, and the endpoint of the last put among the calls that took effect. -/
def Follows (calls : List (ι × Call × Fault Exn)) (w : World) : Prop :=
  w.secretArn = secretArn ∧
    HoldsSecret environment.name password (lastEndpoint invocation secretArn calls) w.secretString

variable {environment password secretArn invocation}

/-- A call within the contract of its invocation keeps that. -/
theorem Follows.call {calls : List (ι × Call × Fault Exn)} {w w' : World} {i : ι} {call : Call}
    {f : Fault Exn} (h : Follows environment password secretArn invocation calls w)
    (hwrites : Writes environment password secretArn (invocation i) call f w w') :
    Follows environment password secretArn invocation (calls ++ [(i, call, f)]) w' := by
  obtain ⟨harn, hsecret⟩ := hwrites ⟨h.1, _, h.2⟩
  refine ⟨harn, ?_⟩
  rw [lastEndpoint_concat]
  by_cases hstores : stores secretArn call f = true
  · rw [if_pos hstores] at hsecret ⊢
    exact hsecret
  · rw [if_neg hstores] at hsecret ⊢
    rw [hsecret]
    exact h.2

theorem run_follows [DecidableEq ι] {w : World}
    (hsecret : HoldsSecret environment.name password "" w.secretString)
    (schedule : List (ι × Act Exn)) :
    Follows environment password w.secretArn invocation
      ((launch invocation environment.name w).log exec schedule)
      ((launch invocation environment.name w).run exec schedule).state := by
  have hmeets : (launch invocation environment.name w).Meets exec
      (fun i => contract environment password w.secretArn (invocation i)) fun _ _ _ _ => True := by
    intro i prog hprog
    obtain rfl := Option.some.inj hprog
    exact keeps_program (invocation i) ⟨rfl, "", hsecret⟩
  have hstart : Follows environment password w.secretArn invocation []
      (launch invocation environment.name w).state := ⟨rfl, hsecret⟩
  exact Pool.run_log_induction (compatible_contract environment password w.secretArn invocation)
    (fun _ _ _ _ _ _ h => h) hmeets (fun _ _ _ => trivial) hstart
    fun _ _ _ _ _ h _ hwrites => h.call hwrites

end Runs

/-- Each payload is read back as what it was rendered from. Under every schedule of the invocations,
with any call failing before or after it takes effect and any invocation killed, the secret has the
fields and the values it was generated with, and the endpoint of the last put that took effect. -/
theorem secret_keeps_shape {ι : Type} [DecidableEq ι] (environment : Environment) (password : String)
    (invocation : ι → Invocation) (w : World)
    (hw : Generates (secretStringTemplate environment.name) "password" password w.secretString)
    (schedule : List (ι × Act Exn)) :
    (∀ i, Json.loads ((invocation i).payload environment.name) = some (invocation i).event) ∧
    HoldsSecret environment.name password
      (lastEndpoint invocation w.secretArn
        ((launch invocation environment.name w).log exec schedule))
      ((launch invocation environment.name w).run exec schedule).state.secretString :=
  ⟨fun i => (invocation i).loads_payload environment.name,
    (run_follows (holdsSecret_of_generates hw) schedule).2⟩

/-- One invocation reads the secret, another (`true`) passes it, and then the first puts what it has, in
a call that raises all the same. -/
def overlap (e : Exn) : List (Bool × Act Exn) :=
  [(false, .call .none), (false, .call .none), (true, .call .none), (true, .call .none),
    (true, .call .none), (false, .call (.after e))]

/-- The last word has the one that puts last, however old what it read is. -/
theorem lastEndpoint_overlap {invocation : Bool → Invocation} {w : World} {fields : Json.Fields}
    (harn : ∀ i, (invocation i).secretArn = w.secretArn)
    (hloads : loads w.secretString = .ok (.obj fields)) (environment : String) (e : Exn) :
    lastEndpoint invocation w.secretArn ((launch invocation environment w).log exec (overlap e)) =
      (invocation false).endpoint := by
  simp [overlap, launch, Pool.log, Pool.step, Thread.issued, Thread.step, Thread.start, program_eq,
    updateSecret_event, issue, Prog.issue, Function.update, exec, secretStringOf, Prog.ofExcept, harn,
    hloads, assign, lastEndpoint, stores]

/-- The secret of `prod` as `json.dumps` writes it. -/
def prodSecretWorld : World where
  secretArn := "arn:prod-DocumentDBSecret"
  secretString := Json.dumps (.obj (secretFields Environment.prod.name "aB3dE5fG7hJ9" ""))

theorem plain_prod : ∀ text ∈ [prodSecretWorld.secretArn, "old.amazonaws.com", "new.amazonaws.com"],
    Json.PlainText text := by
  decide +kernel

/-- A creation with an old endpoint, and an update with a new one. -/
def prodInvocation : Bool → Invocation
  | false => ⟨.onCreate, prodSecretWorld.secretArn, "old.amazonaws.com", plain_prod _ (by simp),
      plain_prod _ (by simp)⟩
  | true => ⟨.onUpdate, prodSecretWorld.secretArn, "new.amazonaws.com", plain_prod _ (by simp),
      plain_prod _ (by simp)⟩

theorem secret_keeps_shape_prod :
    HoldsSecret Environment.prod.name "aB3dE5fG7hJ9" "old.amazonaws.com"
      ((launch prodInvocation Environment.prod.name prodSecretWorld).run exec
        (overlap (.external "timed out"))).state.secretString := by
  have harn : ∀ i, (prodInvocation i).secretArn = prodSecretWorld.secretArn := by
    intro i
    cases i <;> rfl
  have hloads := loads_eq_ok
    (Json.loads_dumps (canonical_secretFields Environment.prod.name "aB3dE5fG7hJ9" ""))
  have hgenerates := generates_of_generateSecretString
    (generateSecretString_template .prod "aB3dE5fG7hJ9")
  have hlast := lastEndpoint_overlap harn hloads Environment.prod.name (.external "timed out")
  have hshape := (secret_keeps_shape .prod "aB3dE5fG7hJ9" prodInvocation prodSecretWorld hgenerates
    (overlap (.external "timed out"))).2
  rw [hlast] at hshape
  exact hshape

end ModulithInfra.DocumentDb
