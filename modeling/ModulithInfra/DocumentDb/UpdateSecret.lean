import ModulithInfra.App.Names
import ModulithInfra.Postgres.Handler

/-!
# The DocumentDB endpoint in the secret

`DocumentDBStack` has an inline Lambda that writes the cluster endpoint into the stored secret, and a
custom resource `UpdateSecretWithEndpoints` that is to invoke it: an `AwsSdkCall` with a payload put
together from text, which `AwsCustomResource` carries out and reports on. `run` is a creation of the
resource and any number of updates, with any AWS call failing; each step keeps a record of the AWS
calls it made.

The SDK call names its service with the environment in front of it. No environment makes that the
name of Lambda, so that no step ever makes an AWS call: none fails, and yet every step does
(`not_endToEnd`).
-/

namespace ModulithInfra.DocumentDb

open Calls Text
open App (Name.updateSecretFunction)
open Postgres (Exn subscript)

/-! ### The stored secret -/

def documentDbMasterUser (environment : String) : String := environment ++ "-docadmin"

def secretStringTemplate (environment : String) : String :=
  "\x7b\"username\":\"" ++ documentDbMasterUser environment ++
    "\", \"port\": 27017, \"documentdb_endpoint\": \"\"\x7d"

/-- What Secrets Manager stores: the template with the generated string under its key. -/
def generateSecretString (template key generated : String) : Option String :=
  match Json.loads template with
  | some (.obj fields) => some (Json.dumps (.obj (Json.setItem key (.str generated) fields)))
  | _ => none

structure World where
  secretArn : String
  secretString : String
  deriving DecidableEq

/-- The `documentdb_endpoint` of the stored secret. -/
def World.documentDbEndpoint (w : World) : Option String :=
  match Json.loads w.secretString with
  | some (.obj fields) =>
    match Json.getItem "documentdb_endpoint" fields with
    | some (.str endpoint) => some endpoint
    | _ => none
  | _ => none

/-! ### The handler -/

inductive Call : Type where
  | client (service : String)
  | getSecretValue (secretId : Json.Value)
  | putSecretValue (secretId : Json.Value) (secretString : String)

/-- What a call answers when it does not raise; a secret may have no `SecretString`. -/
abbrev Call.Answer : Call → Type
  | .client _ => Unit
  | .getSecretValue _ => Option String
  | .putSecretValue _ _ => Unit

def loads (text : String) : Except Exn Json.Value :=
  match Json.loads text with
  | some v => .ok v
  | none => .error (.external "Expecting value")

theorem loads_eq_ok {text : String} {value : Json.Value} (h : Json.loads text = some value) :
    loads text = .ok value := by
  simp only [loads, h]

/-- `secret[key] = v`. -/
def assign (secret : Json.Value) (key : String) (v : Json.Value) : Except Exn Json.Value :=
  match secret with
  | .obj fields => .ok (.obj (Json.setItem key v fields))
  | _ => .error (.typeError "object does not support item assignment")

/-- `event['ResourceProperties'][key]`. -/
def resourceProperty (event : Json.Value) (key : String) : Except Exn Json.Value := do
  subscript (← subscript event "ResourceProperties") key

/-- `response['SecretString']`. -/
def secretStringOf : Option String → Except Exn String
  | some text => .ok text
  | none => .error (.keyError "SecretString")

/-- `v in names`. -/
def isIn (v : Json.Value) (names : List String) : Bool :=
  match v with
  | .str s => names.contains s
  | _ => false

abbrev Handler := Prog Call.Answer Exn

abbrev issue (call : Call) : Handler call.Answer := Prog.issue call

/-- The body of the `if`. -/
def updateSecret (event : Json.Value) : Handler Unit := do
  issue (.client "secretsmanager")
  let response ← issue (.getSecretValue (← .ofExcept (resourceProperty event "SecretArn")))
  let secret ← .ofExcept (loads (← .ofExcept (secretStringOf response)))
  let endpoint ← .ofExcept (resourceProperty event "DocumentDbEndpoint")
  let secret ← .ofExcept (assign secret "documentdb_endpoint" endpoint)
  issue (.putSecretValue (← .ofExcept (resourceProperty event "SecretArn")) (Json.dumps secret))

def handler (event : Json.Value) : Handler Json.Value := do
  let requestType ← .ofExcept (subscript event "RequestType")
  if isIn requestType ["Create", "Update"] then
    updateSecret event
  return .obj [("PhysicalResourceId", .str "UpdateSecretWithEndpoints")]

/-- The role of the Lambda may read and write the one secret. -/
def exec : (call : Call) → World → Except Exn call.Answer × World
  | .client _, w => (.ok (), w)
  | .getSecretValue (.str secretId), w =>
    if secretId = w.secretArn then (.ok (some w.secretString), w)
    else (.error (.external "AccessDeniedException"), w)
  | .putSecretValue (.str secretId) secretString, w =>
    if secretId = w.secretArn then (.ok (), { w with secretString })
    else (.error (.external "AccessDeniedException"), w)
  | .getSecretValue _, w => (.error (.external "ParamValidationError"), w)
  | .putSecretValue _ _, w => (.error (.external "ParamValidationError"), w)

/-! ### The custom resource -/

structure AwsSdkCall where
  service : String
  action : String
  functionName : String
  payload : String
  physicalResourceId : String

/-- The `Fn.join` of a payload. -/
def payload (requestType secretArn endpoint : String) : String :=
  String.join
    ["\x7b\"RequestType\":\"" ++ requestType ++ "\",\"ResourceProperties\":\x7b\"SecretArn\":\"",
      secretArn, "\",\"DocumentDbEndpoint\":\"", endpoint, "\"\x7d\x7d"]

def sdkCall (requestType environment secretArn endpoint : String) : AwsSdkCall where
  service := environment ++ "-Lambda"
  action := "invoke"
  functionName := Name.updateSecretFunction environment
  payload := payload requestType secretArn endpoint
  physicalResourceId := "UpdateSecretWithEndpoints"

def onCreate (environment secretArn endpoint : String) : AwsSdkCall :=
  sdkCall "Create" environment secretArn endpoint

def onUpdate (environment secretArn endpoint : String) : AwsSdkCall :=
  sdkCall "Update" environment secretArn endpoint

/-- What goes wrong with the AWS calls of one step, as far as it makes them. -/
structure Faults where
  invoke : Fault Exn
  getSecretValue : Fault Exn
  putSecretValue : Fault Exn
  deriving DecidableEq

def Faults.ofCall (faults : Faults) : Call → Fault Exn
  | .client _ => .none
  | .getSecretValue _ => faults.getSecretValue
  | .putSecretValue _ _ => faults.putSecretValue

/-- A call to AWS: that of the custom resource, or one of the handler to Secrets Manager. -/
inductive AwsCall : Type where
  | invoke (call : AwsSdkCall)
  | secretsManager (call : Call)

/-- A client is made without a call. -/
def AwsCall.ofCall : Call → List AwsCall
  | .client _ => []
  | call => [.secretsManager call]

/-- An AWS call that was made, and what it raised. -/
structure Made where
  call : AwsCall
  error : Option Exn

def errorOf {α : Type} : Except Exn α → Option Exn
  | .ok _ => none
  | .error e => some e

/-- The world, and the AWS calls made so far. -/
structure Account where
  world : World
  made : List Made

/-- A call of the handler, put on record. -/
def callAws (faults : Faults) (call : Call) (a : Account) : Except Exn call.Answer × Account :=
  let r := perform exec call (faults.ofCall call) a.world
  (r.1, ⟨r.2, a.made ++ (AwsCall.ofCall call).map (⟨·, errorOf r.1⟩)⟩)

/-- The `FunctionError` of an answer of Lambda: what the handler raised. -/
abbrev FunctionError := Option Exn

/-- The handler on an event; whatever it does, Lambda has an answer. -/
def runHandler (faults : Faults) (event : Json.Value) (a : Account) :
    Except Exn FunctionError × Account :=
  let o := (handler event).eval (callAws faults) a
  (.ok (errorOf o.result), o.state)

/-- Lambda `Invoke`. -/
def invoke (environment : String) (call : AwsSdkCall) (faults : Faults) (a : Account) :
    Except Exn FunctionError × Account :=
  if call.functionName = Name.updateSecretFunction environment then
    match loads call.payload with
    | .ok event => perform (runHandler faults) event faults.invoke a
    | .error _ => (.error (.external "InvalidRequestContentException"), a)
  else (.error (.external "ResourceNotFoundException"), a)

/-- What `AwsCustomResource` reports to CloudFormation. -/
inductive Response : Type where
  | success (physicalResourceId : String)
  | failed (reason : Exn)
  deriving DecidableEq

/-- `AwsCustomResource` carries a call out if its service, ignoring case, is that of an SDK client,
here Lambda with its action `invoke`, and succeeds exactly when that call resolves. -/
def carryOut (environment : String) (call : AwsSdkCall) (faults : Faults) (w : World) :
    Response × Account :=
  if ignoreCase call.service = ignoreCase "Lambda" ∧ call.action = "invoke" then
    let r := invoke environment call faults ⟨w, []⟩
    let a := { r.2 with made := ⟨.invoke call, errorOf r.1⟩ :: r.2.made }
    match r.1 with
    | .ok _ => (.success call.physicalResourceId, a)
    | .error e => (.failed e, a)
  else (.failed (.external "Package does not exist"), ⟨w, []⟩)

/-! ### Runs -/

/-- A creation or an update of the resource: the endpoint of the cluster then, and what goes wrong. -/
structure Step where
  endpoint : String
  faults : Faults

/-- A step carried out: what was reported, the world after it, and the AWS calls it made. -/
structure Report where
  step : Step
  response : Response
  after : World
  made : List Made

def report (environment : String) (call : AwsSdkCall) (w : World) (s : Step) : Report :=
  let r := carryOut environment call s.faults w
  ⟨s, r.1, r.2.world, r.2.made⟩

def create (environment : String) (w : World) (s : Step) : Report :=
  report environment (onCreate environment w.secretArn s.endpoint) w s

def update (environment : String) (w : World) (s : Step) : Report :=
  report environment (onUpdate environment w.secretArn s.endpoint) w s

def updates (environment : String) : World → List Step → List Report
  | _, [] => []
  | w, s :: rest =>
    update environment w s :: updates environment (update environment w s).after rest

/-- One creation, then updates. -/
def run (environment : String) (w : World) (first : Step) (rest : List Step) : List Report :=
  create environment w first :: updates environment (create environment w first).after rest

namespace Report

def Succeeded (r : Report) : Prop := ∃ physicalResourceId, r.response = .success physicalResourceId

/-- The secret has the endpoint of the step. -/
def Delivered (r : Report) : Prop := r.after.documentDbEndpoint = some r.step.endpoint

/-- No AWS call of the step failed. -/
def Unfailing (r : Report) : Prop := ∀ m ∈ r.made, m.error = none

/-- A Secrets Manager call inside the handler failed. -/
def FailedInHandler (r : Report) : Prop :=
  ∃ call e, (⟨.secretsManager call, some e⟩ : Made) ∈ r.made

end Report

/-- The endpoint reaches the secret: in a run where no AWS call fails every step succeeds and
delivers, and no step whose handler has a Secrets Manager call fail succeeds without delivering. -/
def EndToEnd (environment : String) (w : World) (first : Step) (rest : List Step) : Prop :=
  ((∀ r ∈ run environment w first rest, r.Unfailing) →
    ∀ r ∈ run environment w first rest, r.Succeeded ∧ r.Delivered) ∧
  ∀ r ∈ run environment w first rest, r.FailedInHandler → ¬ (r.Succeeded ∧ ¬ r.Delivered)

/-! ### The handler behind the call -/

/-- The event of a payload. -/
def eventOf (requestType secretArn endpoint : String) : Json.Value :=
  .obj [("RequestType", .str requestType),
    ("ResourceProperties", .obj [("SecretArn", .str secretArn), ("DocumentDbEndpoint", .str endpoint)])]

/-- The text of the resource properties after their opening brace, up to the end of the payload. -/
def propertiesText (secretArn endpoint : String) : List Char :=
  '"' :: ("SecretArn".toList ++ '"' :: ':' :: '"' :: (secretArn.toList ++ '"' :: ',' :: '"' ::
    ("DocumentDbEndpoint".toList ++ '"' :: ':' :: '"' :: (endpoint.toList ++ ['"', '}', '}']))))

theorem payload_toList (requestType secretArn endpoint : String) :
    (payload requestType secretArn endpoint).toList =
      '{' :: '"' :: ("RequestType".toList ++ '"' :: ':' :: '"' :: (requestType.toList ++ '"' :: ',' ::
        '"' :: ("ResourceProperties".toList ++ '"' :: ':' :: '{' :: propertiesText secretArn endpoint))) := by
  simp [payload, String.join, propertiesText]

theorem plain_key :
    ∀ key ∈ ["RequestType", "ResourceProperties", "SecretArn", "DocumentDbEndpoint"],
      Json.PlainText key := by
  decide +kernel

theorem plain_requestType : ∀ name ∈ ["Create", "Update"], Json.PlainText name := by
  decide +kernel

theorem value_properties {secretArn endpoint : String} (harn : Json.PlainText secretArn)
    (hendpoint : Json.PlainText endpoint) (fuel : Nat) :
    Json.value (fuel + 4) ('{' :: propertiesText secretArn endpoint) =
      some (.obj [("SecretArn", .str secretArn), ("DocumentDbEndpoint", .str endpoint)], ['}']) := by
  rw [propertiesText, Json.value_object,
    Json.members_next (plain_key _ (by simp)) (by decide) _ (Json.value_string harn _ _),
    Json.members_last (plain_key _ (by simp)) (by decide) _ (Json.value_string hendpoint _ _)]
  simp [Json.setItem]

/-- A payload of plain texts is read back as its event. -/
theorem loads_payload {requestType secretArn endpoint : String}
    (hrequest : Json.PlainText requestType) (harn : Json.PlainText secretArn)
    (hendpoint : Json.PlainText endpoint) :
    Json.loads (payload requestType secretArn endpoint) =
      some (eventOf requestType secretArn endpoint) := by
  have hvalue : ∀ fuel, Json.value (fuel + 7) (payload requestType secretArn endpoint).toList =
      some (eventOf requestType secretArn endpoint, []) := by
    intro fuel
    rw [payload_toList, Json.value_object,
      Json.members_next (plain_key _ (by simp)) (by decide) _ (Json.value_string hrequest _ _),
      Json.members_last (plain_key _ (by simp)) (by decide) _ (value_properties harn hendpoint _)]
    simp [Json.setItem, eventOf]
  have hopen := payload_toList requestType secretArn endpoint
  -- the text is long enough for its three levels
  have hlength : 7 ≤ (payload requestType secretArn endpoint).toList.length + 1 := by
    simp [hopen]
  exact Json.loads_of_value hopen hlength hvalue

@[simp] theorem resourceProperty_secretArn (requestType secretArn endpoint : String) :
    resourceProperty (eventOf requestType secretArn endpoint) "SecretArn" = .ok (.str secretArn) := rfl

@[simp] theorem resourceProperty_endpoint (requestType secretArn endpoint : String) :
    resourceProperty (eventOf requestType secretArn endpoint) "DocumentDbEndpoint" =
      .ok (.str endpoint) := rfl

/-- On an event of a creation or an update the handler updates the secret. -/
theorem handler_eventOf {requestType : String} (h : requestType ∈ ["Create", "Update"])
    (secretArn endpoint : String) :
    handler (eventOf requestType secretArn endpoint) =
      (updateSecret (eventOf requestType secretArn endpoint)).bind fun _ =>
        .ret (.obj [("PhysicalResourceId", .str "UpdateSecretWithEndpoints")]) := by
  have hsubscript : subscript (eventOf requestType secretArn endpoint) "RequestType" =
      .ok (.str requestType) := rfl
  have hin : isIn (.str requestType) ["Create", "Update"] = true := by
    simpa [isIn] using h
  simp [handler, hsubscript, Prog.ofExcept, hin]

/-! ### No step gets to the handler -/

/-- The name is longer than that of Lambda. -/
theorem service_ne_lambda (requestType environment secretArn endpoint : String) :
    ignoreCase (sdkCall requestType environment secretArn endpoint).service ≠ ignoreCase "Lambda" := by
  intro h
  have hlength := congrArg List.length h
  simp [sdkCall, ignoreCase] at hlength

theorem carryOut_sdkCall (requestType environment secretArn endpoint : String) (faults : Faults)
    (w : World) :
    carryOut environment (sdkCall requestType environment secretArn endpoint) faults w =
      (.failed (.external "Package does not exist"), ⟨w, []⟩) := by
  have hservice := service_ne_lambda requestType environment secretArn endpoint
  exact if_neg fun h => hservice h.1

/-- The step failed without an AWS call and left the world alone. -/
structure Report.Refused (r : Report) (w : World) : Prop where
  failed : ¬ r.Succeeded
  after : r.after = w
  made : r.made = []

theorem Report.Refused.unfailing {r : Report} {w : World} (h : r.Refused w) : r.Unfailing := by
  intro m hm
  rw [h.made] at hm
  cases hm

theorem refused_report (requestType environment : String) (w : World) (s : Step) :
    (report environment (sdkCall requestType environment w.secretArn s.endpoint) w s).Refused w := by
  have hcarryOut := carryOut_sdkCall requestType environment w.secretArn s.endpoint s.faults w
  refine ⟨?_, ?_, ?_⟩ <;> simp [report, hcarryOut, Report.Succeeded]

/-- Every step of a run is refused. -/
theorem run_refused (environment : String) (w : World) (first : Step) (rest : List Step) :
    ∀ r ∈ run environment w first rest, r.Refused w := by
  have hupdates : ∀ r ∈ updates environment w rest, r.Refused w := by
    induction rest with
    | nil => simp [updates]
    | cons s rest ih =>
      have hs : (update environment w s).Refused w := refused_report "Update" environment w s
      intro r hr
      rw [updates, hs.after] at hr
      rcases List.mem_cons.mp hr with rfl | hr
      · exact hs
      · exact ih r hr
  have hfirst : (create environment w first).Refused w :=
    refused_report "Create" environment w first
  intro r hr
  rw [run, hfirst.after] at hr
  rcases List.mem_cons.mp hr with rfl | hr
  · exact hfirst
  · exact hupdates r hr

/-- In no environment does the endpoint reach the secret in any run: every step of it fails without
having made an AWS call, let alone one that failed, and leaves the secret as it was. -/
theorem not_endToEnd (environment : String) (w : World) (first : Step) (rest : List Step) :
    (∀ r ∈ run environment w first rest, r.Refused w) ∧
      ¬ EndToEnd environment w first rest := by
  have hrefused := run_refused environment w first rest
  refine ⟨hrefused, fun h => ?_⟩
  have hunfailing := fun r hr => (hrefused r hr).unfailing
  have hmem : create environment w first ∈ run environment w first rest := List.mem_cons_self
  exact (hrefused _ hmem).failed (h.1 hunfailing _ hmem).1

/-- The secret of `prod` as it is first stored. -/
def prodWorld : World where
  secretArn := "arn:aws:secretsmanager:us-east-1:123456789012:secret:prod-DocumentDBSecret"
  secretString :=
    "\x7b\"username\": \"prod-docadmin\", \"port\": 27017, \"documentdb_endpoint\": \"\", \"password\": \"aB3dE5fG7hJ9\"\x7d"

/-- The creation of the resource in `prod`, with nothing to go wrong. -/
def prodCreation : Step where
  endpoint := "prod-documentdb-cluster.cluster-abc.us-east-1.docdb.amazonaws.com"
  faults := ⟨.none, .none, .none⟩

theorem not_endToEnd_prod :
    generateSecretString (secretStringTemplate "prod") "password" "aB3dE5fG7hJ9" =
      some prodWorld.secretString ∧
    ¬ EndToEnd "prod" prodWorld prodCreation [] := by
  refine ⟨by decide +kernel, fun h => ?_⟩
  have hrefused := run_refused "prod" prodWorld prodCreation []
  have hmem : create "prod" prodWorld prodCreation ∈ run "prod" prodWorld prodCreation [] :=
    List.mem_cons_self
  have hunfailing := fun r hr => (hrefused r hr).unfailing
  exact (hrefused _ hmem).failed (h.1 hunfailing _ hmem).1

end ModulithInfra.DocumentDb
