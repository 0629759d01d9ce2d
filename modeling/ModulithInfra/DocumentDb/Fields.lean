import ModulithInfra.DocumentDb.Shape
import ModulithInfra.Json.Loaded

/-!
# The other fields of the secret

The handler of the endpoint reads the whole secret and writes it back. This file says what that does
to its other fields, under any number of overlapping invocations with any endpoints, calls that fail
and invocations that are killed.

Whatever one invocation reads is the original secret or what another one made of it, and assigning the
endpoint to either gives the same fields. So the secret is the original text until a put takes effect,
and from then on the original fields with the endpoint of the last put (`secret_keeps_fields`). A
secret that is no object is never written.

The events and the secret have no fractional number, and the text of the secret escapes no half of a
surrogate pair: such values `loads` and `dumps` do not treat as Python does.
-/

namespace ModulithInfra.DocumentDb

open Calls
open Postgres (Exn subscript)

/-- The text that is put for a secret with some fields. -/
def withEndpoint (fields : Json.Fields) (endpoint : Json.Value) : String :=
  Json.dumps (.obj (Json.setItem "documentdb_endpoint" endpoint fields))

/-- The secret is as it was, or as an invocation made it. -/
def Stands (original text : String) : Prop :=
  text = original ∨ ∃ fields endpoint, Json.loads original = some (.obj fields) ∧
    Json.Canonical endpoint ∧ text = withEndpoint fields endpoint

/-- The secret reads as it does in Python, and its fields can be written and read again. -/
structure Rewritable (original : String) : Prop where
  paired : Json.Paired original
  floatFree : ∀ fields, Json.loads original = some (.obj fields) → Json.FloatFree (.obj fields)

theorem loads_withEndpoint {original : String} (hrewritable : Rewritable original)
    {fields : Json.Fields} (hloads : Json.loads original = some (.obj fields)) {endpoint : Json.Value}
    (hendpoint : Json.Canonical endpoint) : Json.loads (withEndpoint fields endpoint) =
      some (.obj (Json.setItem "documentdb_endpoint" endpoint fields)) :=
  Json.loads_dumps (Json.canonical_setItem
    (Json.canonical_of_loads hloads (hrewritable.floatFree fields hloads)) hendpoint _)

theorem rewritable_dumps {fields : Json.Fields} (hcanonical : Json.Canonical (.obj fields))
    (hfloat : Json.FloatFree (.obj fields)) : Rewritable (Json.dumps (.obj fields)) := by
  refine ⟨Json.paired_dumps hfloat, fun fields' hloads => ?_⟩
  rw [Json.loads_dumps hcanonical] at hloads
  obtain rfl := Json.Value.obj.inj (Option.some.inj hloads)
  exact hfloat

/-- Whichever of the two was read, the same is put. -/
theorem Stands.withEndpoint_eq {original text : String} (hrewritable : Rewritable original)
    (h : Stands original text) {fields : Json.Fields} (hloads : Json.loads text = some (.obj fields)) :
    ∃ fields₀, Json.loads original = some (.obj fields₀) ∧
      ∀ endpoint, withEndpoint fields endpoint = withEndpoint fields₀ endpoint := by
  rcases h with rfl | ⟨fields₀, endpoint₀, horiginal, hcanonical, rfl⟩
  · exact ⟨fields, hloads, fun _ => rfl⟩
  · rw [loads_withEndpoint hrewritable horiginal hcanonical] at hloads
    obtain rfl := Json.Value.obj.inj (Option.some.inj hloads)
    refine ⟨fields₀, horiginal, fun endpoint => ?_⟩
    rw [withEndpoint, withEndpoint, Json.setItem_setItem]

/-! ### Values of an event -/

theorem canonical_subscript {v v' : Json.Value} (hv : Json.Canonical v) {key : String}
    (h : subscript v key = .ok v') : Json.Canonical v' := by
  cases v with
  | obj fields =>
    cases hitem : Json.getItem key fields with
    | none => simp [subscript, hitem] at h
    | some w =>
      simp only [subscript, hitem] at h
      obtain rfl := Except.ok.inj h
      exact Json.canonicalFields_iff.mp hv.2 _ (Json.mem_of_getItem hitem)
  | _ => cases h

theorem canonical_resourceProperty {event v : Json.Value} (hevent : Json.Canonical event)
    {key : String} (h : resourceProperty event key = .ok v) : Json.Canonical v := by
  unfold resourceProperty at h
  cases hproperties : subscript event "ResourceProperties" with
  | error e => simp [hproperties, bind, Except.bind] at h
  | ok properties =>
    rw [hproperties] at h
    exact canonical_subscript (canonical_subscript hevent hproperties) h

/-! ### Answers -/

theorem exec_getSecretValue {secretId : Json.Value} {w : World} {response : Option String}
    (h : (exec (.getSecretValue secretId) w).1 = .ok response) : response = some w.secretString := by
  cases secretId with
  | str secretId =>
    simp only [exec] at h
    split_ifs at h
    exact (Except.ok.inj h).symm
  | _ => cases h

theorem eq_of_loads {text : String} {v : Json.Value} (h : loads text = .ok v) :
    Json.loads text = some v := by
  unfold loads at h
  cases hloads : Json.loads text with
  | none => simp [hloads] at h
  | some v' =>
    simp only [hloads] at h
    rw [Except.ok.inj h]

/-! ### The contract of an invocation -/

section Contract

variable (original secretArn : String)

/-- What a call of an invocation does to a secret that stands. -/
def Rewrites (event : Json.Value) (call : Call) (f : Fault Exn) (w w' : World) : Prop :=
  w.secretArn = secretArn ∧ Stands original w.secretString → w'.secretArn = secretArn ∧
    if stores secretArn call f then
      ∃ fields endpoint, Json.loads original = some (.obj fields) ∧
        resourceProperty event "DocumentDbEndpoint" = .ok endpoint ∧
        w'.secretString = withEndpoint fields endpoint
    else w'.secretString = w.secretString

/-- The secret goes on standing. -/
def Standing (w w' : World) : Prop :=
  w.secretArn = secretArn ∧ Stands original w.secretString →
    w'.secretArn = secretArn ∧ Stands original w'.secretString

def fieldsContract (event : Json.Value) : Contract Call Exn World where
  faults _ := True
  rely := Standing original secretArn
  guar := Rewrites original secretArn event
  rely_refl _ h := h
  rely_trans h h' hw := h' (h hw)

variable {original secretArn}

theorem Rewrites.standing {event : Json.Value} (hevent : Json.Canonical event) {call : Call}
    {f : Fault Exn} {w w' : World} (h : Rewrites original secretArn event call f w w') :
    Standing original secretArn w w' := by
  intro hw
  obtain ⟨harn, hsecret⟩ := h hw
  refine ⟨harn, ?_⟩
  split_ifs at hsecret
  · obtain ⟨fields, endpoint, hloads, hendpoint, htext⟩ := hsecret
    exact .inr ⟨fields, endpoint, hloads, canonical_resourceProperty hevent hendpoint, htext⟩
  · rw [hsecret]
    exact hw.2

/-- The program keeps the contract, whatever it ends in. -/
def KeepsFields (original secretArn : String) {α : Type} (event : Json.Value) (p : Handler α)
    (w : World) (trace : List (Call × Fault Exn)) : Prop :=
  Meets exec (fieldsContract original secretArn event) (fun _ _ _ => True) p w trace

variable {event : Json.Value} {w : World} {trace : List (Call × Fault Exn)}

theorem keepsFields_ofExcept {α β : Type} {x : Except Exn α} {f : α → Handler β}
    (h : ∀ a, x = .ok a → KeepsFields original secretArn event (f a) w trace) :
    KeepsFields original secretArn event (.ofExcept x >>= f) w trace := by
  cases x with
  | ok a => exact h a rfl
  | error e => trivial

/-- A call that only reads, then the rest with its answer. -/
theorem keepsFields_read {α : Type} {call : Call} {f : call.Answer → Handler α}
    (hstores : ∀ fault, stores secretArn call fault = false)
    (hw : w.secretArn = secretArn ∧ Stands original w.secretString)
    (h : ∀ w' a trace, w'.secretArn = secretArn ∧ Stands original w'.secretString →
      (exec call w').1 = .ok a → KeepsFields original secretArn event (f a) w' trace) :
    KeepsFields original secretArn event (issue call >>= f) w trace := by
  refine Meets.bind (Meets.issue fun w' hrely fault _ => ?_)
  have hperform : (perform exec call fault w').2 = w' := by
    apply perform_of_not_stores
    rw [(hrely hw).1]
    exact hstores fault
  rw [hperform]
  refine ⟨fun hw' => ⟨hw'.1, ?_⟩, ?_⟩
  · rw [hstores]
    rfl
  · cases fault with
    | none =>
      rw [perform_none]
      cases hr : (exec call w').1 with
      | ok a => exact h w' a _ (hrely hw) hr
      | error e => trivial
    | before e => trivial
    | after e => trivial

theorem keepsFields_put (hrewritable : Rewritable original) {text : String}
    (htext : Stands original text) {fields : Json.Fields}
    (hloads : Json.loads text = some (.obj fields)) {endpoint : Json.Value}
    (hendpoint : resourceProperty event "DocumentDbEndpoint" = .ok endpoint)
    (secretId : Json.Value) :
    KeepsFields original secretArn event
      (issue (.putSecretValue secretId (withEndpoint fields endpoint))) w trace := by
  obtain ⟨fields₀, horiginal, heq⟩ := htext.withEndpoint_eq hrewritable hloads
  refine Meets.issue fun w' hrely fault _ => ⟨fun hw' => ?_, trivial⟩
  obtain ⟨rfl, -⟩ := hw'
  split_ifs with hstores
  · rw [perform_of_stores hstores]
    exact ⟨rfl, fields₀, endpoint, horiginal, hendpoint, heq endpoint⟩
  · rw [perform_of_not_stores (by simpa using hstores)]
    exact ⟨rfl, rfl⟩

theorem keepsFields_updateSecret (hrewritable : Rewritable original)
    (hw : w.secretArn = secretArn ∧ Stands original w.secretString) :
    KeepsFields original secretArn event (updateSecret event) w trace := by
  refine keepsFields_read (fun fault => by cases fault <;> rfl) hw fun w _ trace hw _ => ?_
  refine keepsFields_ofExcept fun secretId _ => ?_
  refine keepsFields_read (fun fault => by cases fault <;> rfl) hw fun w response trace hw hread => ?_
  refine keepsFields_ofExcept fun text htext => ?_
  refine keepsFields_ofExcept fun secret hsecret => ?_
  refine keepsFields_ofExcept fun endpoint hendpoint => ?_
  refine keepsFields_ofExcept fun secret' hassign => ?_
  refine keepsFields_ofExcept fun secretId' _ => ?_
  obtain rfl := exec_getSecretValue hread
  obtain rfl := Except.ok.inj htext
  cases secret with
  | obj fields =>
    obtain rfl := Except.ok.inj hassign
    exact keepsFields_put hrewritable hw.2 (eq_of_loads hsecret) hendpoint secretId'
  | _ => cases hassign

theorem keepsFields_handler (hrewritable : Rewritable original)
    (hw : w.secretArn = secretArn ∧ Stands original w.secretString) :
    KeepsFields original secretArn event (handler event) w trace := by
  refine keepsFields_ofExcept fun requestType _ => ?_
  split_ifs
  · refine Meets.bind ((keepsFields_updateSecret hrewritable hw).mono fun r _ _ _ => ?_)
    cases r with
    | ok _ => trivial
    | error _ => trivial
  · trivial

end Contract

/-! ### Runs -/

section Runs

variable {ι : Type}

/-- The invocation whose put to the secret took effect last among some calls. -/
def lastWriter (secretArn : String) (calls : List (ι × Call × Fault Exn)) : Option ι :=
  calls.foldl (fun last (i, call, f) => if stores secretArn call f then some i else last) none

theorem lastWriter_concat (secretArn : String) (calls : List (ι × Call × Fault Exn)) (i : ι)
    (call : Call) (f : Fault Exn) :
    lastWriter secretArn (calls ++ [(i, call, f)]) =
      if stores secretArn call f then some i else lastWriter secretArn calls := by
  simp [lastWriter, List.foldl_append]

/-- The handler on each event about to start, the secret as it is. -/
def start (events : ι → Json.Value) (w : World) : Pool ι Call.Answer Exn World Json.Value where
  thread i := .start (handler (events i))
  state := w

/-- The secret is the original text, or the original fields with the endpoint of the last writer, and
reads so. -/
inductive LastWritten (original : String) (events : ι → Json.Value) : Option ι → String → Prop
  | untouched : LastWritten original events none original
  | put {i : ι} {fields : Json.Fields} {endpoint : Json.Value}
      (hloads : Json.loads original = some (.obj fields))
      (hendpoint : resourceProperty (events i) "DocumentDbEndpoint" = .ok endpoint)
      (hread : Json.loads (withEndpoint fields endpoint) =
        some (.obj (Json.setItem "documentdb_endpoint" endpoint fields))) :
      LastWritten original events (some i) (withEndpoint fields endpoint)

theorem LastWritten.stands {original text : String} {events : ι → Json.Value}
    (hevents : ∀ i, Json.Canonical (events i)) {last : Option ι}
    (h : LastWritten original events last text) : Stands original text := by
  cases h with
  | untouched => exact .inl rfl
  | put hloads hendpoint _ =>
    exact .inr ⟨_, _, hloads, canonical_resourceProperty (hevents _) hendpoint, rfl⟩

/-- Under every schedule of the invocations, with any call failing before or after it takes effect and
any invocation killed, the secret is the original text until a put takes effect, and then reads as the
original fields in their order, with nothing but the endpoint of the last put in place of theirs. -/
theorem secret_keeps_fields [DecidableEq ι] (events : ι → Json.Value)
    (hevents : ∀ i, Json.Canonical (events i)) (w : World) (hrewritable : Rewritable w.secretString)
    (schedule : List (ι × Act Exn)) :
    LastWritten w.secretString events (lastWriter w.secretArn ((start events w).log exec schedule))
      ((start events w).run exec schedule).state.secretString := by
  have hmeets : (start events w).Meets exec
      (fun i => fieldsContract w.secretString w.secretArn (events i)) fun _ _ _ _ => True := by
    intro i prog hprog
    obtain rfl := Option.some.inj hprog
    exact keepsFields_handler hrewritable ⟨rfl, .inl rfl⟩
  have hcompatible : Compatible fun i =>
      fieldsContract w.secretString w.secretArn (events i) :=
    fun i j _ call f w₁ w₂ hrewrites => Rewrites.standing (hevents i) hrewrites
  have hstart : LastWritten w.secretString events
      (lastWriter w.secretArn ([] : List (ι × Call × Fault Exn)))
      (start events w).state.secretString := .untouched
  have hrun := Pool.run_log_induction (I := fun calls w' => w'.secretArn = w.secretArn ∧
      LastWritten w.secretString events (lastWriter w.secretArn calls) w'.secretString)
    hcompatible (fun _ _ _ _ _ _ h => h) hmeets (s := schedule) (fun _ _ _ => trivial)
    ⟨rfl, hstart⟩ ?_
  · exact hrun.2
  · intro calls w' i call f hI _ hrewrites
    obtain ⟨harn, hsecret⟩ := hrewrites ⟨hI.1, hI.2.stands hevents⟩
    refine ⟨harn, ?_⟩
    rw [lastWriter_concat]
    split_ifs at hsecret ⊢
    · obtain ⟨fields, endpoint, hloads, hendpoint, htext⟩ := hsecret
      rw [htext]
      exact .put hloads hendpoint
        (loads_withEndpoint hrewritable hloads (canonical_resourceProperty (hevents i) hendpoint))
    · rw [hsecret]
      exact hI.2

end Runs

/-- An update of the endpoint, and an event whose endpoint is no text. -/
def mixedEvents : Bool → Json.Value
  | false => eventOf "Update" prodSecretWorld.secretArn "new.amazonaws.com"
  | true => .obj [("RequestType", .str "Create"), ("ResourceProperties",
      .obj [("SecretArn", .str prodSecretWorld.secretArn), ("DocumentDbEndpoint", .null)])]

theorem secret_keeps_fields_prod :
    LastWritten prodSecretWorld.secretString mixedEvents
      (lastWriter prodSecretWorld.secretArn
        ((start mixedEvents prodSecretWorld).log exec (overlap (.external "timed out"))))
      ((start mixedEvents prodSecretWorld).run exec
        (overlap (.external "timed out"))).state.secretString := by
  refine secret_keeps_fields mixedEvents (fun i => ?_) prodSecretWorld
    (rewritable_dumps (canonical_secretFields App.Environment.prod.name "aB3dE5fG7hJ9" "") ?_) _
  · cases i with
    | false => simp [mixedEvents, eventOf, Json.Canonical, Json.CanonicalFields]
    | true => simp [mixedEvents, Json.Canonical, Json.CanonicalFields]
  · simp [secretFields, Json.FloatFree, Json.FloatFreeFields]

end ModulithInfra.DocumentDb
