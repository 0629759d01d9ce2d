import ModulithInfra.Postgres.Soundness

/-!
# Interrupted set-ups resume

Invocations for one set-up follow each other, each cut off anywhere: a call raises before or after
taking effect, or the Lambda is killed. One further invocation without faults then leaves the same
server, and sends the same response, as if it had been the only one (`resumes`).

Every cut leaves a server that was reached by statements of the set-up (`run_reach`); the fault-free
run completes the set-up as far as an invocation gets, and that completion is the same from every
such server (`Server.provision_of_reach`).
-/

namespace ModulithInfra.Postgres

open Calls

/-- One invocation cut off: its event besides the lists, and what became of its calls. -/
structure Attempt where
  request : RequestType
  secretArn : String
  acts : List (Act Exn)

/-- The invocation of an attempt at the set-up `databases`, `schemas`. -/
def Attempt.invocation (a : Attempt) (databases schemas : List String) : Invocation :=
  ⟨a.request, a.secretArn, databases, schemas⟩

/-- The world after an attempt: its calls under its faults, up to where it was cut. -/
def Attempt.after (databases schemas : List String) (w : World) (a : Attempt) : World :=
  ((launch (fun _ : Unit => a.invocation databases schemas) w).run exec (a.acts.map ((), ·))).state

/-- The world after attempts one after the other. -/
def interrupted (databases schemas : List String) (w : World) (attempts : List Attempt) : World :=
  attempts.foldl (Attempt.after databases schemas) w

/-- The server after any run of invocations for one set-up was reached by its statements. -/
theorem run_reach {ι : Type} [DecidableEq ι] (v : ι → Invocation) {databases schemas : List String}
    (hv : ∀ i, (v i).databases = databases ∧ (v i).schemas = schemas) (w : World)
    (s : List (ι × Act Exn)) :
    ((launch v w).run exec s).state.vault = w.vault ∧
      Server.Reach (reached databases) schemas w.server
        ((launch v w).run exec s).state.server := by
  refine Pool.run_induction (I := fun q => q.state.vault = w.vault ∧
      Server.Reach (reached databases) schemas w.server q.state.server)
    (compatible_contracts v) (fun _ _ _ _ _ _ h => h) (launch_meets v w) (fun _ _ _ => trivial)
    ⟨rfl, .refl⟩ ?_ ?_
  · intro q i call next f hI _ _ hguar
    have htouched : (v i).touched ⊆ reached databases := by
      rw [← (hv i).1]
      unfold Invocation.touched
      split_ifs
      · exact List.nil_subset _
      · exact List.Subset.refl _
    have hgrow := hguar.2.1.mono htouched (by rw [(hv i).2]; exact List.Subset.refl _)
    exact ⟨hguar.1.trans hI.1, hI.2.tail hgrow⟩
  · intro q i hI
    exact hI

theorem interrupted_reach (databases schemas : List String) (w : World) (attempts : List Attempt) :
    (interrupted databases schemas w attempts).vault = w.vault ∧
      Server.Reach (reached databases) schemas w.server
        (interrupted databases schemas w attempts).server := by
  induction attempts generalizing w with
  | nil => exact ⟨rfl, .refl⟩
  | cons a attempts ih =>
    have hfirst := run_reach (fun _ : Unit => a.invocation databases schemas)
      (fun _ => ⟨rfl, rfl⟩) w (a.acts.map ((), ·))
    have hrest := ih (a.after databases schemas w)
    exact ⟨hrest.1.trans hfirst.1, hfirst.2.trans hrest.2⟩

/-- A fault-free invocation after any interrupted ones ends as if it had been the only one. -/
theorem resumes (w : World) (databases schemas : List String) (attempts : List Attempt)
    (request : RequestType) (hrequest : request ≠ .Delete) (secretArn : String) :
    let last := handler (.of request secretArn databases schemas)
    let resumed := last.eval exec (interrupted databases schemas w attempts)
    let single := last.eval exec w
    resumed.state = single.state ∧ responses resumed.calls = responses single.calls := by
  intro last resumed single
  obtain ⟨hvault, hreach⟩ := interrupted_reach databases schemas w attempts
  obtain ⟨-, hcalls, hstate⟩ := eval_handler (interrupted databases schemas w attempts) hrequest
    secretArn databases schemas
  obtain ⟨-, hcalls', hstate'⟩ := eval_handler w hrequest secretArn databases schemas
  refine ⟨?_, hcalls.trans hcalls'.symm⟩
  calc resumed.state
      = ⟨(interrupted databases schemas w attempts).server.provision (reached databases) schemas,
          (interrupted databases schemas w attempts).vault⟩ := hstate
    _ = ⟨w.server.provision (reached databases) schemas, w.vault⟩ := by
        rw [Server.provision_of_reach hreach, hvault]
    _ = single.state := hstate'.symm

/-- An update after a create that was killed once `ecomm` existed. -/
theorem resumes_killed_create :
    RequestType.Update ≠ .Delete ∧
      let last := handler (.of .Update "secret" ["ecomm"] ["web"])
      let resumed := last.eval exec (interrupted ["ecomm"] ["web"] freshWorld
        [⟨.Create, "secret", List.replicate 9 (.call .none) ++ [.kill]⟩])
      let single := last.eval exec freshWorld
      resumed.state = single.state ∧ responses resumed.calls = responses single.calls :=
  ⟨by decide, resumes freshWorld ["ecomm"] ["web"] _ .Update (by decide) "secret"⟩

end ModulithInfra.Postgres
