import Mathlib.Data.Finset.Lattice.Lemmas
import Mathlib.Data.Finset.Dedup
import Mathlib.Logic.Relation

/-!
# The Postgres server and its set-up

`Server` is what the database creator changes: the databases with their schemas. This file says,
apart from any code, what setting a server up means:

* `Server.provision` is the server with every requested database and schema;
* `Server.Grow` is one statement of a set-up taking effect, `Server.Reach` any number of them;
* `Server.Done` holds once nothing requested is missing.

A set-up that was begun can always be completed to the same server (`provision_of_reach`), and a
server reached by its statements in which nothing is missing is that server
(`eq_provision_of_reach`), whatever the order of the statements and whoever executed them.
-/

namespace ModulithInfra.Postgres

/-- The database that receives the application schemas. -/
def ecomm : String := "ecomm"

/-- The databases of a server, each with its schemas, and the schemas of the template database, which
`CREATE DATABASE` copies. -/
@[ext]
structure Server where
  databases : String → Option (Finset String)
  template : Finset String

namespace Server

/-- The database exists. -/
def Has (s : Server) (db : String) : Prop := (s.databases db).isSome = true

instance (s : Server) (db : String) : Decidable (s.Has db) :=
  inferInstanceAs (Decidable (_ = true))

def createDatabase (s : Server) (db : String) : Server :=
  { s with databases := Function.update s.databases db (some s.template) }

def createSchema (s : Server) (db : String) (schemas : Finset String) (schema : String) : Server :=
  { s with databases := Function.update s.databases db (some (insert schema schemas)) }

/-- Nothing of `s` is missing from `s'`. -/
def Extends (s s' : Server) : Prop :=
  s'.template = s.template ∧
    ∀ db schemas, s.databases db = some schemas → ∃ schemas', s'.databases db = some schemas' ∧
      schemas ⊆ schemas'

/-- One statement of the set-up `dbs`, `schemas` takes effect, or none. -/
inductive Grow (dbs schemas : List String) (s : Server) : Server → Prop
  | refl : Grow dbs schemas s s
  | database {db : String} (hdb : db ∈ dbs) (hnew : s.databases db = none) :
      Grow dbs schemas s (s.createDatabase db)
  | schema {schema : String} {old : Finset String} (hecomm : ecomm ∈ dbs) (hschema : schema ∈ schemas)
      (hold : s.databases ecomm = some old) : Grow dbs schemas s (s.createSchema ecomm old schema)

/-- Some statements of the set-up have taken effect. -/
abbrev Reach (dbs schemas : List String) : Server → Server → Prop :=
  Relation.ReflTransGen (Grow dbs schemas)

/-- Every requested database exists, and every requested schema if `ecomm` is requested. -/
def Done (dbs schemas : List String) (s : Server) : Prop :=
  (∀ db ∈ dbs, s.Has db) ∧
    (ecomm ∈ dbs → ∃ present, s.databases ecomm = some present ∧ ∀ schema ∈ schemas, schema ∈ present)

/-- The schemas requested for a database. -/
def requested (dbs schemas : List String) (db : String) : Finset String :=
  if db = ecomm ∧ ecomm ∈ dbs then schemas.toFinset else ∅

/-- The server with every requested database and, if `ecomm` is requested, every requested schema. -/
def provision (dbs schemas : List String) (s : Server) : Server where
  databases db :=
    match s.databases db with
    | some present => some (present ∪ requested dbs schemas db)
    | none => if db ∈ dbs then some (s.template ∪ requested dbs schemas db) else none
  template := s.template

variable {dbs schemas : List String} {s s' s'' : Server}

/-! ### Looking a database up -/

theorem has_of_eq {db : String} {present : Finset String} (h : s.databases db = some present) :
    s.Has db := by
  rw [Has, h]
  rfl

@[simp] theorem createDatabase_self (s : Server) (db : String) :
    (s.createDatabase db).databases db = some s.template :=
  Function.update_self _ _ _

theorem createDatabase_ne (s : Server) {db db' : String} (h : db' ≠ db) :
    (s.createDatabase db).databases db' = s.databases db' :=
  Function.update_of_ne h _ _

@[simp] theorem createSchema_self (s : Server) (db : String) (old : Finset String)
    (schema : String) : (s.createSchema db old schema).databases db = some (insert schema old) :=
  Function.update_self _ _ _

theorem createSchema_ne (s : Server) {db db' : String} (h : db' ≠ db) (old : Finset String)
    (schema : String) : (s.createSchema db old schema).databases db' = s.databases db' :=
  Function.update_of_ne h _ _

theorem mem_requested {db schema : String} :
    schema ∈ requested dbs schemas db ↔ db = ecomm ∧ ecomm ∈ dbs ∧ schema ∈ schemas := by
  unfold requested
  split_ifs with h
  · simp [h]
  · simp only [Finset.notMem_empty, false_iff]
    exact fun h' => h ⟨h'.1, h'.2.1⟩

theorem provision_present {db : String} {present : Finset String}
    (h : s.databases db = some present) :
    (s.provision dbs schemas).databases db = some (present ∪ requested dbs schemas db) := by
  simp only [provision, h]

theorem provision_missing {db : String} (h : s.databases db = none) (hdb : db ∈ dbs) :
    (s.provision dbs schemas).databases db = some (s.template ∪ requested dbs schemas db) := by
  simp only [provision, h, if_pos hdb]

theorem provision_absent {db : String} (h : s.databases db = none) (hdb : db ∉ dbs) :
    (s.provision dbs schemas).databases db = none := by
  simp only [provision, h, if_neg hdb]

/-! ### Extension -/

theorem Extends.refl (s : Server) : s.Extends s :=
  ⟨rfl, fun _ present h => ⟨present, h, Finset.Subset.refl _⟩⟩

theorem Extends.trans (h : s.Extends s') (h' : s'.Extends s'') : s.Extends s'' := by
  refine ⟨h'.1.trans h.1, fun db present hdb => ?_⟩
  obtain ⟨present', hdb', hsub⟩ := h.2 db present hdb
  obtain ⟨present'', hdb'', hsub'⟩ := h'.2 db present' hdb'
  exact ⟨present'', hdb'', hsub.trans hsub'⟩

theorem Extends.has {db : String} (h : s.Extends s') (hdb : s.Has db) : s'.Has db := by
  obtain ⟨present, hpresent⟩ := Option.isSome_iff_exists.mp hdb
  obtain ⟨present', hpresent', -⟩ := h.2 db present hpresent
  exact has_of_eq hpresent'

theorem Extends.missing {db : String} (h : s.Extends s') (hdb : s'.databases db = none) :
    s.databases db = none := by
  cases hs : s.databases db with
  | none => rfl
  | some old =>
    obtain ⟨old', hold', -⟩ := h.2 db old hs
    rw [hdb] at hold'
    cases hold'

theorem Extends.done (h : s.Extends s') (hdone : s.Done dbs schemas) : s'.Done dbs schemas := by
  refine ⟨fun db hdb => h.has (hdone.1 db hdb), fun hecomm => ?_⟩
  obtain ⟨present, hpresent, hall⟩ := hdone.2 hecomm
  obtain ⟨present', hpresent', hsub⟩ := h.2 ecomm present hpresent
  exact ⟨present', hpresent', fun schema hschema => hsub (hall schema hschema)⟩

theorem extends_createDatabase {db : String} (hnew : s.databases db = none) :
    s.Extends (s.createDatabase db) := by
  refine ⟨rfl, fun db' present h => ⟨present, ?_, Finset.Subset.refl _⟩⟩
  have hne : db' ≠ db := by
    rintro rfl
    rw [hnew] at h
    cases h
  rw [createDatabase_ne s hne, h]

theorem extends_createSchema {db schema : String} {old : Finset String}
    (hold : s.databases db = some old) : s.Extends (s.createSchema db old schema) := by
  refine ⟨rfl, fun db' present h => ?_⟩
  by_cases hdb : db' = db
  · subst hdb
    rw [hold] at h
    obtain rfl := Option.some.inj h
    exact ⟨insert schema old, createSchema_self s _ _ _, Finset.subset_insert _ _⟩
  · exact ⟨present, by rw [createSchema_ne s hdb, h], Finset.Subset.refl _⟩

theorem Grow.extends (h : Grow dbs schemas s s') : s.Extends s' := by
  cases h with
  | refl => exact Extends.refl s
  | database _ hnew => exact extends_createDatabase hnew
  | schema _ _ hold => exact extends_createSchema hold

theorem Reach.extends (h : Reach dbs schemas s s') : s.Extends s' := by
  induction h with
  | refl => exact Extends.refl s
  | tail _ hgrow ih => exact ih.trans hgrow.extends

/-- A database that is there after some statements was there before or is requested. -/
theorem Reach.has_or_mem {db : String} (h : Reach dbs schemas s s') (hdb : s'.Has db) :
    s.Has db ∨ db ∈ dbs := by
  induction h with
  | refl => exact .inl hdb
  | @tail t t' _ hgrow ih =>
    cases hgrow with
    | refl => exact ih hdb
    | @database new hnew _ =>
      by_cases hne : db = new
      · exact .inr (hne ▸ hnew)
      · exact ih (by rwa [Has, createDatabase_ne t hne] at hdb)
    | schema hecomm _ _ =>
      by_cases hne : db = ecomm
      · exact .inr (hne ▸ hecomm)
      · exact ih (by rwa [Has, createSchema_ne t hne] at hdb)

theorem Grow.mono {dbs' schemas' : List String} (hdbs : dbs ⊆ dbs') (hschemas : schemas ⊆ schemas')
    (h : Grow dbs schemas s s') : Grow dbs' schemas' s s' := by
  cases h with
  | refl => exact .refl
  | database hdb hnew => exact .database (hdbs hdb) hnew
  | schema hecomm hschema hold => exact .schema (hdbs hecomm) (hschemas hschema) hold

/-! ### Completing a set-up -/

theorem done_nil (schemas : List String) (s : Server) : s.Done [] schemas :=
  ⟨by simp, by simp⟩

theorem done_singleton {db : String} (hne : db ≠ ecomm) (h : s.Has db) : s.Done [db] schemas :=
  ⟨by simpa using h, fun hecomm => absurd (List.mem_singleton.mp hecomm).symm hne⟩

theorem done_ecomm_nil (h : s.Has ecomm) : s.Done [ecomm] [] := by
  obtain ⟨present, hpresent⟩ := Option.isSome_iff_exists.mp h
  exact ⟨by simpa using h, fun _ => ⟨present, hpresent, by simp⟩⟩

theorem done_createSchema (s : Server) (present : Finset String) (schema : String) :
    (s.createSchema ecomm present schema).Done [ecomm] [schema] := by
  have hself := createSchema_self s ecomm present schema
  exact ⟨by simpa using has_of_eq hself, fun _ => ⟨_, hself, by simp⟩⟩

theorem Done.cons_schema {schema : String} (h : s.Done dbs [schema]) (h' : s.Done dbs schemas) :
    s.Done dbs (schema :: schemas) := by
  refine ⟨h.1, fun hecomm => ?_⟩
  obtain ⟨present, hpresent, hmem⟩ := h.2 hecomm
  obtain ⟨present', hpresent', hmem'⟩ := h'.2 hecomm
  rw [hpresent] at hpresent'
  obtain rfl := Option.some.inj hpresent'
  refine ⟨present, hpresent, fun name hname => ?_⟩
  rcases List.mem_cons.mp hname with rfl | hname
  · exact hmem name (by simp)
  · exact hmem' name hname

theorem Done.append {dbs' : List String} (h : s.Done dbs schemas) (h' : s.Done dbs' schemas) :
    s.Done (dbs ++ dbs') schemas := by
  refine ⟨fun db hdb => ?_, fun hecomm => ?_⟩
  · rcases List.mem_append.mp hdb with hdb | hdb
    · exact h.1 db hdb
    · exact h'.1 db hdb
  · rcases List.mem_append.mp hecomm with hecomm | hecomm
    · exact h.2 hecomm
    · exact h'.2 hecomm

/-- Where nothing is missing there is nothing to do. -/
theorem provision_of_done (h : s.Done dbs schemas) : s.provision dbs schemas = s := by
  ext1
  · funext db
    cases hdb : s.databases db with
    | none =>
      have hnot : db ∉ dbs := fun hmem => by simpa [Has, hdb] using h.1 db hmem
      exact provision_absent hdb hnot
    | some present =>
      rw [provision_present hdb, Finset.union_eq_left.mpr]
      intro schema hschema
      obtain ⟨rfl, hecomm, hmem⟩ := mem_requested.mp hschema
      obtain ⟨present', hpresent', hall⟩ := h.2 hecomm
      rw [hdb] at hpresent'
      obtain rfl := Option.some.inj hpresent'
      exact hall schema hmem
  · rfl

theorem done_provision (dbs schemas : List String) (s : Server) :
    (s.provision dbs schemas).Done dbs schemas := by
  refine ⟨fun db hdb => ?_, fun hecomm => ?_⟩
  · cases h : s.databases db with
    | none => exact has_of_eq (provision_missing h hdb)
    | some present => exact has_of_eq (provision_present h)
  · have hreq : ∀ schema ∈ schemas, schema ∈ requested dbs schemas ecomm :=
      fun schema hschema => mem_requested.mpr ⟨rfl, hecomm, hschema⟩
    cases h : s.databases ecomm with
    | none =>
      exact ⟨_, provision_missing h hecomm,
        fun schema hschema => Finset.mem_union_right _ (hreq schema hschema)⟩
    | some present =>
      exact ⟨_, provision_present h,
        fun schema hschema => Finset.mem_union_right _ (hreq schema hschema)⟩

/-- A statement of the set-up that has taken effect changes nothing about its completion. -/
theorem provision_of_grow (h : Grow dbs schemas s s') :
    s'.provision dbs schemas = s.provision dbs schemas := by
  cases h with
  | refl => rfl
  | @database db hdb hnew =>
    ext1
    · funext db'
      by_cases hne : db' = db
      · subst hne
        rw [provision_present (createDatabase_self s db'), provision_missing hnew hdb]
      · simp only [provision, createDatabase_ne s hne]
        rfl
    · rfl
  | @schema schema old hecomm hschema hold =>
    ext1
    · funext db
      by_cases hne : db = ecomm
      · subst hne
        have hmem : schema ∈ old ∪ requested dbs schemas ecomm :=
          Finset.mem_union_right _ (mem_requested.mpr ⟨rfl, hecomm, hschema⟩)
        rw [provision_present (createSchema_self s _ _ _), provision_present hold,
          Finset.insert_union, Finset.insert_eq_of_mem hmem]
      · simp only [provision, createSchema_ne s hne]
        rfl
    · rfl

/-- A set-up that was begun is completed to the same server as from its start. -/
theorem provision_of_reach (h : Reach dbs schemas s s') :
    s'.provision dbs schemas = s.provision dbs schemas := by
  induction h with
  | refl => rfl
  | tail _ hgrow ih => rw [provision_of_grow hgrow, ih]

/-- A server reached by a set-up in which nothing is missing is the completed one. -/
theorem eq_provision_of_reach (h : Reach dbs schemas s s') (hdone : s'.Done dbs schemas) :
    s' = s.provision dbs schemas := by
  rw [← provision_of_reach h, provision_of_done hdone]

/-! ### Where things come from -/

/-- `s'` came from `s` by adding databases among `dbs` and, inside `ecomm`, schemas among `schemas`. -/
structure MadeFrom (dbs schemas : Set String) (s s' : Server) : Prop where
  ext : s.Extends s'
  database : ∀ db, s'.Has db → s.Has db ∨ db ∈ dbs
  /-- a schema was there, came with the template, or was added to `ecomm` -/
  schema : ∀ db present schema, s'.databases db = some present → schema ∈ present →
    (∃ old, s.databases db = some old ∧ schema ∈ old) ∨
      (s.databases db = none ∧ schema ∈ s.template) ∨ (db = ecomm ∧ schema ∈ schemas)

theorem MadeFrom.refl (dbs schemas : Set String) (s : Server) : MadeFrom dbs schemas s s :=
  ⟨Extends.refl s, fun _ h => .inl h, fun _ present _ h hmem => .inl ⟨present, h, hmem⟩⟩

theorem MadeFrom.grow {all added : Set String} (h : MadeFrom all added s s')
    (hgrow : Grow dbs schemas s' s'') (hdbs : ∀ db ∈ dbs, db ∈ all)
    (hschemas : ecomm ∈ dbs → ∀ schema ∈ schemas, schema ∈ added) : MadeFrom all added s s'' := by
  refine ⟨h.ext.trans hgrow.extends, fun db hdb => ?_, fun db present schema hdb hmem => ?_⟩
  · cases hgrow with
    | refl => exact h.database db hdb
    | @database new hnew _ =>
      by_cases hne : db = new
      · exact .inr (hdbs db (hne ▸ hnew))
      · exact h.database db (by rwa [Has, createDatabase_ne s' hne] at hdb)
    | schema _ _ hold =>
      by_cases hne : db = ecomm
      · exact h.database db (hne ▸ has_of_eq hold)
      · exact h.database db (by rwa [Has, createSchema_ne s' hne] at hdb)
  · cases hgrow with
    | refl => exact h.schema db present schema hdb hmem
    | @database new _ hnone =>
      by_cases hne : db = new
      · subst hne
        rw [createDatabase_self] at hdb
        obtain rfl := Option.some.inj hdb
        -- nothing of `s` is missing from `s'`, so the database is new to `s` as well
        exact .inr (.inl ⟨h.ext.missing hnone, h.ext.1 ▸ hmem⟩)
      · rw [createDatabase_ne s' hne] at hdb
        exact h.schema db present schema hdb hmem
    | @schema new old hecomm hnew hold =>
      by_cases hne : db = ecomm
      · subst hne
        rw [createSchema_self] at hdb
        obtain rfl := Option.some.inj hdb
        rcases Finset.mem_insert.mp hmem with rfl | hmem
        · exact .inr (.inr ⟨rfl, hschemas hecomm _ hnew⟩)
        · exact h.schema _ old schema hold hmem
      · rw [createSchema_ne s' hne] at hdb
        exact h.schema db present schema hdb hmem

end Server

end ModulithInfra.Postgres
