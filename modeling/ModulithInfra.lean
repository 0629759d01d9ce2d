import ModulithInfra.Calls.Program
import ModulithInfra.Calls.Pool
import ModulithInfra.Calls.Straight
import ModulithInfra.Json.Basic
import ModulithInfra.Json.RoundTrip
import ModulithInfra.Postgres.Server
import ModulithInfra.Postgres.Handler
import ModulithInfra.Postgres.Healthy
import ModulithInfra.Postgres.Soundness
import ModulithInfra.Postgres.Resume
import ModulithInfra.Postgres.Duplicate
import ModulithInfra.Postgres.Response
import ModulithInfra.Runs.History
import ModulithInfra.Runs.Rollout
import ModulithInfra.App.Stacks
import ModulithInfra.App.Deployment
import ModulithInfra.App.Resources
import ModulithInfra.Text.Qualified
import ModulithInfra.App.Names
import ModulithInfra.Systemd.Script
import ModulithInfra.Systemd.Units
import ModulithInfra.Model.Startup
import ModulithInfra.Network.SecurityGroup
import ModulithInfra.Fargate.Endpoints
import ModulithInfra.DocumentDb.UpdateSecret
import ModulithInfra.Text.Rule
import ModulithInfra.App.Environment
import ModulithInfra.DocumentDb.Shape
import ModulithInfra.App.LegalNames
import ModulithInfra.App.Verdict
import ModulithInfra.Uri.ConnectionString
import ModulithInfra.Constructs.MongoExpress
import ModulithInfra.Text.Transducer
import ModulithInfra.Sql.Lexer
import ModulithInfra.Sql.Conninfo
import ModulithInfra.Psycopg2.Sql
import ModulithInfra.Psycopg2.Dsn
import ModulithInfra.Calls.Agree
import ModulithInfra.Postgres.Wire
import ModulithInfra.Json.Loaded
import ModulithInfra.DocumentDb.Fields
import ModulithInfra.Runs.Bringup
import ModulithInfra.App.Progress
import ModulithInfra.Systemd.Before
import ModulithInfra.Systemd.Bringup
import ModulithInfra.Hosts.Docker
import ModulithInfra.Model.Provision
import ModulithInfra.Model.Serves
import ModulithInfra.Runs.Lifecycle
import ModulithInfra.App.Lifecycle
import ModulithInfra.App.Teardown
import ModulithInfra.Ecs.Task
import ModulithInfra.Constructs.MongoExpressTask
