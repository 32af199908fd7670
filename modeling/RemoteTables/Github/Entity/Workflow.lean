import RemoteTables.Github.Entity.Account

/-!
# Workflows and their runs

A workflow is a file of the repository that says what to do; a run is one time it was done. The
run, not the workflow, is what jobs and artifacts belong to.
-/

set_option autoImplicit false

namespace RemoteTables
namespace Github

/-- A workflow, named by its file. -/
structure Workflow where
  id : Int64
  name : String
  path : String
  state : String
  htmlUrl : Option String
  createdAt : Option Int64
  updatedAt : Option Int64

namespace Workflow

/-- The columns of workflows: the repository, and then what the payload says. -/
def columns : List Column :=
  [.required "owner" .varchar, .required "repo" .varchar, .required "id" .bigInt,
   .required "name" .varchar, .required "path" .varchar, .required "state" .varchar,
   .optional "html_url" .varchar, .optional "created_at" .timestamp,
   .optional "updated_at" .timestamp]

/-- Reads a workflow from its payload. -/
def decoder : Decoder Workflow :=
  Record.decoder (Workflow.mk <$> .required "id" Decoder.int64
    <*> .required "name" Decoder.string
    <*> .required "path" Decoder.string
    <*> .required "state" Decoder.string
    <*> .optional "html_url" Decoder.string
    <*> .instant "created_at" <*> .instant "updated_at")

/-- The row of a workflow in the listing of a repository. -/
def toRow (owner repo : String) (w : Workflow) : Row :=
  [.varchar owner, .varchar repo, .bigInt w.id, .varchar w.name, .varchar w.path,
   .varchar w.state, .optVarchar w.htmlUrl, .optTimestamp w.createdAt, .optTimestamp w.updatedAt]

end Workflow

/-- One run of a workflow. -/
structure WorkflowRun where
  id : Int64
  name : Option String
  workflowId : Int64
  runNumber : Int64
  runAttempt : Option Int64
  event : String
  status : Option String
  conclusion : Option String
  headBranch : Option String
  headSha : String
  actor : Option User
  htmlUrl : Option String
  createdAt : Option Int64
  updatedAt : Option Int64

namespace WorkflowRun

/-- The columns of runs: the repository, and then what the payload says. -/
def columns : List Column :=
  [.required "owner" .varchar, .required "repo" .varchar, .required "id" .bigInt,
   .optional "name" .varchar, .required "workflow_id" .bigInt, .required "run_number" .bigInt,
   .optional "run_attempt" .bigInt, .required "event" .varchar, .optional "status" .varchar,
   .optional "conclusion" .varchar, .optional "head_branch" .varchar,
   .required "head_sha" .varchar, .optional "actor_login" .varchar, .optional "html_url" .varchar,
   .optional "created_at" .timestamp, .optional "updated_at" .timestamp]

/-- Reads a run from its payload. -/
def decoder : Decoder WorkflowRun :=
  Record.decoder (WorkflowRun.mk <$> .required "id" Decoder.int64
    <*> .optional "name" Decoder.string
    <*> .required "workflow_id" Decoder.int64
    <*> .required "run_number" Decoder.int64
    <*> .optional "run_attempt" Decoder.int64
    <*> .required "event" Decoder.string
    <*> .optional "status" Decoder.string
    <*> .optional "conclusion" Decoder.string
    <*> .optional "head_branch" Decoder.string
    <*> .required "head_sha" Decoder.string
    <*> .optional "actor" User.decoder
    <*> .optional "html_url" Decoder.string
    <*> .instant "created_at" <*> .instant "updated_at")

/-- The row of a run in the listing of a repository. -/
def toRow (owner repo : String) (r : WorkflowRun) : Row :=
  [.varchar owner, .varchar repo, .bigInt r.id, .optVarchar r.name, .bigInt r.workflowId,
   .bigInt r.runNumber, .optBigInt r.runAttempt, .varchar r.event, .optVarchar r.status,
   .optVarchar r.conclusion, .optVarchar r.headBranch, .varchar r.headSha, loginCell r.actor,
   .optVarchar r.htmlUrl, .optTimestamp r.createdAt, .optTimestamp r.updatedAt]

end WorkflowRun
end Github
end RemoteTables
