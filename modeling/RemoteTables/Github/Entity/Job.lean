import RemoteTables.Github.Entity.Account

/-!
# Jobs and their steps

A run is done in jobs, and a job in steps. Steps have no listing of their own: they come inside
their job, and each one's row says which job and which run it belongs to.
-/

set_option autoImplicit false

namespace RemoteTables
namespace Github

/-- One step of a job. -/
structure Step where
  number : Int64
  name : String
  status : String
  conclusion : Option String
  startedAt : Option Int64
  completedAt : Option Int64

namespace Step

/-- The columns of steps: what they belong to comes first. -/
def columns : List Column :=
  [.required "owner" .varchar, .required "repo" .varchar, .required "run_id" .bigInt,
   .required "job_id" .bigInt, .required "job_name" .varchar, .required "number" .bigInt,
   .required "name" .varchar, .required "status" .varchar, .optional "conclusion" .varchar,
   .optional "started_at" .timestamp, .optional "completed_at" .timestamp]

/-- Reads a step from its payload. -/
def decoder : Decoder Step :=
  Record.decoder (Step.mk <$> .required "number" Decoder.int64
    <*> .required "name" Decoder.string
    <*> .required "status" Decoder.string
    <*> .optional "conclusion" Decoder.string
    <*> .instant "started_at" <*> .instant "completed_at")

end Step

/-- A job of a run, with its steps. -/
structure Job where
  id : Int64
  runId : Int64
  runAttempt : Option Int64
  name : String
  status : String
  conclusion : Option String
  headSha : Option String
  runnerName : Option String
  labels : List String
  htmlUrl : Option String
  startedAt : Option Int64
  completedAt : Option Int64
  steps : Option (List Step)

namespace Job

/-- The columns of jobs. Steps have a table of their own. -/
def columns : List Column :=
  [.required "owner" .varchar, .required "repo" .varchar, .required "id" .bigInt,
   .required "run_id" .bigInt, .optional "run_attempt" .bigInt, .required "name" .varchar,
   .required "status" .varchar, .optional "conclusion" .varchar, .optional "head_sha" .varchar,
   .optional "runner_name" .varchar, .required "labels" (.array .varchar),
   .optional "html_url" .varchar, .optional "started_at" .timestamp,
   .optional "completed_at" .timestamp]

/-- Reads a job. Labels that are not mentioned are none, and steps may be `null` as well. -/
def decoder : Decoder Job :=
  Record.decoder (Job.mk <$> .required "id" Decoder.int64
    <*> .required "run_id" Decoder.int64
    <*> .optional "run_attempt" Decoder.int64
    <*> .required "name" Decoder.string
    <*> .required "status" Decoder.string
    <*> .optional "conclusion" Decoder.string
    <*> .optional "head_sha" Decoder.string
    <*> .optional "runner_name" Decoder.string
    <*> .withDefault "labels" [] (Decoder.list Decoder.string)
    <*> .optional "html_url" Decoder.string
    <*> .instant "started_at" <*> .instant "completed_at"
    <*> .withDefault "steps" none (Decoder.list Step.decoder).optional)

/-- The row of a job in the listing of a repository. -/
def toRow (owner repo : String) (j : Job) : Row :=
  [.varchar owner, .varchar repo, .bigInt j.id, .bigInt j.runId, .optBigInt j.runAttempt,
   .varchar j.name, .varchar j.status, .optVarchar j.conclusion, .optVarchar j.headSha,
   .optVarchar j.runnerName, .array (j.labels.map .varchar), .optVarchar j.htmlUrl,
   .optTimestamp j.startedAt, .optTimestamp j.completedAt]

/-- The row of one step, with the job it belongs to. -/
def stepRow (owner repo : String) (j : Job) (s : Step) : Row :=
  [.varchar owner, .varchar repo, .bigInt j.runId, .bigInt j.id, .varchar j.name,
   .bigInt s.number, .varchar s.name, .varchar s.status, .optVarchar s.conclusion,
   .optTimestamp s.startedAt, .optTimestamp s.completedAt]

/-- The rows of the steps of a job, in order. -/
def stepRows (owner repo : String) (j : Job) : List Row :=
  (j.steps.getD []).map (j.stepRow owner repo)

end Job
end Github
end RemoteTables
