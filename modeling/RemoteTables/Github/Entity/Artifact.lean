import RemoteTables.Github.Entity.Account

/-!
# Artifacts

A file that a run left behind. The payload names the run it belongs to, but not always; a listing
that was made for one run knows better, and the run of the listing then stands in the row.
-/

set_option autoImplicit false

namespace RemoteTables
namespace Github

/-- What an artifact says of its run. -/
structure ArtifactRun where
  id : Option Int64
  headBranch : Option String

def ArtifactRun.decoder : Decoder ArtifactRun :=
  Record.decoder (ArtifactRun.mk <$> .optional "id" Decoder.int64
    <*> .optional "head_branch" Decoder.string)

/-- A file that a run has left behind. -/
structure Artifact where
  id : Int64
  name : String
  sizeInBytes : Option Int64
  expired : Bool
  archiveDownloadUrl : Option String
  workflowRun : Option ArtifactRun
  createdAt : Option Int64
  updatedAt : Option Int64
  expiresAt : Option Int64

namespace Artifact

/-- The columns of artifacts. The run is there only if the payload or the call names it. -/
def columns : List Column :=
  [.required "owner" .varchar, .required "repo" .varchar, .required "id" .bigInt,
   .optional "run_id" .bigInt, .required "name" .varchar, .optional "size_in_bytes" .bigInt,
   .required "expired" .boolean, .optional "head_branch" .varchar,
   .optional "archive_download_url" .varchar, .optional "created_at" .timestamp,
   .optional "updated_at" .timestamp, .optional "expires_at" .timestamp]

/-- Reads an artifact from its payload. -/
def decoder : Decoder Artifact :=
  Record.decoder (Artifact.mk <$> .required "id" Decoder.int64
    <*> .required "name" Decoder.string
    <*> .optional "size_in_bytes" Decoder.int64
    <*> .required "expired" Decoder.bool
    <*> .optional "archive_download_url" Decoder.string
    <*> .optional "workflow_run" ArtifactRun.decoder
    <*> .instant "created_at" <*> .instant "updated_at" <*> .instant "expires_at")

/-- The run of an artifact: the one its listing was made for, or else the one it names. -/
def runId (listedFor : Option Int64) (a : Artifact) : Option Int64 :=
  listedFor <|> a.workflowRun.bind ArtifactRun.id

/-- The row of an artifact in a listing of a repository, which may be made for one run. -/
def toRow (owner repo : String) (listedFor : Option Int64) (a : Artifact) : Row :=
  [.varchar owner, .varchar repo, .bigInt a.id, .optBigInt (a.runId listedFor), .varchar a.name,
   .optBigInt a.sizeInBytes, .boolean a.expired,
   .optVarchar (a.workflowRun.bind ArtifactRun.headBranch), .optVarchar a.archiveDownloadUrl,
   .optTimestamp a.createdAt, .optTimestamp a.updatedAt, .optTimestamp a.expiresAt]

end Artifact
end Github
end RemoteTables
