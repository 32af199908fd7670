import RemoteTables.Github.Entity.Account

/-!
# Repositories

The payload of a repository and its row. The owner is not taken from the payload: a listing is made
for one owner, and that owner stands in every row.
-/

set_option autoImplicit false

namespace RemoteTables
namespace Github

/-- A repository of an owner. -/
structure Repository where
  id : Int64
  name : String
  fullName : String
  description : Option String
  isPrivate : Bool
  isFork : Bool
  htmlUrl : String
  language : Option String
  defaultBranch : Option String
  stargazersCount : Option Int64
  forksCount : Option Int64
  openIssuesCount : Option Int64
  createdAt : Option Int64
  updatedAt : Option Int64
  pushedAt : Option Int64

namespace Repository

/-- The columns of repositories: the owner of the call, and then what the payload says. -/
def columns : List Column :=
  [.required "owner" .varchar, .required "id" .bigInt, .required "name" .varchar,
   .required "full_name" .varchar, .optional "description" .varchar, .required "private" .boolean,
   .required "fork" .boolean, .required "html_url" .varchar, .optional "language" .varchar,
   .optional "default_branch" .varchar, .optional "stargazers_count" .bigInt,
   .optional "forks_count" .bigInt, .optional "open_issues_count" .bigInt,
   .optional "created_at" .timestamp, .optional "updated_at" .timestamp,
   .optional "pushed_at" .timestamp]

/-- Reads a repository from its payload. -/
def decoder : Decoder Repository :=
  Record.decoder (Repository.mk <$> .required "id" Decoder.int64
    <*> .required "name" Decoder.string
    <*> .required "full_name" Decoder.string
    <*> .optional "description" Decoder.string
    <*> .required "private" Decoder.bool
    <*> .required "fork" Decoder.bool
    <*> .required "html_url" Decoder.string
    <*> .optional "language" Decoder.string
    <*> .optional "default_branch" Decoder.string
    <*> .optional "stargazers_count" Decoder.int64
    <*> .optional "forks_count" Decoder.int64
    <*> .optional "open_issues_count" Decoder.int64
    <*> .instant "created_at" <*> .instant "updated_at" <*> .instant "pushed_at")

/-- The row of a repository in the listing of an owner. -/
def toRow (owner : String) (r : Repository) : Row :=
  [.varchar owner, .bigInt r.id, .varchar r.name, .varchar r.fullName, .optVarchar r.description,
   .boolean r.isPrivate, .boolean r.isFork, .varchar r.htmlUrl, .optVarchar r.language,
   .optVarchar r.defaultBranch, .optBigInt r.stargazersCount, .optBigInt r.forksCount,
   .optBigInt r.openIssuesCount, .optTimestamp r.createdAt, .optTimestamp r.updatedAt,
   .optTimestamp r.pushedAt]

end Repository
end Github
end RemoteTables
