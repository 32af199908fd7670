import RemoteTables.Github.Entity.Account
import RemoteTables.Text.Integer

/-!
# Issues and their comments

A pull request is an issue too, told apart only by a member that any value but `null` may fill. A
comment names its issue by a link, and the number of the issue is what stands behind the last slash
of it, if that is a number.
-/

set_option autoImplicit false

namespace RemoteTables
namespace Github

/-- An issue. Pull requests are listed as issues too. -/
structure Issue where
  id : Int64
  number : Int64
  title : String
  state : String
  user : Option User
  labels : List Label
  assignees : List User
  comments : Option Int64
  body : Option String
  /-- There when the issue is a pull request. -/
  pullRequest : Option Unit
  htmlUrl : String
  createdAt : Option Int64
  updatedAt : Option Int64
  closedAt : Option Int64

namespace Issue

/-- The columns of issues: the repository, and then what the payload says. -/
def columns : List Column :=
  [.required "owner" .varchar, .required "repo" .varchar, .required "id" .bigInt,
   .required "number" .bigInt, .required "title" .varchar, .required "state" .varchar,
   .optional "user_login" .varchar, .required "label_ids" (.array .bigInt),
   .required "label_names" (.array .varchar), .required "assignee_logins" (.array .varchar),
   .optional "comments" .bigInt, .optional "body" .varchar, .required "is_pull_request" .boolean,
   .required "html_url" .varchar, .optional "created_at" .timestamp,
   .optional "updated_at" .timestamp, .optional "closed_at" .timestamp]

/-- Reads an issue. Labels and assignees that are not mentioned are none. -/
def decoder : Decoder Issue :=
  Record.decoder (Issue.mk <$> .required "id" Decoder.int64
    <*> .required "number" Decoder.int64
    <*> .required "title" Decoder.string
    <*> .required "state" Decoder.string
    <*> .optional "user" User.decoder
    <*> .withDefault "labels" [] (Decoder.list Label.decoder)
    <*> .withDefault "assignees" [] (Decoder.list User.decoder)
    <*> .optional "comments" Decoder.int64
    <*> .optional "body" Decoder.string
    <*> .optional "pull_request" Decoder.anything
    <*> .required "html_url" Decoder.string
    <*> .instant "created_at" <*> .instant "updated_at" <*> .instant "closed_at")

/-- The row of an issue in the listing of a repository. -/
def toRow (owner repo : String) (i : Issue) : Row :=
  [.varchar owner, .varchar repo, .bigInt i.id, .bigInt i.number, .varchar i.title,
   .varchar i.state, loginCell i.user, labelIdsCell i.labels, labelNamesCell i.labels,
   loginsCell i.assignees, .optBigInt i.comments, .optVarchar i.body,
   .boolean i.pullRequest.isSome, .varchar i.htmlUrl, .optTimestamp i.createdAt,
   .optTimestamp i.updatedAt, .optTimestamp i.closedAt]

end Issue

/-- A comment on an issue, which names the issue by a link. -/
structure IssueComment where
  id : Int64
  issueUrl : Option String
  user : Option User
  body : Option String
  authorAssociation : Option String
  htmlUrl : String
  createdAt : Option Int64
  updatedAt : Option Int64

namespace IssueComment

/-- The columns of comments. The number of the issue has to be found in its link. -/
def columns : List Column :=
  [.required "owner" .varchar, .required "repo" .varchar, .required "id" .bigInt,
   .optional "issue_number" .bigInt, .optional "user_login" .varchar, .optional "body" .varchar,
   .optional "author_association" .varchar, .required "html_url" .varchar,
   .optional "created_at" .timestamp, .optional "updated_at" .timestamp]

/-- Reads a comment from its payload. -/
def decoder : Decoder IssueComment :=
  Record.decoder (IssueComment.mk <$> .required "id" Decoder.int64
    <*> .optional "issue_url" Decoder.string
    <*> .optional "user" User.decoder
    <*> .optional "body" Decoder.string
    <*> .optional "author_association" Decoder.string
    <*> .required "html_url" Decoder.string
    <*> .instant "created_at" <*> .instant "updated_at")

/-- The number of the issue, from the last part of its link. -/
def issueNumber (c : IssueComment) : Option Int64 := do
  let last ← (Text.splitOn '/' (← c.issueUrl).toList).getLast?
  (Text.signed64? last).toOption

/-- The row of a comment in the listing of a repository. -/
def toRow (owner repo : String) (c : IssueComment) : Row :=
  [.varchar owner, .varchar repo, .bigInt c.id, .optBigInt c.issueNumber, loginCell c.user,
   .optVarchar c.body, .optVarchar c.authorAssociation, .varchar c.htmlUrl,
   .optTimestamp c.createdAt, .optTimestamp c.updatedAt]

end IssueComment
end Github
end RemoteTables
