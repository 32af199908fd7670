import RemoteTables.Github.Entity.Account

/-!
# Pull requests, their commits and their reviews

Commits and reviews are listed for one pull request, whose number is part of the request and not of
the payload. A commit has two authors: the one that the commit itself records, and the account that
the address of that author belongs to, if there is one.
-/

set_option autoImplicit false

namespace RemoteTables
namespace Github

/-- One end of a pull request: a branch and a commit on it. -/
structure BranchRef where
  refName : String
  sha : String

def BranchRef.decoder : Decoder BranchRef :=
  Record.decoder (BranchRef.mk <$> .required "ref" Decoder.string
    <*> .required "sha" Decoder.string)

/-- A pull request, from one branch to another. -/
structure PullRequest where
  id : Int64
  number : Int64
  title : String
  state : String
  user : Option User
  body : Option String
  draft : Option Bool
  head : Option BranchRef
  base : Option BranchRef
  labels : List Label
  requestedReviewers : List User
  htmlUrl : String
  createdAt : Option Int64
  updatedAt : Option Int64
  closedAt : Option Int64
  mergedAt : Option Int64

namespace PullRequest

/-- The columns of pull requests: the repository, and then what the payload says. -/
def columns : List Column :=
  [.required "owner" .varchar, .required "repo" .varchar, .required "id" .bigInt,
   .required "number" .bigInt, .required "title" .varchar, .required "state" .varchar,
   .optional "user_login" .varchar, .optional "body" .varchar, .optional "draft" .boolean,
   .optional "head_ref" .varchar, .optional "head_sha" .varchar, .optional "base_ref" .varchar,
   .required "label_ids" (.array .bigInt), .required "label_names" (.array .varchar),
   .required "requested_reviewer_ids" (.array .bigInt),
   .required "requested_reviewer_logins" (.array .varchar), .required "html_url" .varchar,
   .optional "created_at" .timestamp, .optional "updated_at" .timestamp,
   .optional "closed_at" .timestamp, .optional "merged_at" .timestamp]

/-- Reads a pull request. Labels and reviewers that are not mentioned are none. -/
def decoder : Decoder PullRequest :=
  Record.decoder (PullRequest.mk <$> .required "id" Decoder.int64
    <*> .required "number" Decoder.int64
    <*> .required "title" Decoder.string
    <*> .required "state" Decoder.string
    <*> .optional "user" User.decoder
    <*> .optional "body" Decoder.string
    <*> .optional "draft" Decoder.bool
    <*> .optional "head" BranchRef.decoder
    <*> .optional "base" BranchRef.decoder
    <*> .withDefault "labels" [] (Decoder.list Label.decoder)
    <*> .withDefault "requested_reviewers" [] (Decoder.list User.decoder)
    <*> .required "html_url" Decoder.string
    <*> .instant "created_at" <*> .instant "updated_at" <*> .instant "closed_at"
    <*> .instant "merged_at")

/-- The row of a pull request in the listing of a repository. -/
def toRow (owner repo : String) (p : PullRequest) : Row :=
  [.varchar owner, .varchar repo, .bigInt p.id, .bigInt p.number, .varchar p.title,
   .varchar p.state, loginCell p.user, .optVarchar p.body, .optBoolean p.draft,
   .optVarchar (p.head.map BranchRef.refName), .optVarchar (p.head.map BranchRef.sha),
   .optVarchar (p.base.map BranchRef.refName), labelIdsCell p.labels, labelNamesCell p.labels,
   accountIdsCell p.requestedReviewers, loginsCell p.requestedReviewers, .varchar p.htmlUrl,
   .optTimestamp p.createdAt, .optTimestamp p.updatedAt, .optTimestamp p.closedAt,
   .optTimestamp p.mergedAt]

end PullRequest

/-- The author or the committer that a commit records. -/
structure Signature where
  name : Option String
  email : Option String
  date : Option Int64

def Signature.decoder : Decoder Signature :=
  Record.decoder (Signature.mk <$> .optional "name" Decoder.string
    <*> .optional "email" Decoder.string <*> .instant "date")

/-- What the commit itself records, apart from any account. -/
structure CommitDetail where
  message : String
  author : Option Signature
  committer : Option Signature

def CommitDetail.decoder : Decoder CommitDetail :=
  Record.decoder (CommitDetail.mk <$> .required "message" Decoder.string
    <*> .optional "author" Signature.decoder <*> .optional "committer" Signature.decoder)

/-- A commit of a pull request. -/
structure PullCommit where
  sha : String
  commit : CommitDetail
  /-- The account of the author. -/
  author : Option User
  htmlUrl : Option String

namespace PullCommit

/-- The columns of commits. The number of the pull request is that of the call. -/
def columns : List Column :=
  [.required "owner" .varchar, .required "repo" .varchar, .required "pull_number" .bigInt,
   .required "sha" .varchar, .required "message" .varchar, .optional "author_name" .varchar,
   .optional "author_email" .varchar, .optional "author_date" .timestamp,
   .optional "author_login" .varchar, .optional "committer_name" .varchar,
   .optional "committer_date" .timestamp, .optional "html_url" .varchar]

/-- Reads a commit from its payload. -/
def decoder : Decoder PullCommit :=
  Record.decoder (PullCommit.mk <$> .required "sha" Decoder.string
    <*> .required "commit" CommitDetail.decoder
    <*> .optional "author" User.decoder
    <*> .optional "html_url" Decoder.string)

/-- The row of a commit in the listing of a pull request. -/
def toRow (owner repo : String) (pullNumber : Int64) (c : PullCommit) : Row :=
  let author := c.commit.author
  let committer := c.commit.committer
  [.varchar owner, .varchar repo, .bigInt pullNumber, .varchar c.sha, .varchar c.commit.message,
   .optVarchar (author.bind Signature.name), .optVarchar (author.bind Signature.email),
   .optTimestamp (author.bind Signature.date), loginCell c.author,
   .optVarchar (committer.bind Signature.name), .optTimestamp (committer.bind Signature.date),
   .optVarchar c.htmlUrl]

end PullCommit

/-- A review of a pull request. -/
structure Review where
  id : Int64
  user : Option User
  state : String
  body : Option String
  commitId : Option String
  htmlUrl : Option String
  submittedAt : Option Int64

namespace Review

/-- The columns of reviews. The number of the pull request is that of the call. -/
def columns : List Column :=
  [.required "owner" .varchar, .required "repo" .varchar, .required "pull_number" .bigInt,
   .required "id" .bigInt, .optional "user_login" .varchar, .required "state" .varchar,
   .optional "body" .varchar, .optional "commit_id" .varchar, .optional "html_url" .varchar,
   .optional "submitted_at" .timestamp]

/-- Reads a review from its payload. -/
def decoder : Decoder Review :=
  Record.decoder (Review.mk <$> .required "id" Decoder.int64
    <*> .optional "user" User.decoder
    <*> .required "state" Decoder.string
    <*> .optional "body" Decoder.string
    <*> .optional "commit_id" Decoder.string
    <*> .optional "html_url" Decoder.string
    <*> .instant "submitted_at")

/-- The row of a review in the listing of a pull request. -/
def toRow (owner repo : String) (pullNumber : Int64) (r : Review) : Row :=
  [.varchar owner, .varchar repo, .bigInt pullNumber, .bigInt r.id, loginCell r.user,
   .varchar r.state, .optVarchar r.body, .optVarchar r.commitId, .optVarchar r.htmlUrl,
   .optTimestamp r.submittedAt]

end Review
end Github
end RemoteTables
