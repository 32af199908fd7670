import RemoteTables.Github.Filter
import RemoteTables.Github.Entity.Artifact
import RemoteTables.Github.Entity.Issue
import RemoteTables.Github.Entity.Job
import RemoteTables.Github.Entity.PullRequest
import RemoteTables.Github.Entity.Repository
import RemoteTables.Github.Entity.Workflow
import RemoteTables.Http.Reply
import RemoteTables.Http.Request
import RemoteTables.Listing.Collect
import RemoteTables.Table.Fetch

/-!
# How the GitHub tables are read

Every table is read alike: the values that the path needs are taken from the constraint, and the
first one that is missing is a failure before anything is asked; then the listing is collected page
by page, and every row is checked before it counts toward the limit.

Two tables go their own ways. Jobs belong to a run; when no run is given, the runs of the repository
are gone through with the window of the split, and the jobs of each run are read whole, as long as
rows are wanted. Steps come inside jobs, so they are read in the same way, unless one job is asked
for: that is a single resource and no listing, and only the first window has it to read.
-/

set_option autoImplicit false

namespace RemoteTables
namespace Github

/-- A dialogue with the server. -/
abbrev Exchange (α : Type) := Dialogue Request Reply α

/-! ## Requests -/

/-- The owner and the name of a repository. -/
structure RepoScope where
  owner : String
  repo : String
  deriving DecidableEq

/-- The repository that a constraint names: the owner is missed first. -/
def RepoScope.ofConstraint (rules : FilterRules) (c : Constraint) : Except Failure RepoScope := do
  let owner ← rules.requireString c "owner"
  let repo ← rules.requireString c "repo"
  return ⟨owner, repo⟩

/-- A call below a repository. -/
def RepoScope.call (scope : RepoScope) (tail : List String) : Request :=
  .ofPath ("repos" :: scope.owner :: scope.repo :: tail)

/-- A number as a part of a path. -/
def pathNumber (n : Int64) : String := toString n.toInt

/-- The call for the jobs of a run, those of earlier attempts included. -/
def RepoScope.jobsOfRun (scope : RepoScope) (run : Int64) : Request :=
  (scope.call ["actions", "runs", pathNumber run, "jobs"]).param "filter" "all"

/-- A call that asks for an order, if there is one to ask for. -/
def sorted (call : Request) (sort : Option RemoteSort) : Request :=
  match sort with
  | some sort => (call.param "sort" sort.key).param "direction" sort.direction.param
  | none => call

/-! ## Pages -/

/-- Asks for one page of a listing, which may not be found. -/
def page {α : Type} (decode : Decoder (Page α)) (call : Request) (number : UInt32) :
    Exchange (Option (Page α)) := do
  let size := toString PageWindow.standardSize.toNat
  let reply ← .question
    ((call.param "per_page" size).param "page" (toString number.toNat))
  .ofExcept (reply.read decode)

/-- Collects the accepted rows of a listing, up to a limit. -/
def collect {α : Type} (request : FetchRequest) (decode : Decoder (Page α)) (call : Request)
    (window : PageWindow) (limit : UInt64) (rows : α → List Row) : Exchange (List Row) :=
  window.collect limit (page decode call) fun item => (rows item).filter request.accepts

/-- Collects the accepted rows of a listing as the request wants them. -/
def collectAll {α : Type} (request : FetchRequest) (decode : Decoder (Page α)) (call : Request)
    (row : α → Row) : Exchange (List Row) :=
  collect request decode call request.window request.limit fun item => [row item]

/-! ## Jobs -/

/-- Reads the jobs of one run in a window, up to a limit, and makes the rows of each. -/
def jobRows (request : FetchRequest) (scope : RepoScope) (rows : Job → List Row) (run : Int64)
    (window : PageWindow) (limit : UInt64) : Exchange (List Row) :=
  collect request (Page.countedDecoder Job.decoder) (scope.jobsOfRun run) window limit rows

/-- Adds the rows of the jobs of runs, one run after another, until the limit is reached. -/
def gatherRuns (request : FetchRequest) (scope : RepoScope) (rows : Job → List Row)
    (got : List Row) : List WorkflowRun → Exchange (List Row)
  | [] => .done got
  | run :: rest => do
    let remaining := request.limit - UInt64.ofNat got.length
    let more ← jobRows request scope rows run.id .whole remaining
    if request.limit.toNat ≤ (got ++ more).length then .done (got ++ more)
    else gatherRuns request scope rows (got ++ more) rest

/-- The accepted rows of the jobs of one run, or of all runs. -/
def readJobs (request : FetchRequest) (scope : RepoScope) (run : Option Int64)
    (rows : Job → List Row) : Exchange (List Row) :=
  match run with
  | some run => jobRows request scope rows run request.window request.limit
  | none =>
    request.window.walk request.limit
      (page (Page.countedDecoder WorkflowRun.decoder) (scope.call ["actions", "runs"]))
      (gatherRuns request scope rows)

/-! ## Tables -/

/-- Repositories are listed by owner. -/
def fetchRepos (request : FetchRequest) : Exchange (List Row) := do
  let owner ← .ofExcept (ownerRules.requireString request.constraint "owner")
  collectAll request (Page.bareDecoder Repository.decoder)
    (sorted (.ofPath ["users", owner, "repos"]) request.sort) (Repository.toRow owner)

/-- The state that a listing is asked for: the bound one, or else all. -/
def stateParam (rules : FilterRules) (c : Constraint) : String :=
  (rules.boundString? c "state").getD "all"

/-- Issues may be asked for by state and by the time of the last change. -/
def fetchIssues (request : FetchRequest) : Exchange (List Row) := do
  let scope ← .ofExcept (RepoScope.ofConstraint issueRules request.constraint)
  let call := ((scope.call ["issues"]).param "state"
    (stateParam issueRules request.constraint)).paramIfAny "since"
      (updatedSince request.constraint)
  collectAll request (Page.bareDecoder Issue.decoder) (sorted call request.sort)
    (Issue.toRow scope.owner scope.repo)

/-- Comments of all issues may be asked for by the time of the last change. -/
def fetchIssueComments (request : FetchRequest) : Exchange (List Row) := do
  let scope ← .ofExcept (RepoScope.ofConstraint issueCommentRules request.constraint)
  let call := (scope.call ["issues", "comments"]).paramIfAny "since"
    (updatedSince request.constraint)
  collectAll request (Page.bareDecoder IssueComment.decoder) (sorted call request.sort)
    (IssueComment.toRow scope.owner scope.repo)

/-- Pull requests may be asked for by state. -/
def fetchPulls (request : FetchRequest) : Exchange (List Row) := do
  let scope ← .ofExcept (RepoScope.ofConstraint pullRules request.constraint)
  let call := (scope.call ["pulls"]).param "state" (stateParam pullRules request.constraint)
  collectAll request (Page.bareDecoder PullRequest.decoder) (sorted call request.sort)
    (PullRequest.toRow scope.owner scope.repo)

/-- Commits are listed by pull request. -/
def fetchPullCommits (request : FetchRequest) : Exchange (List Row) := do
  let scope ← .ofExcept (RepoScope.ofConstraint pullScopedRules request.constraint)
  let number ← .ofExcept (pullScopedRules.requireInt request.constraint "pull_number")
  collectAll request (Page.bareDecoder PullCommit.decoder)
    (scope.call ["pulls", pathNumber number, "commits"])
    (PullCommit.toRow scope.owner scope.repo number)

/-- Reviews are listed by pull request. -/
def fetchReviews (request : FetchRequest) : Exchange (List Row) := do
  let scope ← .ofExcept (RepoScope.ofConstraint pullScopedRules request.constraint)
  let number ← .ofExcept (pullScopedRules.requireInt request.constraint "pull_number")
  collectAll request (Page.bareDecoder Review.decoder)
    (scope.call ["pulls", pathNumber number, "reviews"])
    (Review.toRow scope.owner scope.repo number)

/-- Workflows are listed whole. -/
def fetchWorkflows (request : FetchRequest) : Exchange (List Row) := do
  let scope ← .ofExcept (RepoScope.ofConstraint repoRules request.constraint)
  collectAll request (Page.countedDecoder Workflow.decoder) (scope.call ["actions", "workflows"])
    (Workflow.toRow scope.owner scope.repo)

/-- Runs may be asked for by status. -/
def fetchRuns (request : FetchRequest) : Exchange (List Row) := do
  let scope ← .ofExcept (RepoScope.ofConstraint runRules request.constraint)
  let call := (scope.call ["actions", "runs"]).paramIfAny "status"
    (runRules.boundString? request.constraint "status")
  collectAll request (Page.countedDecoder WorkflowRun.decoder) call
    (WorkflowRun.toRow scope.owner scope.repo)

/-- Jobs are those of one run, or of all runs. -/
def fetchJobs (request : FetchRequest) : Exchange (List Row) := do
  let scope ← .ofExcept (RepoScope.ofConstraint runScopedRules request.constraint)
  readJobs request scope (runScopedRules.boundInt? request.constraint "run_id")
    fun job => [job.toRow scope.owner scope.repo]

/-- The steps of one job, which is asked for by its number. -/
def fetchStepsOfJob (request : FetchRequest) (scope : RepoScope) (job : Int64) :
    Exchange (List Row) :=
  if 0 < request.window.offset then .done []
  else do
    let reply ← .question (scope.call ["actions", "jobs", pathNumber job])
    match ← .ofExcept (reply.read Job.decoder) with
    | none => return []
    | some job =>
      return ((job.stepRows scope.owner scope.repo).filter request.accepts).take
        request.limit.toNat

/-- The steps of a job, of a run, or of the runs of a repository. -/
def fetchSteps (request : FetchRequest) : Exchange (List Row) := do
  let scope ← .ofExcept (RepoScope.ofConstraint stepRules request.constraint)
  match stepRules.boundInt? request.constraint "job_id" with
  | some job => fetchStepsOfJob request scope job
  | none =>
    readJobs request scope (stepRules.boundInt? request.constraint "run_id")
      (Job.stepRows scope.owner scope.repo)

/-- Artifacts are those of one run, or of the repository. -/
def fetchArtifacts (request : FetchRequest) : Exchange (List Row) := do
  let scope ← .ofExcept (RepoScope.ofConstraint runScopedRules request.constraint)
  let run := runScopedRules.boundInt? request.constraint "run_id"
  let call := match run with
    | some run => scope.call ["actions", "runs", pathNumber run, "artifacts"]
    | none => scope.call ["actions", "artifacts"]
  collectAll request (Page.countedDecoder Artifact.decoder) call
    (Artifact.toRow scope.owner scope.repo run)

end Github
end RemoteTables
