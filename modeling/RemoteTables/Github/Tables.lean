import RemoteTables.Github.Fetch
import RemoteTables.Connector

/-!
# The GitHub tables

The eleven tables of the schema, each with its columns, what it narrows and sorts by itself, and how
it is read.
-/

set_option autoImplicit false

namespace RemoteTables
namespace Github

def schemaName : String := "github"

/-- The sorts by the times of making and of the last change. -/
def timeSorts : List SupportedSort :=
  SupportedSort.bothWays [("created_at", "created"), ("updated_at", "updated")]

/-- The orders that the server knows for repositories. -/
def repoSorts : List SupportedSort :=
  timeSorts ++ SupportedSort.bothWays [("pushed_at", "pushed"), ("full_name", "full_name")]

/-- The eleven tables, each with its columns, rules, orders and way of reading. -/
def tables : List (TableDefinition Request Reply) :=
  [⟨"repos", Repository.columns, some ownerRules, repoSorts, fetchRepos⟩,
   ⟨"issues", Issue.columns, some issueRules, timeSorts, fetchIssues⟩,
   ⟨"issue_comments", IssueComment.columns, some issueCommentRules, timeSorts, fetchIssueComments⟩,
   ⟨"pulls", PullRequest.columns, some pullRules, timeSorts, fetchPulls⟩,
   ⟨"pull_commits", PullCommit.columns, some pullScopedRules, [], fetchPullCommits⟩,
   ⟨"reviews", Review.columns, some pullScopedRules, [], fetchReviews⟩,
   ⟨"workflows", Workflow.columns, some repoRules, [], fetchWorkflows⟩,
   ⟨"runs", WorkflowRun.columns, some runRules, [], fetchRuns⟩,
   ⟨"jobs", Job.columns, some runScopedRules, [], fetchJobs⟩,
   ⟨"steps", Step.columns, some stepRules, [], fetchSteps⟩,
   ⟨"artifacts", Artifact.columns, some runScopedRules, [], fetchArtifacts⟩]

/-- The connector of all tables, with some settings. -/
def connector (settings : Settings) : Connector Request Reply :=
  .ofTables schemaName tables settings

end Github
end RemoteTables
