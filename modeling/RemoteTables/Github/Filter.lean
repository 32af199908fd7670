import RemoteTables.Pushdown
import RemoteTables.Calendar.Instant

/-!
# What the GitHub tables narrow themselves

Every table is listed under an owner, and all but one under a repository too, since both stand in
the path of the request. The other equalities are a parameter, a further part of the path, or a
check of the rows. Only the time of the last change is a bound: the server takes a whole second
(`updatedSince`), so the bound is rounded down and the engine looks again.
-/

set_option autoImplicit false

namespace RemoteTables
namespace Github

/-- Repositories are bound to an owner. -/
def ownerRules : FilterRules := [("owner", .equal)]

/-- Everything in a repository is bound to the repository. -/
def repoRules : FilterRules := [("owner", .equal), ("repo", .equal)]

/-- Issues are also held equal to a state, and to a period that the engine checks again. -/
def issueRules : FilterRules := repoRules ++ [("state", .equal), ("updated_at", .range)]

def issueCommentRules : FilterRules := repoRules ++ [("updated_at", .range)]

def pullRules : FilterRules := repoRules ++ [("state", .equal)]

/-- Commits and reviews are also bound to a pull request. -/
def pullScopedRules : FilterRules := repoRules ++ [("pull_number", .equal)]

def runRules : FilterRules := repoRules ++ [("status", .equal)]

/-- Tables listed under a run, or under all runs. -/
def runScopedRules : FilterRules := repoRules ++ [("run_id", .equal)]

/-- Steps are also held equal to a job and to a conclusion. -/
def stepRules : FilterRules :=
  runScopedRules ++ [("job_id", .equal), ("conclusion", .equal)]

/-- The second from which on changes are wanted, if the time of the last change has a lower bound
that can be written as a date. -/
def updatedSince (c : Constraint) : Option String :=
  match (c.domain? "updated_at").bind Domain.lowerBound? with
  | some (.timestamp millis) => Calendar.renderInstant? millis.toInt
  | _ => none

end Github
end RemoteTables
