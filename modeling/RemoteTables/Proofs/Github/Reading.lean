import RemoteTables.Github.Tables

/-!
# The shapes in which the tables are read

There are eleven tables and three shapes of reading: a listing, the jobs of all runs, and a single
job. Which shape it is, with which call, is decided by the constraint and the sort alone
(`readingOf`); the limit and the window only say how much of it is read. A table is read just as its
shape says (`fetch_eq`), so whatever holds of the three shapes, for all limits and windows, holds of
every table.
-/

set_option autoImplicit false

namespace RemoteTables
namespace Github

/-- The request for a page of a listing. -/
def paged (call : Request) (number : UInt32) : Request :=
  (call.param "per_page" "100").param "page" (toString number.toNat)

/-- A shape of reading. -/
inductive Reading : Type 1 where
  /-- One listing, with the rows of an item. -/
  | listing {α : Type} (decode : Decoder (Page α)) (call : Request) (rows : α → List Row)
  /-- The jobs of all runs of a repository, with the rows of a job. -/
  | runs (scope : RepoScope) (rows : Job → List Row)
  /-- The steps of a single job. -/
  | job (scope : RepoScope) (number : Int64)

/-- What is asked in a shape of reading, and the rows that come of it. -/
def Reading.exchange (request : FetchRequest) : Reading → Exchange (List Row)
  | listing decode call rows => collect request decode call request.window request.limit rows
  | runs scope rows => readJobs request scope none rows
  | job scope number => fetchStepsOfJob request scope number

/-- What is asked in a shape of reading, unless a value is missing. -/
def exchangeOf (request : FetchRequest) : Except Failure Reading → Exchange (List Row)
  | .ok reading => reading.exchange request
  | .error failure => .failed failure

/-- The jobs of one run if there is one, and else of all runs. -/
def Reading.jobs (scope : RepoScope) (run : Option Int64) (rows : Job → List Row) : Reading :=
  match run with
  | some run => .listing (Page.countedDecoder Job.decoder) (scope.jobsOfRun run) rows
  | none => .runs scope rows

/-- The values that are needed first, or the failure of the first one that is missing. -/
def needing {σ : Type} (value : Except Failure σ) (read : σ → Except Failure Reading) :
    Except Failure Reading :=
  match value with
  | .ok value => read value
  | .error failure => .error failure

/-- The shape in which a table is read under a constraint and a sort, unless a value is missing. -/
def readingOf (table : String) (c : Constraint) (sort : Option RemoteSort) :
    Except Failure Reading :=
  match table with
  | "repos" =>
    needing (ownerRules.requireString c "owner") fun owner => .ok <|
      .listing (Page.bareDecoder Repository.decoder)
        (sorted (.ofPath ["users", owner, "repos"]) sort) fun repo => [repo.toRow owner]
  | "issues" =>
    needing (RepoScope.ofConstraint issueRules c) fun scope => .ok <|
      .listing (Page.bareDecoder Issue.decoder)
        (sorted (((scope.call ["issues"]).param "state" (stateParam issueRules c)).paramIfAny "since"
          (updatedSince c)) sort) fun issue => [issue.toRow scope.owner scope.repo]
  | "issue_comments" =>
    needing (RepoScope.ofConstraint issueCommentRules c) fun scope => .ok <|
      .listing (Page.bareDecoder IssueComment.decoder)
        (sorted ((scope.call ["issues", "comments"]).paramIfAny "since" (updatedSince c)) sort)
        fun comment => [comment.toRow scope.owner scope.repo]
  | "pulls" =>
    needing (RepoScope.ofConstraint pullRules c) fun scope => .ok <|
      .listing (Page.bareDecoder PullRequest.decoder)
        (sorted ((scope.call ["pulls"]).param "state" (stateParam pullRules c)) sort)
        fun pull => [pull.toRow scope.owner scope.repo]
  | "pull_commits" =>
    needing (RepoScope.ofConstraint pullScopedRules c) fun scope =>
      needing (pullScopedRules.requireInt c "pull_number") fun number => .ok <|
        .listing (Page.bareDecoder PullCommit.decoder)
          (scope.call ["pulls", pathNumber number, "commits"])
          fun commit => [commit.toRow scope.owner scope.repo number]
  | "reviews" =>
    needing (RepoScope.ofConstraint pullScopedRules c) fun scope =>
      needing (pullScopedRules.requireInt c "pull_number") fun number => .ok <|
        .listing (Page.bareDecoder Review.decoder)
          (scope.call ["pulls", pathNumber number, "reviews"])
          fun review => [review.toRow scope.owner scope.repo number]
  | "workflows" =>
    needing (RepoScope.ofConstraint repoRules c) fun scope => .ok <|
      .listing (Page.countedDecoder Workflow.decoder) (scope.call ["actions", "workflows"])
        fun workflow => [workflow.toRow scope.owner scope.repo]
  | "runs" =>
    needing (RepoScope.ofConstraint runRules c) fun scope => .ok <|
      .listing (Page.countedDecoder WorkflowRun.decoder)
        ((scope.call ["actions", "runs"]).paramIfAny "status" (runRules.boundString? c "status"))
        fun run => [run.toRow scope.owner scope.repo]
  | "jobs" =>
    needing (RepoScope.ofConstraint runScopedRules c) fun scope => .ok <|
      .jobs scope (runScopedRules.boundInt? c "run_id")
        fun job => [job.toRow scope.owner scope.repo]
  | "steps" =>
    needing (RepoScope.ofConstraint stepRules c) fun scope => .ok <|
      match stepRules.boundInt? c "job_id" with
      | some number => .job scope number
      | none => .jobs scope (stepRules.boundInt? c "run_id")
        (Job.stepRows scope.owner scope.repo)
  | "artifacts" =>
    needing (RepoScope.ofConstraint runScopedRules c) fun scope => .ok <|
      let run := runScopedRules.boundInt? c "run_id"
      .listing (Page.countedDecoder Artifact.decoder)
        (match run with
          | some run => scope.call ["actions", "runs", pathNumber run, "artifacts"]
          | none => scope.call ["actions", "artifacts"])
        fun artifact => [artifact.toRow scope.owner scope.repo run]
  | table => .error (.unknownTable table)

section Shapes

variable {σ : Type}

/-- Values that are needed first are taken one after another on both sides. -/
theorem ofExcept_bind {value : Except Failure σ} {read : σ → Except Failure Reading}
    {fetch : σ → Exchange (List Row)} {request : FetchRequest}
    (h : ∀ value, fetch value = exchangeOf request (read value)) :
    Dialogue.ofExcept value >>= fetch = exchangeOf request (needing value read) := by
  cases value with
  | error failure => rfl
  | ok value => exact h value

theorem readJobs_eq (request : FetchRequest) (scope : RepoScope) (run : Option Int64)
    (rows : Job → List Row) :
    readJobs request scope run rows = (Reading.jobs scope run rows).exchange request := by
  cases run <;> rfl

/-- **Every table is read in its shape**, and neither the limit nor the window decides in which. -/
theorem fetch_eq {t : TableDefinition Request Reply} (ht : t ∈ tables) (request : FetchRequest) :
    t.fetch request =
      exchangeOf request (readingOf t.name request.constraint request.sort) := by
  simp only [tables, List.mem_cons, List.not_mem_nil, or_false] at ht
  rcases ht with rfl | rfl | rfl | rfl | rfl | rfl | rfl | rfl | rfl | rfl | rfl
  -- every table needs an owner first, and all but one a repository
  all_goals refine ofExcept_bind fun scope => ?_
  iterate 4 exact rfl
  -- commits and reviews need the number of the pull request as well
  iterate 2 exact ofExcept_bind fun number => rfl
  iterate 2 exact rfl
  · exact readJobs_eq request scope _ _
  · show (match stepRules.boundInt? request.constraint "job_id" with
      | some job => fetchStepsOfJob request scope job
      | none => readJobs request scope (stepRules.boundInt? request.constraint "run_id")
        (Job.stepRows scope.owner scope.repo)) = Reading.exchange request _
    cases stepRules.boundInt? request.constraint "job_id" with
    | some number => rfl
    | none => exact readJobs_eq request scope _ _
  · rfl

end Shapes

/-! ## Reading a handle -/

section Read

variable {ρ β : Type} {t : TableDefinition ρ β} {h : TableHandle}

theorem read_eq_done (hnothing : h.limit = 0 ∨ h.constraint.isNone = true) :
    t.read h = .done [] := by
  rw [TableDefinition.read, if_pos hnothing]

theorem read_eq (hlimit : h.limit ≠ 0) (hnone : h.constraint.isNone = false) :
    t.read h = Dialogue.ofExcept (t.checks h.constraint) >>= fun enforced => do
      let rows ← t.fetch ⟨h, t.sortOf h, enforced⟩
      return rows.filter (FetchRequest.mk h (t.sortOf h) enforced).accepts := by
  rw [TableDefinition.read, if_neg (by simp [hlimit, hnone])]

end Read

/-! ## The tables of the connector -/

theorem mem_of_mem_insertTable {ρ β : Type} {t u : TableDefinition ρ β}
    {others : List (TableDefinition ρ β)} (h : u ∈ Connector.insertTable t others) :
    u = t ∨ u ∈ others := by
  induction others with
  | nil => exact Or.inl (List.mem_singleton.mp h)
  | cons first rest ih =>
    rw [Connector.insertTable] at h
    split at h
    · exact List.mem_cons.mp h
    · exact (List.mem_cons.mp h).imp_right (List.mem_cons_of_mem first)
    · rcases List.mem_cons.mp h with rfl | h
      · exact Or.inr List.mem_cons_self
      · exact (ih h).imp_right (List.mem_cons_of_mem first)

theorem mem_of_mem_foldl_insertTable {ρ β : Type} {u : TableDefinition ρ β}
    {given sorted : List (TableDefinition ρ β)}
    (h : u ∈ given.foldl (fun sorted t => Connector.insertTable t sorted) sorted) :
    u ∈ given ∨ u ∈ sorted := by
  induction given generalizing sorted with
  | nil => exact Or.inr h
  | cons first rest ih =>
    rcases ih h with h | h
    · exact Or.inl (List.mem_cons_of_mem _ h)
    · rcases mem_of_mem_insertTable h with rfl | h
      · exact Or.inl List.mem_cons_self
      · exact Or.inr h

/-- The connector finds no table but the eleven. -/
theorem mem_tables_of_tableFor {settings : Settings} {name : TableName}
    {t : TableDefinition Request Reply} (h : (connector settings).tableFor name = .ok t) :
    t ∈ tables := by
  unfold Connector.tableFor at h
  split at h
  · split at h
    · rename_i found hfound
      obtain rfl := Except.ok.inj h
      exact (mem_of_mem_foldl_insertTable (List.mem_of_find?_eq_some hfound)).resolve_right
        List.not_mem_nil
    · cases h
  · cases h

end Github
end RemoteTables
