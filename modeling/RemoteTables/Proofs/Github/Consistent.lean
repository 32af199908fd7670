import RemoteTables.Proofs.Github.Windows

/-!
# Consistent servers

A repository can be asked for the same thing in several ways: issues under one state or under all,
the jobs of one run or of every run, a job in its run or by its own number. A server is consistent if
all its answers tell of one repository (`Consistent`).

Which way a table goes is decided by the constraint: a column that is bound to one value makes the
call narrower. It makes no difference to the rows. Of a consistent server, the narrow call and the
wide one have the same rows that pass the check of the constraint (`Consistent.agrees`). The reason is
one and the same for every column: a row that passes the check has the value that the column is
bound to, and what the narrow call leaves out does not have it.
-/

set_option autoImplicit false

namespace RemoteTables
namespace Github

open PageWindow

/-! ## Narrow and wide lists -/

section Lists

variable {α γ : Type}

/-- Items whose rows all fail a check can be left out before the check. -/
theorem filter_flatMap_filter {items : List α} {rows : α → List γ} {p : γ → Bool} {q : α → Bool}
    (h : ∀ item ∈ items, ∀ row ∈ rows item, p row = true → q item = true) :
    ((items.filter q).flatMap rows).filter p = (items.flatMap rows).filter p := by
  induction items with
  | nil => rfl
  | cons item rest ih =>
    have hrest := ih fun other ho => h other (List.mem_cons_of_mem _ ho)
    rw [List.flatMap_cons, List.filter_append, ← hrest, List.filter_cons]
    by_cases hq : q item = true
    · rw [if_pos hq, List.flatMap_cons, List.filter_append]
    · have hnone : (rows item).filter p = [] :=
        List.filter_eq_nil_iff.mpr fun row hrow hp => hq (h item List.mem_cons_self row hrow hp)
      rw [if_neg hq, hnone, List.nil_append]

/-- A part that leaves out only items that fail a check is as good as the whole. -/
theorem filter_eq_of_sublist {part items : List α} {q : α → Bool} (hpart : part.Sublist items)
    (hkept : (items.filter q).Sublist part) : part.filter q = items.filter q := by
  refine (hpart.filter q).eq_of_length_le ?_
  have htwice := hkept.filter q
  rw [List.filter_filter] at htwice
  simp only [Bool.and_self] at htwice
  exact htwice.length_le

/-- Of items with different numbers at most one has a number. -/
theorem filter_eq_toList_find? {key : α → Int64} {items : List α} (h : (items.map key).Nodup)
    (n : Int64) :
    items.filter (fun item => key item == n) = (items.find? fun item => key item == n).toList := by
  induction items with
  | nil => rfl
  | cons item rest ih =>
    obtain ⟨hfirst, hrest⟩ := List.nodup_cons.mp h
    rw [List.filter_cons, List.find?_cons]
    by_cases hkey : key item = n
    · have hnone : rest.filter (fun other => key other == n) = [] := by
        rw [List.filter_eq_nil_iff]
        intro other ho hsame
        exact hfirst (List.mem_map.mpr ⟨other, ho, (beq_iff_eq.mp hsame).trans hkey.symm⟩)
      rw [if_pos (beq_iff_eq.mpr hkey), hnone, beq_iff_eq.mpr hkey]
      rfl
    · rw [if_neg (by rwa [beq_iff_eq]), beq_false_of_ne hkey]
      exact ih hrest

/-- Of lists that are kept by number, one can be found among all. -/
theorem filter_flatMap_key {key : α → Int64} {lists : Int64 → List α}
    (hkey : ∀ n, ∀ item ∈ lists n, key item = n) {numbers : List Int64} (h : numbers.Nodup)
    (n : Int64) :
    (numbers.flatMap lists).filter (fun item => key item == n) =
      if n ∈ numbers then lists n else [] := by
  induction numbers with
  | nil => rfl
  | cons first rest ih =>
    obtain ⟨hfirst, hrest⟩ := List.nodup_cons.mp h
    rw [List.flatMap_cons, List.filter_append, ih hrest]
    by_cases hn : n = first
    · subst hn
      rw [if_neg hfirst, if_pos List.mem_cons_self, List.append_nil, List.filter_eq_self]
      exact fun item hitem => beq_iff_eq.mpr (hkey n item hitem)
    · have hnone : (lists first).filter (fun item => key item == n) = [] := by
        rw [List.filter_eq_nil_iff]
        exact fun item hitem hsame => hn ((beq_iff_eq.mp hsame).symm.trans (hkey first item hitem))
      rw [hnone, List.nil_append]
      simp only [List.mem_cons, hn, false_or]

end Lists

/-! ## Repositories -/

/-- What there is in a repository. -/
structure Contents where
  /-- The issues that were changed since a time, if one is given, in the order of a sort. -/
  issues : Option String → Option RemoteSort → List Issue
  pulls : Option RemoteSort → List PullRequest
  runs : List WorkflowRun
  /-- The jobs of the run of a number. -/
  jobs : Int64 → List Job

/-- The jobs of all runs, run by run. -/
def Contents.allJobs (contents : Contents) : List Job :=
  contents.runs.flatMap fun run => contents.jobs run.id

/-- The rows of a table, before any check. -/
def Contents.rows (contents : Contents) (scope : RepoScope) (since : Option String)
    (sort : Option RemoteSort) : (table : String) → List Row
  | "issues" => (contents.issues since sort).flatMap fun issue =>
    [issue.toRow scope.owner scope.repo]
  | "pulls" => (contents.pulls sort).flatMap fun pull => [pull.toRow scope.owner scope.repo]
  | "runs" => contents.runs.flatMap fun run => [run.toRow scope.owner scope.repo]
  | "jobs" => contents.allJobs.flatMap fun job => [job.toRow scope.owner scope.repo]
  | "steps" => contents.allJobs.flatMap (Job.stepRows scope.owner scope.repo)
  | _ => []

/-- Whether a collection is listed honestly, as a whole and under every value of a parameter. Under a
value there is a part of the collection, with at least the items that have the value. -/
structure Listed {α : Type} (decode : Decoder (Page α)) (whole : Request)
    (under : String → Request) (value : α → Option String) (stride : Nat)
    (answer : Request → Reply) (items : List α) : Prop where
  bound : items.length / 100 + stride < UInt32.size
  whole : Serves (page decode whole) answer items
  under : ∀ v, ∃ part : List α, part.Sublist items ∧
    (items.filter fun item => value item == some v).Sublist part ∧
    Serves (page decode (under v)) answer part

/-- The call for the issues of a state. -/
def RepoScope.issues (scope : RepoScope) (since : Option String) (sort : Option RemoteSort)
    (state : String) : Request :=
  sorted (((scope.call ["issues"]).param "state" state).paramIfAny "since" since) sort

/-- The call for the pull requests of a state. -/
def RepoScope.pulls (scope : RepoScope) (sort : Option RemoteSort) (state : String) : Request :=
  sorted ((scope.call ["pulls"]).param "state" state) sort

/-- A server whose answers all tell of one repository. Page numbers stay below `2 ^ 32` with windows
of a stride. -/
structure Consistent (scope : RepoScope) (contents : Contents) (stride : Nat)
    (answer : Request → Reply) : Prop where
  issues : ∀ since sort, Listed (Page.bareDecoder Issue.decoder) (scope.issues since sort "all")
    (scope.issues since sort) (fun issue => some issue.state) stride answer
    (contents.issues since sort)
  pulls : ∀ sort, Listed (Page.bareDecoder PullRequest.decoder) (scope.pulls sort "all")
    (scope.pulls sort) (fun pull => some pull.state) stride answer (contents.pulls sort)
  runs : Listed (Page.countedDecoder WorkflowRun.decoder) (scope.call ["actions", "runs"])
    ((scope.call ["actions", "runs"]).param "status") WorkflowRun.status stride answer contents.runs
  jobs : ∀ run, (contents.jobs run).length / 100 + stride < UInt32.size ∧
    Serves (page (Page.countedDecoder Job.decoder) (scope.jobsOfRun run)) answer (contents.jobs run)
  /-- A job that is asked for by its number is the one in the list of its run. -/
  job : ∀ number,
    (answer (scope.call ["actions", "jobs", pathNumber number])).read Job.decoder =
      .ok (contents.allJobs.find? fun job => job.id == number)
  distinctRuns : (contents.runs.map WorkflowRun.id).Nodup
  distinctJobs : (contents.allJobs.map Job.id).Nodup
  ofRun : ∀ run, ∀ job ∈ contents.jobs run, job.runId = run
  /-- A run that is not there has no jobs; asked for them, the server may say so by "not found". -/
  unknownRun : ∀ run, run ∉ contents.runs.map WorkflowRun.id → contents.jobs run = []

/-! ## One way is as good as the other -/

/-- A bound parameter does not change the rows that pass a check for the bound value. -/
theorem Listed.exists_found {α : Type} {decode : Decoder (Page α)} {whole : Request}
    {under : String → Request} {value : α → Option String} {stride : Nat}
    {answer : Request → Reply} {items : List α}
    (h : Listed decode whole under value stride answer items) (bound : Option String)
    {rows : α → List Row} {p : Row → Bool}
    (hp : ∀ v, bound = some v → ∀ item, ∀ row ∈ rows item, p row = true → value item = some v) :
    ∃ found, Reading.Served answer stride found
        (.listing decode ((bound.map under).getD whole) rows) ∧
      found.filter p = (items.flatMap rows).filter p := by
  cases bound with
  | none => exact ⟨items.flatMap rows, ⟨items, h.whole, h.bound, rfl⟩, rfl⟩
  | some v =>
    obtain ⟨part, hpart, hkept, hserved⟩ := h.under v
    have hlength := hpart.length_le
    have hbound := h.bound
    refine ⟨part.flatMap rows, ⟨part, hserved, by omega, rfl⟩, ?_⟩
    have hvalue : ∀ item, ∀ row ∈ rows item, p row = true → (value item == some v) = true :=
      fun item row hrow hpass => beq_iff_eq.mpr (hp v rfl item row hrow hpass)
    rw [← filter_flatMap_filter (fun item _ => hvalue item), filter_eq_of_sublist hpart hkept,
      filter_flatMap_filter (fun item _ => hvalue item)]

section Jobs

variable {scope : RepoScope} {contents : Contents} {stride : Nat} {answer : Request → Reply}
  (h : Consistent scope contents stride answer) (hstride : 0 < stride) {rows : Job → List Row}
  {p : Row → Bool}
include h

/-- The jobs of a run are those of all jobs that say so. -/
theorem Consistent.filter_allJobs (run : Int64) :
    contents.allJobs.filter (fun job => job.runId == run) = contents.jobs run := by
  rw [Contents.allJobs, ← List.flatMap_map WorkflowRun.id contents.jobs,
    filter_flatMap_key h.ofRun h.distinctRuns]
  split
  · rfl
  · rename_i hunknown
    exact (h.unknownRun run hunknown).symm

include hstride

/-- Reading the jobs of one run is as good as reading those of all runs. -/
theorem Consistent.exists_jobs (run : Option Int64)
    (hp : ∀ n, run = some n → ∀ job, ∀ row ∈ rows job, p row = true → job.runId = n) :
    ∃ found, (Reading.jobs scope run rows).Served answer stride found ∧
      found.filter p = (contents.allJobs.flatMap rows).filter p := by
  cases run with
  | none =>
    refine ⟨contents.allJobs.flatMap rows, ⟨contents.runs, fun run => contents.jobs run.id,
      h.runs.whole, h.runs.bound, fun run _ => ⟨(h.jobs run.id).2, ?_⟩, List.flatMap_assoc⟩, rfl⟩
    have hbound := (h.jobs run.id).1
    show (contents.jobs run.id).length / 100 + 1 < UInt32.size
    omega
  | some n =>
    refine ⟨(contents.jobs n).flatMap rows, ⟨contents.jobs n, (h.jobs n).2, (h.jobs n).1, rfl⟩, ?_⟩
    rw [← h.filter_allJobs n]
    exact filter_flatMap_filter fun job _ row hrow hpass =>
      beq_iff_eq.mpr (hp n rfl job row hrow hpass)

omit hstride in
/-- Asking for one job is as good as reading all jobs. -/
theorem Consistent.exists_job (number : Int64)
    (hp : ∀ job : Job, ∀ row ∈ job.stepRows scope.owner scope.repo, p row = true →
      job.id = number) :
    ∃ found, (Reading.job scope number).Served answer stride found ∧
      found.filter p =
        (contents.allJobs.flatMap (Job.stepRows scope.owner scope.repo)).filter p := by
  refine ⟨_, ⟨_, h.job number, rfl⟩, ?_⟩
  rw [← filter_flatMap_filter fun job _ row hrow hpass => beq_iff_eq.mpr (hp job row hrow hpass),
    filter_eq_toList_find? h.distinctJobs]
  cases contents.allJobs.find? fun job => job.id == number with
  | none => rfl
  | some job => exact congrArg (List.filter p) (List.append_nil _).symm

end Jobs

/-- The tables that can be read in a narrow way and in a wide one. -/
def splitTables : List String := ["issues", "pulls", "runs", "jobs", "steps"]

/-- Whether a table is read under a constraint in such a way that the rows that pass its check are
those of the repository. -/
def Agrees (scope : RepoScope) (contents : Contents) (stride : Nat) (answer : Request → Reply)
    (t : TableDefinition Request Reply) (rules : FilterRules) (c : Constraint)
    (sort : Option RemoteSort) : Prop :=
  ∃ reading, readingOf t.name c sort = .ok reading ∧ ∃ found,
    reading.Served answer stride found ∧
    found.filter (t.passes rules c) =
      (contents.rows scope (updatedSince c) sort t.name).filter (t.passes rules c)

section Agrees

variable {scope : RepoScope} {contents : Contents} {stride : Nat} {answer : Request → Reply}
  (h : Consistent scope contents stride answer) {c : Constraint}
  (hscope : RepoScope.ofConstraint repoRules c = .ok scope) (sort : Option RemoteSort)
include h hscope

theorem Consistent.agrees_issues :
    Agrees scope contents stride answer
      ⟨"issues", Issue.columns, some issueRules, timeSorts, fetchIssues⟩ issueRules c sort := by
  refine ⟨_, ?_, (h.issues (updatedSince c) sort).exists_found (issueRules.boundString? c "state")
    fun state hbound issue row hrow hpass => ?_⟩
  · show needing (RepoScope.ofConstraint repoRules c) _ = _
    rw [hscope, needing]
    unfold stateParam
    cases issueRules.boundString? c "state" <;> rfl
  · obtain rfl := List.mem_singleton.mp hrow
    exact congrArg (Option.bind · Literal.asString?) <|
      TableDefinition.assignment_of_boundString? hbound rfl hpass

theorem Consistent.agrees_pulls :
    Agrees scope contents stride answer
      ⟨"pulls", PullRequest.columns, some pullRules, timeSorts, fetchPulls⟩ pullRules c sort := by
  refine ⟨_, ?_, (h.pulls sort).exists_found (pullRules.boundString? c "state")
    fun state hbound pull row hrow hpass => ?_⟩
  · show needing (RepoScope.ofConstraint repoRules c) _ = _
    rw [hscope, needing]
    unfold stateParam
    cases pullRules.boundString? c "state" <;> rfl
  · obtain rfl := List.mem_singleton.mp hrow
    exact congrArg (Option.bind · Literal.asString?) <|
      TableDefinition.assignment_of_boundString? hbound rfl hpass

/-- The status of a run may be missing, and then the run passes under no status. -/
theorem Consistent.agrees_runs :
    Agrees scope contents stride answer
      ⟨"runs", WorkflowRun.columns, some runRules, [], fetchRuns⟩ runRules c sort := by
  refine ⟨_, ?_, h.runs.exists_found (runRules.boundString? c "status")
    fun status hbound run row hrow hpass => ?_⟩
  · show needing (RepoScope.ofConstraint repoRules c) _ = _
    rw [hscope, needing]
    cases runRules.boundString? c "status" <;> rfl
  · obtain rfl := List.mem_singleton.mp hrow
    have hcell : (Value.optVarchar run.status).literal? = some (.varchar status) :=
      TableDefinition.assignment_of_boundString? hbound rfl hpass
    cases hstatus : run.status with
    | none =>
      rw [hstatus] at hcell
      cases hcell
    | some text =>
      rw [hstatus] at hcell
      exact congrArg (Option.bind · Literal.asString?) hcell

theorem Consistent.agrees_jobs (hstride : 0 < stride) :
    Agrees scope contents stride answer
      ⟨"jobs", Job.columns, some runScopedRules, [], fetchJobs⟩ runScopedRules c sort := by
  refine ⟨_, ?_, h.exists_jobs hstride (runScopedRules.boundInt? c "run_id")
    fun number hbound job row hrow hpass => ?_⟩
  · show needing (RepoScope.ofConstraint repoRules c) _ = _
    rw [hscope, needing]
  · obtain rfl := List.mem_singleton.mp hrow
    exact Option.some.inj (TableDefinition.assignment_of_boundInt? hbound rfl hpass)

/-- Steps are read from one job if that is bound; a run that is bound too is left to the check. -/
theorem Consistent.agrees_steps (hstride : 0 < stride) :
    Agrees scope contents stride answer
      ⟨"steps", Step.columns, some stepRules, [], fetchSteps⟩ stepRules c sort := by
  cases hjob : stepRules.boundInt? c "job_id" with
  | some number =>
    refine ⟨.job scope number, ?_, h.exists_job number fun job row hrow hpass => ?_⟩
    · show needing (RepoScope.ofConstraint repoRules c) _ = _
      rw [hscope, needing, hjob]
    · obtain ⟨step, -, rfl⟩ := List.mem_map.mp hrow
      exact Option.some.inj (TableDefinition.assignment_of_boundInt? hjob rfl hpass)
  | none =>
    refine ⟨_, ?_, h.exists_jobs hstride (stepRules.boundInt? c "run_id")
      fun number hbound job row hrow hpass => ?_⟩
    · show needing (RepoScope.ofConstraint repoRules c) _ = _
      rw [hscope, needing, hjob]
    · obtain ⟨step, -, rfl⟩ := List.mem_map.mp hrow
      exact Option.some.inj (TableDefinition.assignment_of_boundInt? hbound rfl hpass)

/-- **One way of reading is as good as the other.** Whatever a constraint makes of the call, the rows
that pass its check are those of the repository. -/
theorem Consistent.agrees (hstride : 0 < stride) {t : TableDefinition Request Reply}
    (ht : t ∈ tables) (hname : t.name ∈ splitTables) {rules : FilterRules}
    (hrules : t.rules = some rules) : Agrees scope contents stride answer t rules c sort := by
  simp only [tables, List.mem_cons, List.not_mem_nil, or_false] at ht
  rcases ht with rfl | rfl | rfl | rfl | rfl | rfl | rfl | rfl | rfl | rfl | rfl
  all_goals first
    | exact absurd hname (by decide)
    | obtain rfl := Option.some.inj hrules
  · exact h.agrees_issues hscope sort
  · exact h.agrees_pulls hscope sort
  · exact h.agrees_runs hscope sort
  · exact h.agrees_jobs hscope sort hstride
  · exact h.agrees_steps hscope sort hstride

end Agrees

/-! ## A small repository

It has one run of one job of one step. Its server finds a listing by the parts of the path, and
nothing on any page but the first. -/

def smallRun : WorkflowRun :=
  ⟨7, none, 1, 1, none, "push", none, none, none, "c", none, none, none, none⟩

def smallJob : Job :=
  ⟨70, 7, none, "build", "done", none, none, none, [], none, none, none,
    some [⟨1, "compile", "done", some "failure", none, none⟩]⟩

def smallContents : Contents :=
  ⟨fun _ _ => [], fun _ => [], [smallRun], fun run => if run = 7 then [smallJob] else []⟩

/-- The job on the wire, as a record without names. -/
def smallJobText : String :=
  "[70,7,null,\"build\",\"done\",null,null,null,[],null,null,null,"
    ++ "[[1,\"compile\",\"done\",\"failure\",null,null]]]"

/-- What is found under a path, as text. -/
def smallBody (segments : List String) : Option String :=
  if segments = ["repos", "o", "r", "actions", "runs"] then
    some "[null,[[7,null,1,1,null,\"push\",null,null,null,\"c\",null,null,null,null]]]"
  else if segments = ["repos", "o", "r", "actions", "runs", "7", "jobs"] then
    some ("[null,[" ++ smallJobText ++ "]]")
  else if segments = ["repos", "o", "r", "actions", "jobs", "70"] then some smallJobText
  else none

def smallServer (request : Request) : Reply :=
  match if (request.value? "page").getD "1" = "1" then smallBody request.segments else none with
  | some body => ⟨200, "", body⟩
  | none => ⟨404, "", ""⟩

theorem repr_inj {m n : Nat} (h : Nat.repr m = Nat.repr n) : m = n := by
  have hdigits := congrArg String.toList h
  rw [Nat.toList_repr, Nat.toList_repr] at hdigits
  rw [← Nat.ofDigitChars_ten_toDigits (n := m), hdigits, Nat.ofDigitChars_ten_toDigits]

theorem repr_ne_minus (m n : Nat) : Nat.repr m ≠ "-" ++ Nat.repr n := by
  intro hsame
  have hchars : Nat.toDigits 10 m = '-' :: Nat.toDigits 10 n := by
    simpa using congrArg String.toList hsame
  have hdigit := Nat.isDigit_of_mem_toDigits (b := 10) (n := m) (c := '-') (by decide) (by decide)
    (hchars ▸ List.mem_cons_self)
  exact absurd hdigit (by decide)

theorem pathNumber_inj {m n : Int64} (h : pathNumber m = pathNumber n) : m = n := by
  refine Int64.toInt_inj.mp ?_
  unfold pathNumber at h
  cases hm : m.toInt with
  | ofNat a =>
    cases hn : n.toInt with
    | ofNat b =>
      rw [hm, hn] at h
      exact congrArg Int.ofNat (repr_inj h)
    | negSucc b =>
      rw [hm, hn] at h
      exact absurd h (repr_ne_minus a (b + 1))
  | negSucc a =>
    cases hn : n.toInt with
    | ofNat b =>
      rw [hm, hn] at h
      exact absurd h.symm (repr_ne_minus b (a + 1))
    | negSucc b =>
      rw [hm, hn] at h
      have hnext : a + 1 = b + 1 :=
        repr_inj ((String.append_right_inj "-").mp h)
      rw [Nat.succ.inj hnext]

theorem smallServer_of_none {request : Request} (h : smallBody request.segments = none) :
    smallServer request = ⟨404, "", ""⟩ := by
  unfold smallServer
  rw [h, ite_self]

section Small

variable {α : Type} {decode : Decoder (Page α)} {call : Request}

theorem serves_nothing (hbody : smallBody call.segments = none) :
    Serves (page decode call) smallServer [] := by
  intro number _
  refine ⟨none, answered_page ?_, (itemsOn_eq_nil (Nat.zero_le _)).symm,
    fun _ hnone => absurd hnone (by simp)⟩
  rw [smallServer_of_none (show smallBody (paged call number).segments = none from hbody)]
  rfl

theorem serves_page
    (hpage : ∀ number, (paged call number).value? "page" = some (toString number.toNat))
    {body : String} (hbody : smallBody call.segments = some body) {item : α}
    (hdecode : decode.text body = .ok ⟨none, some [item]⟩) :
    Serves (page decode call) smallServer [item] := by
  intro number hpositive
  by_cases hfirst : number = 1
  · subst hfirst
    refine ⟨some ⟨none, some [item]⟩, answered_page ?_, rfl, fun _ hnone => absurd hnone (by simp)⟩
    have hreply : smallServer (paged call 1) = ⟨200, "", body⟩ := by
      unfold smallServer
      rw [hpage, show smallBody (paged call 1).segments = some body from hbody]
      rfl
    unfold Reply.read
    rw [hreply, if_pos (show 200 ≤ 200 ∧ 200 < 300 by decide)]
    simp only [hdecode]
  · refine ⟨none, answered_page ?_, ?_, fun _ hnone => absurd hnone (by simp)⟩
    · have hlater : ¬((paged call number).value? "page").getD "1" = "1" := by
        rw [hpage]
        exact fun hsame => hfirst (UInt32.toNat_inj.mp (repr_inj hsame))
      unfold smallServer
      rw [if_neg hlater]
      rfl
    · have hone : number.toNat ≠ 1 := fun hsame => hfirst (UInt32.toNat_inj.mp hsame)
      have hpositive' : 0 < number.toNat := UInt32.lt_iff_toNat_lt.mp hpositive
      rw [itemsOn_eq_nil (show 1 ≤ (number.toNat - 1) * 100 by omega)]
      rfl

end Small

set_option maxRecDepth 10000 in
theorem serves_smallRun {call : Request}
    (hpage : ∀ number, (paged call number).value? "page" = some (toString number.toNat))
    (hcall : call.segments = ["repos", "o", "r", "actions", "runs"]) :
    Serves (page (Page.countedDecoder WorkflowRun.decoder) call) smallServer [smallRun] :=
  serves_page hpage (congrArg smallBody hcall) rfl

set_option maxRecDepth 10000 in
theorem consistent_small : Consistent ⟨"o", "r"⟩ smallContents 2 smallServer where
  issues since sort := by
    have hnothing : ∀ state, Serves (page (Page.bareDecoder Issue.decoder)
        (RepoScope.issues ⟨"o", "r"⟩ since sort state)) smallServer [] := by
      intro state
      refine serves_nothing ?_
      cases since <;> cases sort <;> rfl
    exact ⟨show 0 / 100 + 2 < UInt32.size by decide, hnothing "all",
      fun state => ⟨[], .refl [], .refl [], hnothing state⟩⟩
  pulls sort := by
    have hnothing : ∀ state, Serves (page (Page.bareDecoder PullRequest.decoder)
        (RepoScope.pulls ⟨"o", "r"⟩ sort state)) smallServer [] := by
      intro state
      refine serves_nothing ?_
      cases sort <;> rfl
    exact ⟨show 0 / 100 + 2 < UInt32.size by decide, hnothing "all",
      fun state => ⟨[], .refl [], .refl [], hnothing state⟩⟩
  runs := ⟨by decide, serves_smallRun (fun _ => rfl) rfl,
    fun status => ⟨[smallRun], .refl _, List.filter_sublist, serves_smallRun (fun _ => rfl) rfl⟩⟩
  jobs run := by
    by_cases hrun : run = 7
    · subst hrun
      exact ⟨by decide, serves_page (fun _ => rfl) rfl rfl⟩
    · have hpath : pathNumber run ≠ "7" := fun hsame => hrun (pathNumber_inj (n := 7) hsame)
      have hnone : smallBody ["repos", "o", "r", "actions", "runs", pathNumber run, "jobs"] =
          none := by
        simp [smallBody, hpath]
      have hjobs : smallContents.jobs run = [] := if_neg hrun
      rw [hjobs]
      exact ⟨by decide, serves_nothing hnone⟩
  job number := by
    by_cases hnumber : number = 70
    · subst hnumber
      rfl
    · have hpath : pathNumber number ≠ "70" := fun hsame => hnumber (pathNumber_inj (n := 70) hsame)
      have hnone : smallBody ["repos", "o", "r", "actions", "jobs", pathNumber number] = none := by
        simp [smallBody, hpath]
      have hfind : smallContents.allJobs.find? (fun job => job.id == number) = none := by
        show [smallJob].find? (fun job => job.id == number) = none
        rw [List.find?_singleton, if_neg]
        exact fun hsame => hnumber (beq_iff_eq.mp hsame).symm
      rw [hfind, smallServer_of_none hnone]
      rfl
  distinctRuns := by decide
  distinctJobs := by decide
  ofRun run job hjob := by
    change job ∈ (if run = 7 then [smallJob] else []) at hjob
    split at hjob
    · rename_i hrun
      rw [List.mem_singleton.mp hjob, hrun]
      rfl
    · cases hjob
  unknownRun run hrun := by
    refine if_neg fun hsame => hrun ?_
    rw [hsame]
    exact List.mem_singleton.mpr rfl

end Github
end RemoteTables
