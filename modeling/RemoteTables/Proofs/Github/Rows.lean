import RemoteTables.Proofs.Batch.Stored
import RemoteTables.Proofs.Github.Limit

/-!
# The rows of the tables fit their columns

Each of the eleven tables makes its rows from one kind of item, and what an item lacks is null in
the row. So whatever a server sends, as long as it decodes, the rows line up with the columns of the
table: this is a matter of one row for each kind of item (`fits_toRow`). A reading makes nothing but
such rows (`gives_read`), and a scan of a table can hand on whatever it reads (`rows_stored`).
-/

set_option autoImplicit false

namespace RemoteTables

/-! ## Cells of items -/

/-- Whether a cell may stand in a column. -/
def Value.standsIn (cell : Value) (column : Column) : Bool :=
  cell.fits column.type && (column.nullable || !cell.isNull)

@[simp]
theorem Row.fits_nil : Row.fits [] [] = true := rfl

@[simp]
theorem Row.fits_cons (cell : Value) (cells : Row) (column : Column) (columns : List Column) :
    Row.fits (cell :: cells) (column :: columns) = (cell.standsIn column && fits cells columns) :=
  rfl

namespace Value

variable (name : String)

@[simp]
theorem varchar_standsIn (text : String) :
    (varchar text).standsIn (.required name .varchar) = true := rfl

@[simp]
theorem bigInt_standsIn (number : Int64) :
    (bigInt number).standsIn (.required name .bigInt) = true := rfl

@[simp]
theorem boolean_standsIn (b : Bool) : (boolean b).standsIn (.required name .boolean) = true := rfl

@[simp]
theorem optVarchar_standsIn (text : Option String) :
    (optVarchar text).standsIn (.optional name .varchar) = true := by
  cases text <;> rfl

@[simp]
theorem optBigInt_standsIn (number : Option Int64) :
    (optBigInt number).standsIn (.optional name .bigInt) = true := by
  cases number <;> rfl

@[simp]
theorem optBoolean_standsIn (b : Option Bool) :
    (optBoolean b).standsIn (.optional name .boolean) = true := by
  cases b <;> rfl

@[simp]
theorem optTimestamp_standsIn (t : Option Int64) :
    (optTimestamp t).standsIn (.optional name .timestamp) = true := by
  cases t <;> rfl

/-- An array of cells made of a list may stand in a column if each of the cells fits. -/
theorem array_standsIn {α : Type} {items : List α} {cell : α → Value} {type : ColumnType}
    (h : ∀ item, (cell item).fits type = true) :
    (array (items.map cell)).standsIn (.required name (.array type)) = true := by
  have hfits : (array (items.map cell)).fits (.array type) = true := by
    rw [fits, allFit_iff]
    exact List.forall_mem_map.mpr fun item _ => h item
  simp [standsIn, Column.required, hfits, isNull]

end Value

namespace Github

open Dialogue

section Cells

variable (name : String)

@[simp]
theorem loginCell_standsIn (user : Option User) :
    (loginCell user).standsIn (.optional name .varchar) = true :=
  Value.optVarchar_standsIn name _

@[simp]
theorem loginsCell_standsIn (users : List User) :
    (loginsCell users).standsIn (.required name (.array .varchar)) = true :=
  Value.array_standsIn name fun _ => rfl

@[simp]
theorem accountIdsCell_standsIn (users : List User) :
    (accountIdsCell users).standsIn (.required name (.array .bigInt)) = true :=
  Value.array_standsIn name fun _ => rfl

@[simp]
theorem labelIdsCell_standsIn (labels : List Label) :
    (labelIdsCell labels).standsIn (.required name (.array .bigInt)) = true :=
  Value.array_standsIn name fun _ => rfl

@[simp]
theorem labelNamesCell_standsIn (labels : List Label) :
    (labelNamesCell labels).standsIn (.required name (.array .varchar)) = true :=
  Value.array_standsIn name fun _ => rfl

end Cells

/-! ## Rows of items -/

theorem Repository.fits_toRow (owner : String) (r : Repository) :
    (r.toRow owner).fits Repository.columns = true := by
  simp [toRow, columns]

section Scoped

variable (owner repo : String)

theorem Issue.fits_toRow (i : Issue) : (i.toRow owner repo).fits Issue.columns = true := by
  simp [toRow, columns]

theorem IssueComment.fits_toRow (c : IssueComment) :
    (c.toRow owner repo).fits IssueComment.columns = true := by
  simp [toRow, columns]

theorem PullRequest.fits_toRow (p : PullRequest) :
    (p.toRow owner repo).fits PullRequest.columns = true := by
  simp [toRow, columns]

theorem PullCommit.fits_toRow (number : Int64) (c : PullCommit) :
    (c.toRow owner repo number).fits PullCommit.columns = true := by
  simp [toRow, columns]

theorem Review.fits_toRow (number : Int64) (r : Review) :
    (r.toRow owner repo number).fits Review.columns = true := by
  simp [toRow, columns]

theorem Workflow.fits_toRow (w : Workflow) : (w.toRow owner repo).fits Workflow.columns = true := by
  simp [toRow, columns]

theorem WorkflowRun.fits_toRow (r : WorkflowRun) :
    (r.toRow owner repo).fits WorkflowRun.columns = true := by
  simp [toRow, columns]

theorem Job.fits_toRow (j : Job) : (j.toRow owner repo).fits Job.columns = true := by
  have hlabels : (Value.array (j.labels.map .varchar)).standsIn
      (.required "labels" (.array .varchar)) = true := Value.array_standsIn _ fun _ => rfl
  simp [toRow, columns, hlabels]

/-- The rows of the steps of a job fit the columns of the steps. -/
theorem Job.fits_stepRows (j : Job) : ∀ row ∈ j.stepRows owner repo,
    row.fits Step.columns = true := by
  refine List.forall_mem_map.mpr fun step _ => ?_
  simp [stepRow, Step.columns]

theorem Artifact.fits_toRow (run : Option Int64) (a : Artifact) :
    (a.toRow owner repo run).fits Artifact.columns = true := by
  simp [toRow, columns]

end Scoped

/-! ## Rows of readings -/

/-- What is needed first does not matter for the rows. -/
theorem all_needing {σ : Type} {value : Except Failure σ} {read : σ → Except Failure Reading}
    {p : Row → Prop} (h : ∀ value reading, read value = .ok reading → reading.All p)
    {reading : Reading} (hreading : needing value read = .ok reading) : reading.All p := by
  cases value with
  | error failure => cases hreading
  | ok value => exact h value reading hreading

theorem Reading.all_jobs {scope : RepoScope} {run : Option Int64} {rows : Job → List Row}
    {p : Row → Prop} (h : ∀ job, ∀ row ∈ rows job, p row) :
    (Reading.jobs scope run rows).All p := by
  cases run <;> exact h

/-- **Every shape in which a table is read makes rows that fit the table.** -/
theorem all_readingOf {t : TableDefinition Request Reply} (ht : t ∈ tables) {c : Constraint}
    {sort : Option RemoteSort} {reading : Reading} (h : readingOf t.name c sort = .ok reading) :
    reading.All fun row => row.fits t.columns = true := by
  simp only [tables, List.mem_cons, List.not_mem_nil, or_false] at ht
  rcases ht with rfl | rfl | rfl | rfl | rfl | rfl | rfl | rfl | rfl | rfl | rfl
  -- every table needs an owner first, and all but one a repository
  all_goals
    revert h
    refine all_needing fun scope reading h => ?_
  · obtain rfl := Except.ok.inj h
    exact fun repo => List.forall_mem_singleton.mpr (repo.fits_toRow _)
  · obtain rfl := Except.ok.inj h
    exact fun issue => List.forall_mem_singleton.mpr (issue.fits_toRow _ _)
  · obtain rfl := Except.ok.inj h
    exact fun comment => List.forall_mem_singleton.mpr (comment.fits_toRow _ _)
  · obtain rfl := Except.ok.inj h
    exact fun pull => List.forall_mem_singleton.mpr (pull.fits_toRow _ _)
  · -- commits and reviews need the number of the pull request as well
    refine all_needing (fun number reading h => ?_) h
    obtain rfl := Except.ok.inj h
    exact fun commit => List.forall_mem_singleton.mpr (commit.fits_toRow _ _ _)
  · refine all_needing (fun number reading h => ?_) h
    obtain rfl := Except.ok.inj h
    exact fun review => List.forall_mem_singleton.mpr (review.fits_toRow _ _ _)
  · obtain rfl := Except.ok.inj h
    exact fun workflow => List.forall_mem_singleton.mpr (workflow.fits_toRow _ _)
  · obtain rfl := Except.ok.inj h
    exact fun run => List.forall_mem_singleton.mpr (run.fits_toRow _ _)
  · obtain rfl := Except.ok.inj h
    exact Reading.all_jobs fun job => List.forall_mem_singleton.mpr (job.fits_toRow _ _)
  · obtain rfl := Except.ok.inj h
    split
    · exact Job.fits_stepRows _ _
    · exact Reading.all_jobs (Job.fits_stepRows _ _)
  · obtain rfl := Except.ok.inj h
    exact fun artifact => List.forall_mem_singleton.mpr (artifact.fits_toRow _ _ _)

/-! ## What a reading gives -/

/-- Whatever a table reads from a server are rows that fit it. -/
theorem gives_read {t : TableDefinition Request Reply} (ht : t ∈ tables) (h : TableHandle) :
    (t.read h).Gives fun rows => ∀ row ∈ rows, row.fits t.columns = true := by
  by_cases hnothing : h.limit = 0 ∨ h.constraint.isNone = true
  · rw [read_eq_done hnothing]
    exact fun _ hrow => absurd hrow List.not_mem_nil
  · rw [not_or, Bool.not_eq_true] at hnothing
    rw [read_eq hnothing.1 hnothing.2]
    refine (gives_true _).bind fun enforced _ => ?_
    have hlimit : (FetchRequest.mk h (t.sortOf h) enforced).limit ≠ 0 := hnothing.1
    rw [filter_fetch _ ht hlimit, fetch_eq ht, FetchRequest.constraint]
    cases hreading : readingOf t.name h.constraint (t.sortOf h) with
    | error failure => trivial
    | ok reading =>
      refine (gives_exchange (all_readingOf ht hreading) hlimit).mono fun rows hrows => ?_
      exact fun row hrow => (hrows row hrow).1

/-- **No scan of a table fails in handing on what was read.** Whatever the server answers: if a
split comes to rows, each of them fits the columns of the table, and under every projection to
columns that exist the rows are stored, as many as were read. -/
theorem rows_stored (settings : Settings) {split : Split} {server : Server Request Reply}
    {rows : List Row} (hrows : ((connector settings).rows split).outcome server = .done rows) :
    ∃ t, (connector settings).tableFor split.handle.table = .ok t ∧
      (∀ row ∈ rows, row.fits t.columns = true) ∧
      ∀ projection : Option (List Nat),
        (∀ positions ∈ projection, ∀ p ∈ positions, p < t.columns.length) →
        ∃ schema batch, Batch.project t.columns projection = .ok schema ∧
          Batch.ofRows rows t.columns projection schema = .ok batch ∧
          batch.rowCount = rows.length ∧ batch.schema = schema ∧
          batch.vectors.length = (Batch.positions t.columns projection).length ∧
          ∀ vector ∈ batch.vectors, vector.size = rows.length := by
  rw [Connector.rows] at hrows
  cases ht : (connector settings).tableFor split.handle.table with
  | error failure =>
    rw [ht] at hrows
    cases hrows
  | ok t =>
    rw [ht] at hrows
    have hfits : ∀ row ∈ rows, row.fits t.columns = true :=
      (gives_read (mem_tables_of_tableFor ht) split.handle).run (Prod.ext hrows rfl)
    exact ⟨t, rfl, hfits, fun projection hprojection => Batch.exists_ofRows hfits hprojection⟩

/-- The issues of a repository. -/
def issuesSplit : Split :=
  .ofHandle ⟨⟨"github", "issues"⟩, ⟨[⟨⟨"owner", .varchar⟩, .single (.varchar "o")⟩,
    ⟨⟨"repo", .varchar⟩, .single (.varchar "r")⟩]⟩, 0, noLimit, 1, none⟩

/-- A server with one issue, which has a label and not much else. -/
def issueServer : Server Request Reply := fun _ _ => .ok ⟨200, "",
  "[[7,12,\"t\",\"open\",null,[[1,\"bug\"]],[],null,null,null,\"u\",null,null,null]]"⟩

/-- The issue is stored with the columns of its label, its number and its label again. -/
theorem rows_stored_issues :
    ∃ rows schema batch,
      ((connector .standard).rows issuesSplit).outcome issueServer = .done rows ∧
      rows.length = 1 ∧ Batch.project Issue.columns (some [8, 3, 8]) = .ok schema ∧
      Batch.ofRows rows Issue.columns (some [8, 3, 8]) schema = .ok batch ∧ batch.rowCount = 1 ∧
      batch.vectors.map CellVector.size = [1, 1, 1] := by
  have hlength : (match ((connector .standard).rows issuesSplit).outcome issueServer with
      | .done rows => rows.length
      | _ => 0) = 1 := by decide +kernel
  cases houtcome : ((connector .standard).rows issuesSplit).outcome issueServer with
  | done rows =>
    rw [houtcome] at hlength
    obtain ⟨t, ht, -, hstored⟩ := rows_stored .standard houtcome
    obtain rfl := Except.ok.inj ht
    obtain ⟨schema, batch, hschema, hbatch, hcount, -, hvectors, hsizes⟩ :=
      hstored (some [8, 3, 8]) (by decide)
    refine ⟨rows, schema, batch, rfl, hlength, hschema, hbatch, hcount.trans hlength, ?_⟩
    exact List.eq_replicate_iff.mpr ⟨(List.length_map _).trans hvectors,
      List.forall_mem_map.mpr fun vector hmem => (hsizes vector hmem).trans hlength⟩
  | failed failure =>
    rw [houtcome] at hlength
    cases hlength
  | broken why =>
    rw [houtcome] at hlength
    cases hlength

end Github
end RemoteTables
