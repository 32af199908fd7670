import RemoteTables.Proofs.Github.Reading
import RemoteTables.Proofs.Listing.Truncation

/-!
# A limit only truncates

Reading under a limit is reading without one, cut short: the same questions in the same order, as far
as they are needed, and the same rows, as far as they are wanted (`limit_only_truncates`). This is
shown for each shape of reading, and so for every table, against any server.

The walk over all runs is where it could go wrong, as each run is read under what remains of the
limit. What remains is a subtraction of 64-bit numbers, and it never falls below zero:
`gatherRunsOr` is the walk with that case spelled out, and the case can be anything at all.
-/

set_option autoImplicit false

namespace RemoteTables
namespace Github

open Dialogue

/-! ## Rows that were checked -/

/-- Whether all rows that a shape of reading makes of an item have a property. -/
def Reading.All (p : Row → Prop) : Reading → Prop
  | listing _ _ rows => ∀ item, ∀ row ∈ rows item, p row
  | runs _ rows => ∀ job, ∀ row ∈ rows job, p row
  | job scope _ => ∀ job : Job, ∀ row ∈ job.stepRows scope.owner scope.repo, p row

section Accepted

variable {request : FetchRequest} {p : Row → Prop}

theorem gives_jobRows {scope : RepoScope} {rows : Job → List Row} {run : Int64}
    {window : PageWindow} {limit : UInt64} (hp : ∀ job, ∀ row ∈ rows job, p row) :
    (jobRows request scope rows run window limit).Gives fun got =>
      ∀ row ∈ got, p row ∧ request.accepts row = true :=
  PageWindow.gives_collect fun job row hrow =>
    ⟨hp job row (List.mem_filter.mp hrow).1, (List.mem_filter.mp hrow).2⟩

theorem gives_gatherRuns_accepted {scope : RepoScope} {rows : Job → List Row}
    (hp : ∀ job, ∀ row ∈ rows job, p row) {runs : List WorkflowRun} {got : List Row}
    (h : ∀ row ∈ got, p row ∧ request.accepts row = true) :
    (gatherRuns request scope rows got runs).Gives fun all =>
      ∀ row ∈ all, p row ∧ request.accepts row = true := by
  induction runs generalizing got with
  | nil => exact h
  | cons run rest ih =>
    rw [gatherRuns]
    refine (gives_jobRows hp).bind fun more hmore => ?_
    have hall : ∀ row ∈ got ++ more, p row ∧ request.accepts row = true :=
      List.forall_mem_append.mpr ⟨h, hmore⟩
    split
    · exact hall
    · exact ih hall

/-- Whatever is read are rows that the shape makes, and accepted ones. -/
theorem gives_exchange {reading : Reading} (hp : reading.All p) (hlimit : request.limit ≠ 0) :
    (reading.exchange request).Gives fun rows =>
      ∀ row ∈ rows, p row ∧ request.accepts row = true := by
  cases reading with
  | listing decode call rows =>
    exact PageWindow.gives_collect fun item row hrow =>
      ⟨hp item row (List.mem_filter.mp hrow).1, (List.mem_filter.mp hrow).2⟩
  | runs scope rows =>
    exact PageWindow.gives_walk (fun got items _ hgot => gives_gatherRuns_accepted hp hgot) hlimit
      fun _ hrow => absurd hrow List.not_mem_nil
  | job scope number =>
    rw [Reading.exchange, fetchStepsOfJob]
    split
    · exact fun _ hrow => absurd hrow List.not_mem_nil
    · refine (gives_true _).bind fun reply _ => (gives_true _).bind fun found _ => ?_
      cases found with
      | none => exact fun _ hrow => absurd hrow List.not_mem_nil
      | some job =>
        intro row hrow
        obtain ⟨hmade, haccepted⟩ := List.mem_filter.mp (List.mem_of_mem_take hrow)
        exact ⟨hp job row hmade, haccepted⟩

theorem Reading.all_true (reading : Reading) : reading.All fun _ => True := by
  cases reading <;> exact fun _ _ _ => trivial

variable (request) in
/-- **The last check of the rows drops none.** -/
theorem filter_fetch {t : TableDefinition Request Reply} (ht : t ∈ tables)
    (hlimit : request.limit ≠ 0) :
    (do let rows ← t.fetch request; return rows.filter request.accepts) = t.fetch request := by
  rw [fetch_eq ht]
  cases readingOf t.name request.constraint request.sort with
  | error failure => rfl
  | ok reading =>
    refine ((gives_exchange reading.all_true hlimit).mono fun rows hrows => ?_).bind_eq
    exact congrArg Dialogue.done (List.filter_eq_self.mpr fun row hrow => (hrows row hrow).2)

end Accepted

/-! ## Cutting short -/

/-- The same request under another limit. -/
def limited (request : FetchRequest) (limit : UInt64) : FetchRequest :=
  { request with handle := request.handle.withLimit limit }

section Cut

variable {request : FetchRequest} {limit : UInt64} (hle : limit ≤ request.limit)

theorem gives_gatherRuns {scope : RepoScope} {rows : Job → List Row} {runs : List WorkflowRun}
    {got : List Row} : (gatherRuns request scope rows got runs).Gives (got <+: ·) := by
  induction runs generalizing got with
  | nil => exact List.prefix_refl got
  | cons run rest ih =>
    rw [gatherRuns]
    refine (gives_true _).bind fun more _ => ?_
    split
    · exact List.prefix_append got more
    · exact ih.mono fun _ => (List.prefix_append got more).trans

theorem toNat_remaining {limit : UInt64} {n : Nat} (h : n ≤ limit.toNat) :
    (limit - UInt64.ofNat n).toNat = limit.toNat - n := by
  have hn : (UInt64.ofNat n).toNat = n :=
    UInt64.toNat_ofNat_of_lt' (Nat.lt_of_le_of_lt h limit.toNat_lt)
  rw [UInt64.toNat_sub_of_le _ _ (UInt64.le_iff_toNat_le.mpr (hn.symm ▸ h)), hn]

include hle

/-- **The jobs of runs under a limit are those under a higher one, cut short.** Each run is read
under what remains, which on both sides is the limit less the same rows. -/
theorem cut_gatherRuns {scope : RepoScope} {rows : Job → List Row} {runs : List WorkflowRun}
    {got : List Row} (hgot : got.length < limit.toNat) :
    Cut limit.toNat (gatherRuns (limited request limit) scope rows got runs)
      (gatherRuns request scope rows got runs) := by
  have hle' : limit.toNat ≤ request.limit.toNat := UInt64.le_iff_toNat_le.mp hle
  induction runs generalizing got with
  | nil => exact .same (Nat.le_of_lt hgot)
  | cons run rest ih =>
    -- what remains on either side is no more on the side of the lower limit
    have hmine : (limit - UInt64.ofNat got.length).toNat = limit.toNat - got.length :=
      toNat_remaining (Nat.le_of_lt hgot)
    have hwhole : (request.limit - UInt64.ofNat got.length).toNat =
        request.limit.toNat - got.length := toNat_remaining (by omega)
    have hremaining :
        limit - UInt64.ofNat got.length ≤ request.limit - UInt64.ofNat got.length := by
      rw [UInt64.le_iff_toNat_le, hmine, hwhole]
      omega
    have hjobs : Cut (limit.toNat - got.length)
        (jobRows (limited request limit) scope rows run.id .whole
          (limit - UInt64.ofNat got.length))
        (jobRows request scope rows run.id .whole
          (request.limit - UInt64.ofNat got.length)) :=
      hmine ▸ PageWindow.cut_collect hremaining _
    rw [gatherRuns, gatherRuns]
    refine Cut.bind_append (by omega) hjobs
      (f := fun all => if limit.toNat ≤ all.length then .done all
        else gatherRuns (limited request limit) scope rows all rest)
      (g := fun all => if request.limit.toNat ≤ all.length then .done all
        else gatherRuns request scope rows all rest)
      (fun all hall => ?_) (fun all hall => ?_) fun all => ?_
    · rw [if_neg (Nat.not_le.mpr hall),
        if_neg (show ¬request.limit.toNat ≤ all.length by omega)]
      exact ih hall
    · rw [if_pos (Nat.le_of_eq hall.symm)]
    · split
      · exact List.prefix_refl all
      · exact gives_gatherRuns

variable (request) in
/-- **Every shape of reading under a limit is the one under a higher limit, cut short.** -/
theorem cut_exchange (reading : Reading) (hlimit : limit ≠ 0) :
    Cut limit.toNat (reading.exchange (limited request limit)) (reading.exchange request) := by
  cases reading with
  | listing decode call rows => exact PageWindow.cut_collect hle _
  | runs scope rows =>
    exact PageWindow.cut_walk hle (fun got items hgot => cut_gatherRuns hle hgot)
      (fun got items _ => gives_gatherRuns) hlimit
  | job scope number =>
    have hle' : limit.toNat ≤ request.limit.toNat := UInt64.le_iff_toNat_le.mp hle
    rw [Reading.exchange, Reading.exchange, fetchStepsOfJob, fetchStepsOfJob]
    by_cases hoffset : 0 < request.window.offset
    · rw [if_pos hoffset, if_pos (show 0 < (limited request limit).window.offset from hoffset)]
      exact .same (Nat.zero_le _)
    · rw [if_neg hoffset, if_neg (show ¬0 < (limited request limit).window.offset from hoffset)]
      refine .bind_left _ fun reply => .bind_left _ fun found => ?_
      cases found with
      | none => exact .same (Nat.zero_le _)
      | some job =>
        have hcut : Cut limit.toNat
            (Dialogue.done ((((job.stepRows scope.owner scope.repo).filter request.accepts).take
              request.limit.toNat).take limit.toNat) : Exchange (List Row)) (.done _) := .done _
        rwa [List.take_take, Nat.min_eq_left hle'] at hcut

variable (request) in
theorem cut_fetch {t : TableDefinition Request Reply} (ht : t ∈ tables) (hlimit : limit ≠ 0) :
    Cut limit.toNat (t.fetch (limited request limit)) (t.fetch request) := by
  rw [fetch_eq ht, fetch_eq ht]
  show Cut limit.toNat
    (exchangeOf (limited request limit) (readingOf t.name request.constraint request.sort)) _
  cases readingOf t.name request.constraint request.sort with
  | error failure => exact .failed failure
  | ok reading => exact cut_exchange request hle reading hlimit

end Cut

/-! ## What remains of a limit -/

/-- Going through runs as `gatherRuns` does, but doing something else where more was gathered than
the limit allows, and the subtraction would fall below zero. -/
def gatherRunsOr (below : Exchange (List Row)) (request : FetchRequest) (scope : RepoScope)
    (rows : Job → List Row) (got : List Row) : List WorkflowRun → Exchange (List Row)
  | [] => .done got
  | run :: rest =>
    if request.limit.toNat < got.length then below
    else do
      let remaining := request.limit - UInt64.ofNat got.length
      let more ← jobRows request scope rows run.id .whole remaining
      if request.limit.toNat ≤ (got ++ more).length then .done (got ++ more)
      else gatherRunsOr below request scope rows (got ++ more) rest

theorem gatherRunsOr_eq (below : Exchange (List Row)) (request : FetchRequest) (scope : RepoScope)
    (rows : Job → List Row) {got : List Row} (hgot : got.length ≤ request.limit.toNat)
    (runs : List WorkflowRun) :
    gatherRunsOr below request scope rows got runs = gatherRuns request scope rows got runs := by
  induction runs generalizing got with
  | nil => rfl
  | cons run rest ih =>
    rw [gatherRunsOr, gatherRuns, if_neg (Nat.not_lt.mpr hgot)]
    refine congrArg (jobRows request scope rows run.id .whole
      (request.limit - UInt64.ofNat got.length) >>= ·) (funext fun more => ?_)
    split
    · rfl
    · rename_i hbelow
      exact ih (Nat.le_of_lt (Nat.lt_of_not_le hbelow))

/-- **What remains of a limit never falls below zero**, in the whole walk over all runs. -/
theorem readJobs_eq_guarded (below : Exchange (List Row)) (request : FetchRequest)
    (scope : RepoScope) (rows : Job → List Row) :
    readJobs request scope none rows =
      request.window.walk request.limit
        (page (Page.countedDecoder WorkflowRun.decoder) (scope.call ["actions", "runs"]))
        (gatherRunsOr below request scope rows) :=
  PageWindow.walk_congr fun _ runs hgot =>
    (gatherRunsOr_eq below request scope rows hgot runs).symm

/-! ## Reading under a limit -/

theorem cut_read {t : TableDefinition Request Reply} (ht : t ∈ tables) {h : TableHandle}
    {limit : UInt64} (hle : limit ≤ h.limit) :
    Cut limit.toNat (t.read (h.withLimit limit)) (t.read h) := by
  by_cases hzero : limit = 0
  · subst hzero
    rw [read_eq_done (h := h.withLimit 0) (Or.inl rfl)]
    exact .full rfl ((gives_true _).mono fun rows _ => List.nil_prefix)
  · have hpositive := UInt64.lt_iff_toNat_lt.mp (UInt64.pos_iff_ne_zero.mpr hzero)
    have hwhole : h.limit ≠ 0 := fun hh =>
      Nat.lt_irrefl 0 (Nat.lt_of_lt_of_le hpositive (UInt64.le_iff_toNat_le.mp (hh ▸ hle)))
    cases hnone : h.constraint.isNone with
    | true =>
      rw [read_eq_done (Or.inr hnone), read_eq_done (h := h.withLimit limit) (Or.inr hnone)]
      exact .same (Nat.zero_le _)
    | false =>
      rw [read_eq hwhole hnone, read_eq (h := h.withLimit limit) hzero hnone]
      refine .bind_left _ fun enforced => ?_
      have hcut := cut_fetch ⟨h, t.sortOf h, enforced⟩ hle ht hzero
      rw [← filter_fetch ⟨h, t.sortOf h, enforced⟩ ht hwhole,
        ← filter_fetch (limited ⟨h, t.sortOf h, enforced⟩ limit) ht hzero] at hcut
      exact hcut

theorem rows_withLimit (settings : Settings) (split : Split) (limit : UInt64) :
    (connector settings).rows ⟨split.handle.withLimit limit, split.addresses⟩ =
      Dialogue.ofExcept ((connector settings).tableFor split.handle.table) >>= fun t =>
        t.read (split.handle.withLimit limit) := rfl

/-- **A limit only truncates.** Let a split without limit be read from any server. If it comes to
rows, then under a limit it comes to the first of them; if it fails, then under the limit it fails
alike, or has as many rows as the limit allows; and what is asked under the limit is asked without it
first. Nothing is asked under the limit zero. No row is lost to the last check, so what the limit
counts are rows that come out, and what remains of the limit never falls below zero. -/
theorem limit_only_truncates (settings : Settings) (split : Split)
    (hlimit : split.handle.limit = noLimit) (limit : UInt64) :
    (∀ server : Server Request Reply, TruncatedAt limit.toNat
      (((connector settings).rows ⟨split.handle.withLimit limit, split.addresses⟩).run server [])
      (((connector settings).rows split).run server [])) ∧
    (limit = 0 → ∀ server : Server Request Reply,
      ((connector settings).rows ⟨split.handle.withLimit limit, split.addresses⟩).questions server =
        []) ∧
    (∀ t ∈ tables, ∀ request : FetchRequest, request.limit ≠ 0 →
      (do let rows ← t.fetch request; return rows.filter request.accepts) = t.fetch request) ∧
    (∀ (below : Exchange (List Row)) (request : FetchRequest) (scope : RepoScope)
      (rows : Job → List Row), readJobs request scope none rows =
        request.window.walk request.limit
          (page (Page.countedDecoder WorkflowRun.decoder) (scope.call ["actions", "runs"]))
          (gatherRunsOr below request scope rows)) := by
  have hle : limit ≤ split.handle.limit := by
    rw [hlimit, UInt64.le_iff_toNat_le]
    exact Nat.le_of_lt_succ limit.toNat_lt
  refine ⟨fun server => Cut.run ?_ server [], fun hzero server => ?_,
    fun t ht request hpositive => filter_fetch request ht hpositive, readJobs_eq_guarded⟩
  · rw [rows_withLimit, Connector.rows]
    cases ht : (connector settings).tableFor split.handle.table with
    | error failure => exact .failed failure
    | ok t => exact cut_read (mem_tables_of_tableFor ht) hle
  · rw [rows_withLimit, hzero]
    cases (connector settings).tableFor split.handle.table with
    | error failure => rfl
    | ok t =>
      show (t.read (split.handle.withLimit 0)).questions server = []
      rw [read_eq_done (h := split.handle.withLimit 0) (Or.inl rfl)]
      rfl

set_option maxRecDepth 10000 in
/-- One page with two workflows, of which one is wanted. -/
theorem limit_only_truncates_workflows :
    ∃ (split : Split) (server : Server Request Reply), split.handle.limit = noLimit ∧
      ((connector .standard).rows split).outcome server =
        .done [Workflow.toRow "o" "r" ⟨7, "a", "p", "on", none, none, none⟩,
          Workflow.toRow "o" "r" ⟨8, "b", "q", "on", none, none, none⟩] ∧
      ((connector .standard).rows ⟨split.handle.withLimit 1, split.addresses⟩).outcome server =
        .done [Workflow.toRow "o" "r" ⟨7, "a", "p", "on", none, none, none⟩] ∧
      (((connector .standard).rows split).questions server).length = 1 ∧
      TruncatedAt (UInt64.toNat 1)
        (((connector .standard).rows ⟨split.handle.withLimit 1, split.addresses⟩).run server [])
        (((connector .standard).rows split).run server []) :=
  ⟨⟨⟨⟨"github", "workflows"⟩, ⟨[⟨⟨"owner", .varchar⟩, .single (.varchar "o")⟩,
      ⟨⟨"repo", .varchar⟩, .single (.varchar "r")⟩]⟩, 0, noLimit, 1, none⟩, []⟩,
    fun _ _ => .ok ⟨200, "",
      "[null,[[7,\"a\",\"p\",\"on\",null,null,null],[8,\"b\",\"q\",\"on\",null,null,null]]]"⟩,
    rfl, by with_unfolding_all rfl, by with_unfolding_all rfl, by decide +kernel,
    (limit_only_truncates .standard _ rfl 1).1 _⟩

end Github
end RemoteTables
