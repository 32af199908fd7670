import RemoteTables.Proofs.Github.Limit
import RemoteTables.Proofs.Json.Decoding
import RemoteTables.Proofs.Listing.Served
import RemoteTables.Proofs.Pushdown.Checks

/-!
# Page windows lose nothing

A handle can be cut into page windows that are read apart. On a server that is honest about its
listings, the windows together come to what the handle comes to (`windows_lossless`): without a limit
the same rows, in some order, and with one at least the rows that were wanted.

Every shape of reading shares out pages among its windows (`SharesOut`). For a listing the pages are
those of the listing. For the jobs of all runs they are the pages of the runs, each with the jobs of
its runs. A single job is one page, and no window but the first has it. What the windows have
together is then a matter of lists (`perm_strided_whole`, `perm_take_strided`).
-/

set_option autoImplicit false

namespace RemoteTables
namespace Github

open Dialogue PageWindow

/-! ## Honest servers -/

/-- Whether a server is honest about all that is asked in a shape of reading, and has the given rows
to be read. Every collection is one list, and page numbers stay below `2 ^ 32` with windows of a
stride. -/
def Reading.Served (answer : Request → Reply) (stride : Nat) (found : List Row) : Reading → Prop
  | listing decode call rows =>
    ∃ items, Serves (page decode call) answer items ∧ items.length / 100 + stride < UInt32.size ∧
      found = items.flatMap rows
  | runs scope rows => ∃ (runs : List WorkflowRun) (jobsOf : WorkflowRun → List Job),
    Serves (page (Page.countedDecoder WorkflowRun.decoder) (scope.call ["actions", "runs"])) answer
      runs ∧ runs.length / 100 + stride < UInt32.size ∧
    (∀ run ∈ runs, Serves (page (Page.countedDecoder Job.decoder) (scope.jobsOfRun run.id)) answer
      (jobsOf run) ∧ (jobsOf run).length / 100 + 1 < UInt32.size) ∧
    found = runs.flatMap fun run => (jobsOf run).flatMap rows
  | job scope number => ∃ job : Option Job,
    (answer (scope.call ["actions", "jobs", pathNumber number])).read Job.decoder = .ok job ∧
      found = (job.map (Job.stepRows scope.owner scope.repo)).getD []

/-! ## A server for any list

To be honest a server needs no more than the list itself: it sends the page that is asked for. -/

/-- The page that is asked for, counted from zero; without a number it is the first one. -/
def askedPage (request : Request) : Nat :=
  match request.value? "page" with
  | some text => Nat.ofDigitChars 10 text.toList 0 - 1
  | none => 0

/-- A server that sends one list, page by page and without a total. -/
def listServer {α : Type} (toJson : α → Json) (items : List α) (request : Request) : Reply :=
  ⟨200, "", (Json.array ((itemsOn items (askedPage request)).map toJson)).render⟩

theorem answered_page {α : Type} {answer : Request → Reply} {decode : Decoder (Page α)}
    {call : Request} {number : UInt32} {found : Option (Page α)}
    (h : (answer (paged call number)).read decode = .ok found) :
    (page decode call number).answered answer = .done found := by
  show (Dialogue.ofExcept ((answer (paged call number)).read decode) : Exchange _).answered answer =
    .done found
  rw [h]
  rfl

theorem askedPage_paged {call : Request} (hopen : call.value? "page" = none) (number : UInt32) :
    askedPage (paged call number) = number.toNat - 1 := by
  have hvalue : (paged call number).value? "page" = some (Nat.repr number.toNat) := by
    show ((call.query ++ [("per_page", "100")]) ++ [("page", Nat.repr number.toNat)]).lookup "page"
      = _
    rw [List.lookup_append, List.lookup_append, show call.query.lookup "page" = none from hopen]
    rfl
  rw [askedPage, hvalue]
  dsimp only
  rw [Nat.toList_repr, Nat.ofDigitChars_ten_toDigits]

/-- **Every list that can be written is served honestly**, to any call that leaves the page open. -/
theorem serves_listServer {α : Type} {decode : Decoder α} {room : Nat} {toJson : α → Json}
    {items : List α} (hitems : ∀ item ∈ items, decode.Restores room item (toJson item))
    (hroom : room + 1 ≤ Decoder.fullRoom) {call : Request} (hopen : call.value? "page" = none) :
    Serves (page (Page.bareDecoder decode) call) (listServer toJson items) items := by
  intro number _
  refine ⟨some (.bare (itemsOn items (number.toNat - 1))), answered_page ?_, rfl,
    fun _ hnone => absurd hnone (by simp [Page.bare])⟩
  have hpage : ∀ item ∈ itemsOn items (number.toNat - 1), decode.Restores room item (toJson item) :=
    fun item hitem => hitems item (List.mem_of_mem_drop (List.mem_of_mem_take hitem))
  have htext : (Page.bareDecoder decode).text _ = _ :=
    ((Decoder.restores_list hpage).map Page.bare).text hroom
  unfold Reply.read listServer
  rw [askedPage_paged hopen, if_pos (show 200 ≤ 200 ∧ 200 < 300 by decide)]
  simp only [htext]

/-! ## The jobs of runs -/

/-- **The jobs of runs, up to the limit.** Reading each run under what remains of the limit comes to
the same as reading them all and keeping the first rows. -/
theorem answered_gatherRuns {request : FetchRequest} {scope : RepoScope} {rows : Job → List Row}
    {answer : Request → Reply} {jobsOf : WorkflowRun → List Job} {found : List WorkflowRun}
    (hjobs : ∀ run ∈ found,
      Serves (page (Page.countedDecoder Job.decoder) (scope.jobsOfRun run.id)) answer (jobsOf run) ∧
        (jobsOf run).length / 100 + 1 < UInt32.size)
    {got : List Row} (hgot : got.length < request.limit.toNat) :
    (gatherRuns request scope rows got found).answered answer =
      .done ((got ++ found.flatMap fun run => (jobsOf run).flatMap fun job =>
        (rows job).filter request.accepts).take request.limit.toNat) := by
  induction found generalizing got with
  | nil =>
    rw [List.flatMap_nil, List.append_nil, List.take_of_length_le (Nat.le_of_lt hgot)]
    rfl
  | cons run rest ih =>
    obtain ⟨hrun, hrest⟩ := List.forall_mem_cons.mp hjobs
    have hread : (jobRows request scope rows run.id .whole
        (request.limit - UInt64.ofNat got.length)).answered answer =
        .done (((jobsOf run).flatMap fun job => (rows job).filter request.accepts).take
          (request.limit.toNat - got.length)) :=
      toNat_remaining (Nat.le_of_lt hgot) ▸ answered_collect_whole hrun.2 hrun.1
    rw [gatherRuns, answered_bind hread, List.flatMap_cons, ← List.append_assoc]
    generalize (jobsOf run).flatMap _ = more
    rw [show got ++ more.take (request.limit.toNat - got.length) =
      (got ++ more).take request.limit.toNat by
        rw [List.take_append, List.take_of_length_le (Nat.le_of_lt hgot)]]
    generalize got ++ more = all
    split
    · -- the limit is met, so the rest of the runs adds nothing
      rename_i hmet
      rw [List.length_take] at hmet
      rw [List.take_append_of_le_length (by omega)]
      rfl
    · rename_i hbelow
      rw [List.length_take] at hbelow
      rw [List.take_of_length_le (show all.length ≤ request.limit.toNat by omega)]
      exact ih hrest (by omega)

/-! ## The shapes as pages -/

theorem max_one {n : UInt32} (h : 0 < n) : max n 1 = n := by
  rw [UInt32.lt_iff_toNat_lt] at h
  show (if n ≤ 1 then 1 else n) = n
  split
  · rename_i hone
    have hone' : n.toNat ≤ 1 := UInt32.le_iff_toNat_le.mp hone
    have hpositive : 0 < n.toNat := h
    exact UInt32.toNat_inj.mp (show 1 = n.toNat by omega)
  · rfl

/-- A way of reading shares out pages if every window comes to the rows of its own pages, up to the
limit. The pages are the same for every window and limit, and all of them have the given rows. -/
structure SharesOut (read : TableHandle → Exchange (List Row)) (answer : Request → Reply)
    (stride : Nat) (rows : List Row) (P : Nat → List Row) (f : Nat) : Prop where
  behind : ∀ j, f ≤ j → P j = []
  whole : strided P f 1 0 = rows
  windows : ∀ h : TableHandle, h.limit ≠ 0 → h.window.offset < h.window.increment →
    h.window.increment.toNat ≤ stride →
    (read h).answered answer =
      .done ((strided P f h.window.increment.toNat h.window.offset.toNat).take h.limit.toNat)

section Shapes

variable {answer : Request → Reply} {stride : Nat} (sort : Option RemoteSort)
  (enforced : List (Nat × Domain))

theorem sharesOut_listing {α : Type} {decode : Decoder (Page α)} {call : Request} {items : List α}
    (hitems : Serves (page decode call) answer items)
    (hbound : items.length / 100 + stride < UInt32.size) (rows : α → List Row) :
    SharesOut (fun h => (Reading.listing decode call rows).exchange ⟨h, sort, enforced⟩) answer stride
      ((items.flatMap rows).filter (FetchRequest.mk default sort enforced).accepts)
      (fun j => (itemsOn items j).flatMap fun item => (rows item).filter
        (FetchRequest.mk default sort enforced).accepts) (items.length / 100 + 1) where
  behind j hj := by rw [itemsOn_eq_nil (by omega), List.flatMap_nil]
  whole := by
    rw [strided_one, ← List.flatMap_assoc, flatMap_itemsOn items (by omega), List.filter_flatMap]
  windows h hlimit hoffset hstride := by
    have hoffset' := UInt32.lt_iff_toNat_lt.mp hoffset
    have hpatience : items.length / 100 + 1 ≤ items.length / 100 + stride := by omega
    exact answered_collect rfl (UInt32.lt_iff_toNat_lt.mpr (Nat.zero_lt_of_lt hoffset'))
      (Nat.lt_of_le_of_lt (Nat.add_le_add_left hstride _) hbound) hitems hoffset' (by omega)
      (Nat.lt_trans (Nat.lt_of_le_of_lt hpatience hbound) (by decide))

/-- The pages of the runs are shared out, each with the jobs of its runs. -/
theorem sharesOut_runs {scope : RepoScope} {runs : List WorkflowRun}
    {jobsOf : WorkflowRun → List Job}
    (hruns : Serves (page (Page.countedDecoder WorkflowRun.decoder)
      (scope.call ["actions", "runs"])) answer runs)
    (hbound : runs.length / 100 + stride < UInt32.size)
    (hjobs : ∀ run ∈ runs,
      Serves (page (Page.countedDecoder Job.decoder) (scope.jobsOfRun run.id)) answer (jobsOf run) ∧
        (jobsOf run).length / 100 + 1 < UInt32.size) (rows : Job → List Row) :
    SharesOut (fun h => (Reading.runs scope rows).exchange ⟨h, sort, enforced⟩) answer stride
      ((runs.flatMap fun run => (jobsOf run).flatMap rows).filter
        (FetchRequest.mk default sort enforced).accepts)
      (fun j => (itemsOn runs j).flatMap fun run => (jobsOf run).flatMap fun job =>
        (rows job).filter (FetchRequest.mk default sort enforced).accepts)
      (runs.length / 100 + 1) where
  behind j hj := by rw [itemsOn_eq_nil (by omega), List.flatMap_nil]
  whole := by
    rw [strided_one, ← List.flatMap_assoc, flatMap_itemsOn runs (by omega), List.filter_flatMap]
    exact List.flatMap_congr fun run _ => List.filter_flatMap.symm
  windows h hlimit hoffset hstride := by
    have hoffset' := UInt32.lt_iff_toNat_lt.mp hoffset
    have hpatience : runs.length / 100 + 1 ≤ runs.length / 100 + stride := by omega
    refine answered_walk ⟨rfl, UInt32.lt_iff_toNat_lt.mpr (Nat.zero_lt_of_lt hoffset'),
      Nat.lt_of_le_of_lt (Nat.add_le_add_left hstride _) hbound, hruns,
      fun got found hgot hfound => ?_⟩ hlimit hoffset' (by omega)
      (Nat.lt_trans (Nat.lt_of_le_of_lt hpatience hbound) (by decide))
    exact answered_gatherRuns (fun run hrun => hjobs run (hfound run hrun)) hgot

/-- A single job is one page, if it is there at all. -/
theorem sharesOut_job {scope : RepoScope} {number : Int64} {job : Option Job}
    (hjob : (answer (scope.call ["actions", "jobs", pathNumber number])).read Job.decoder =
      .ok job) :
    SharesOut (fun h => (Reading.job scope number).exchange ⟨h, sort, enforced⟩) answer stride
      (((job.map (Job.stepRows scope.owner scope.repo)).getD []).filter
        (FetchRequest.mk default sort enforced).accepts)
      (fun j => if j = 0 then ((job.map (Job.stepRows scope.owner scope.repo)).getD []).filter
        (FetchRequest.mk default sort enforced).accepts else []) 1 where
  behind j hj := if_neg (by omega)
  whole := by rw [strided_succ, strided_zero, List.nil_append, Nat.zero_mul, if_pos rfl]
  windows h hlimit hoffset hstride := by
    rw [strided_succ, strided_zero, List.nil_append, Nat.zero_mul, Nat.add_zero]
    unfold Reading.exchange fetchStepsOfJob
    by_cases hlater : 0 < h.window.offset
    · -- a later window has no page, and asks nothing
      have hlater' : 0 < h.window.offset.toNat := UInt32.lt_iff_toNat_lt.mp hlater
      rw [if_neg (Nat.ne_of_gt hlater'), List.take_nil]
      show (if 0 < h.window.offset then Dialogue.done [] else _).answered answer = _
      rw [if_pos hlater]
      rfl
    · have hfirst : ¬0 < h.window.offset.toNat := fun hh => hlater (UInt32.lt_iff_toNat_lt.mpr hh)
      rw [if_pos (Nat.eq_zero_of_not_pos hfirst)]
      show (if 0 < h.window.offset then _ else _ : Exchange (List Row)).answered answer = _
      rw [if_neg hlater]
      show ((Dialogue.ofExcept ((answer (scope.call ["actions", "jobs", pathNumber number])).read
        Job.decoder) >>= _ : Exchange (List Row))).answered answer = _
      rw [hjob]
      cases job with
      | none => exact congrArg Outcome.done List.take_nil.symm
      | some job => rfl

/-- **Every shape of reading shares out pages.** -/
theorem exists_sharesOut {reading : Reading} {found : List Row}
    (hserved : reading.Served answer stride found) :
    ∃ (P : Nat → List Row) (f : Nat),
      SharesOut (fun h => reading.exchange ⟨h, sort, enforced⟩) answer stride
        (found.filter (FetchRequest.mk default sort enforced).accepts) P f := by
  cases reading with
  | listing decode call rows =>
    obtain ⟨items, hitems, hbound, rfl⟩ := hserved
    exact ⟨_, _, sharesOut_listing sort enforced hitems hbound rows⟩
  | runs scope rows =>
    obtain ⟨runs, jobsOf, hruns, hbound, hjobs, rfl⟩ := hserved
    exact ⟨_, _, sharesOut_runs sort enforced hruns hbound hjobs rows⟩
  | job scope number =>
    obtain ⟨job, hjob, rfl⟩ := hserved
    exact ⟨_, _, sharesOut_job sort enforced hjob⟩

end Shapes

/-! ## Reading in windows -/

/-- The tables have all columns that they enforce. -/
theorem rules_of_mem_tables {t : TableDefinition Request Reply} (ht : t ∈ tables) :
    ∃ rules, t.rules = some rules ∧ ∀ rule ∈ rules, rule.2 = .equal →
      ∃ column ∈ t.columns, column.name = rule.1 := by
  simp only [tables, List.mem_cons, List.not_mem_nil, or_false] at ht
  rcases ht with rfl | rfl | rfl | rfl | rfl | rfl | rfl | rfl | rfl | rfl | rfl
  all_goals exact ⟨_, rfl, by decide⟩

/-- So their checks can always be made. -/
theorem checks_of_mem_tables {t : TableDefinition Request Reply} (ht : t ∈ tables)
    (c : Constraint) : ∃ enforced, t.checks c = .ok enforced := by
  obtain ⟨rules, hrules, hcolumns⟩ := rules_of_mem_tables ht
  refine TableDefinition.checks_isOk hrules fun entry _ hkind => ?_
  have hrule := FilterRules.mem_of_kindOf (show rules.kindOf entry.column.name ≠ _ by simp [hkind])
  exact hcolumns _ hrule hkind

section SharesOut

variable {t : TableDefinition Request Reply} {h : TableHandle} {answer : Request → Reply}
  {rows : List Row} {P : Nat → List Row} {f : Nat}

/-- A table shares out pages as its shape does. Sort, checks and shape are those of the handle, limit
and window those of the part. -/
theorem SharesOut.read {stride : Nat} {reading : Reading} {enforced : List (Nat × Domain)}
    (hshares : SharesOut (fun h' => reading.exchange ⟨h', t.sortOf h, enforced⟩) answer stride rows
      P f) (ht : t ∈ tables) (hnone : h.constraint.isNone = false)
    (hreading : readingOf t.name h.constraint (t.sortOf h) = .ok reading)
    (henforced : t.checks h.constraint = .ok enforced) :
    SharesOut (fun part => t.read
        ⟨h.table, h.constraint, part.offset, part.limit, part.pageIncrement, h.sortOrder⟩)
      answer stride rows P f where
  behind := hshares.behind
  whole := hshares.whole
  windows part hlimit hoffset hstride := by
    generalize hpart : TableHandle.mk h.table h.constraint part.offset part.limit part.pageIncrement
      h.sortOrder = asked
    have hconstraint : asked.constraint = h.constraint := by rw [← hpart]
    have hlimit' : asked.limit = part.limit := by rw [← hpart]
    have hsort : t.sortOf asked = t.sortOf h := by rw [← hpart]; rfl
    have hwindow : asked.window = part.window := by rw [← hpart]; rfl
    rw [← hwindow] at hoffset hstride ⊢
    rw [← hlimit'] at hlimit ⊢
    rw [read_eq hlimit (hconstraint ▸ hnone), hconstraint, henforced, hsort]
    show (do
      let rows ← t.fetch ⟨asked, t.sortOf h, enforced⟩
      return rows.filter _ : Exchange (List Row)).answered answer = _
    rw [filter_fetch ⟨asked, t.sortOf h, enforced⟩ ht hlimit, fetch_eq ht]
    show (exchangeOf _ (readingOf t.name asked.constraint (t.sortOf h))).answered answer = _
    rw [hconstraint, hreading]
    exact hshares.windows asked hlimit hoffset hstride

/-- A window comes to the rows of its own pages, up to the limit. -/
theorem SharesOut.window {windows : UInt32}
    (hshares : SharesOut (fun part => t.read
        ⟨h.table, h.constraint, part.offset, part.limit, part.pageIncrement, h.sortOrder⟩)
      answer windows.toNat rows P f) (hlimit : h.limit ≠ 0) (hwindows : 0 < windows) {k : Nat}
    (hk : k < windows.toNat) :
    (t.read (h.withPageWindow (.ofNat k) windows)).answered answer =
      .done ((strided P f windows.toNat k).take h.limit.toNat) := by
  have hoffset : (UInt32.ofNat k).toNat = k :=
    UInt32.toNat_ofNat_of_lt' (Nat.lt_trans hk windows.toNat_lt)
  have hincrement : (h.withPageWindow (.ofNat k) windows).window.increment = windows := by
    show max (max windows 1) 1 = windows
    rw [max_one hwindows, max_one hwindows]
  have hbefore : UInt32.ofNat k < windows := UInt32.lt_iff_toNat_lt.mpr (hoffset.symm ▸ hk)
  have hread := hshares.windows (h.withPageWindow (.ofNat k) windows) hlimit
    (hincrement.symm ▸ hbefore) (Nat.le_of_eq (congrArg UInt32.toNat hincrement))
  rw [hincrement, show (h.withPageWindow (.ofNat k) windows).window.offset.toNat = k from hoffset]
    at hread
  exact hread

end SharesOut

section Windows

variable {t : TableDefinition Request Reply} (ht : t ∈ tables) {rules : FilterRules}
  (hrules : t.rules = some rules) {h : TableHandle} (hnone : h.constraint.isNone = false)
  {reading : Reading} (hreading : readingOf t.name h.constraint (t.sortOf h) = .ok reading)
  {answer : Request → Reply} {stride : Nat} {found : List Row}
  (hserved : reading.Served answer stride found)
include ht hrules hnone hreading hserved

/-- **A table shares out pages** among the handles that differ in window and limit only. -/
theorem exists_sharesOut_read :
    ∃ (P : Nat → List Row) (f : Nat),
      SharesOut (fun part => t.read
          ⟨h.table, h.constraint, part.offset, part.limit, part.pageIncrement, h.sortOrder⟩)
        answer stride (found.filter (t.passes rules h.constraint)) P f := by
  obtain ⟨enforced, henforced⟩ := checks_of_mem_tables ht h.constraint
  obtain ⟨P, f, hshares⟩ := exists_sharesOut (t.sortOf h) enforced hserved
  have hpasses : found.filter (FetchRequest.mk default (t.sortOf h) enforced).accepts =
      found.filter (t.passes rules h.constraint) :=
    List.filter_congr fun row _ => TableDefinition.accepts_of_checks hrules henforced rfl row
  exact ⟨P, f, hpasses ▸ hshares.read ht hnone hreading henforced⟩

/-- What a table comes to without a window: all rows that pass the check, up to the limit. -/
theorem answered_whole (hwindow : h.window = .whole) (hlimit : h.limit ≠ 0) (hstride : 0 < stride) :
    (t.read h).answered answer =
      .done ((found.filter (t.passes rules h.constraint)).take h.limit.toNat) := by
  obtain ⟨P, f, hshares⟩ := exists_sharesOut_read ht hrules hnone hreading hserved
  rw [← hshares.whole]
  have hread := hshares.windows h hlimit (by rw [hwindow]; decide) (by rw [hwindow]; exact hstride)
  rw [hwindow] at hread
  exact hread

/-- A handle cut into windows. Each window comes to an end, and what all come to depends on the
limit. -/
theorem answered_cut (hlimit : h.limit ≠ 0) {windows : UInt32} (hwindows : 0 < windows)
    (hstride : windows.toNat = stride) :
    ∃ parts : List (List Row),
      ((Connector.cut windows h).map fun part => (t.read part).answered answer) =
        parts.map Outcome.done ∧
      ((found.filter (t.passes rules h.constraint)).length ≤ h.limit.toNat →
        parts.flatten.Perm (found.filter (t.passes rules h.constraint))) ∧
      ∃ rest, ((found.filter (t.passes rules h.constraint)).take h.limit.toNat ++ rest).Perm
        parts.flatten := by
  subst hstride
  obtain ⟨P, f, hshares⟩ := exists_sharesOut_read ht hrules hnone hreading hserved
  have hpositive : 0 < windows.toNat := UInt32.lt_iff_toNat_lt.mp hwindows
  have hflatten : (((List.range windows.toNat).map fun k =>
      (strided P f windows.toNat k).take h.limit.toNat).flatten) =
      (List.range windows.toNat).flatMap fun k =>
        (strided P f windows.toNat k).take h.limit.toNat := List.flatMap_def.symm
  refine ⟨(List.range windows.toNat).map fun k =>
    (strided P f windows.toNat k).take h.limit.toNat, ?_, ?_⟩
  · rw [Connector.cut, List.map_map, List.map_map]
    exact List.map_congr_left fun k hk =>
      hshares.window hlimit hwindows (List.mem_range.mp hk)
  rw [hflatten, ← hshares.whole]
  refine ⟨fun hshort => ?_, perm_take_strided hshares.behind hpositive h.limit.toNat⟩
  -- no window comes to more rows than there are, so no window is cut off
  have hwhole := perm_strided_whole hshares.behind hpositive
  refine (List.Perm.of_eq (List.flatMap_congr fun k hk => List.take_of_length_le ?_)).trans hwhole
  have hle := length_le_length_flatMap (strided P f windows.toNat) hk
  rw [hwhole.length_eq] at hle
  exact Nat.le_trans hle hshort

end Windows

theorem outcome_rows {settings : Settings} {t : TableDefinition Request Reply} {h : TableHandle}
    (ht : (connector settings).tableFor h.table = .ok t) (answer : Request → Reply) :
    ((connector settings).rows (.ofHandle h)).outcome (.static answer) =
      (t.read h).answered answer := by
  rw [outcome_static]
  show (Dialogue.ofExcept ((connector settings).tableFor h.table) >>= _ :
    Exchange _).answered answer = _
  rw [ht]
  rfl

/-! ## A hundred and one reviews

The reviews of a pull request, on one page and a bit: the last one stands on a page of its own. -/

/-- A review with its state only. -/
def bareReview (id : Int64) : Review := ⟨id, none, "APPROVED", none, none, none, none⟩

/-- Such a review on the wire. -/
def Review.bareJson (r : Review) : Json :=
  .object [("id", .int r.id.toInt), ("user", .null), ("state", .string r.state), ("body", .null),
    ("commit_id", .null), ("html_url", .null), ("submitted_at", .null)]

theorem restores_bareReview (id : Int64) :
    Review.decoder.Restores 1 (bareReview id) (bareReview id).bareJson := by
  have hid := Decoder.restores_int64 id
  have hstate := Decoder.restores_string "APPROVED"
  have hnodup : ([("id", Json.int id.toInt), ("user", .null), ("state", .string "APPROVED"),
      ("body", .null), ("commit_id", .null), ("html_url", .null), ("submitted_at", .null)].map
      Prod.fst).Nodup := by simp
  refine Record.Restores.decoder ?_ ?_
  · refine Record.restores_seq (Record.restores_seq (Record.restores_seq (Record.restores_seq
      (Record.restores_seq (Record.restores_seq (Record.restores_map ?_ _) ?_) ?_) ?_) ?_) ?_) ?_
    · exact Record.restores_field hnodup (by simp) (Nat.le_refl 0) hid
    · exact Record.restores_null hnodup (by simp)
    · exact Record.restores_field hnodup (by simp) (Nat.le_refl 0) hstate
    all_goals exact Record.restores_null hnodup (by simp)
  · simp [bareReview, hid.exact, hstate.exact, Json.Exact.null]

def reviews : List Review := (List.range 101).map fun n => bareReview (.ofNat n)

def reviewsServer : Request → Reply := listServer Review.bareJson reviews

theorem serves_reviews : Serves (page (Page.bareDecoder Review.decoder)
    (RepoScope.call ⟨"o", "r"⟩ ["pulls", pathNumber 1, "reviews"])) reviewsServer reviews := by
  refine serves_listServer (fun review hreview => ?_) (show 1 + 1 ≤ 127 by decide) rfl
  obtain ⟨n, -, rfl⟩ := List.mem_map.mp hreview
  exact restores_bareReview _

def reviewsTable : TableDefinition Request Reply :=
  ⟨"reviews", Review.columns, some pullScopedRules, [], fetchReviews⟩

def reviewsHandle : TableHandle :=
  ⟨⟨"github", "reviews"⟩, ⟨[⟨⟨"owner", .varchar⟩, .single (.varchar "o")⟩,
    ⟨⟨"pull_number", .bigInt⟩, .single (.bigInt 1)⟩,
    ⟨⟨"repo", .varchar⟩, .single (.varchar "r")⟩]⟩, 0, noLimit, 1, none⟩

/-- What a row of the reviews is checked for. -/
def reviewsChecks : List (Nat × Domain) :=
  [(0, .single (.varchar "o")), (2, .single (.bigInt 1)), (1, .single (.varchar "r"))]

theorem accepts_review (review : Review) :
    (FetchRequest.mk default none reviewsChecks).accepts (review.toRow "o" "r" 1) = true := by
  simp only [FetchRequest.accepts, reviewsChecks, List.all_cons, List.all_nil, Bool.and_true,
    Bool.and_eq_true]
  exact ⟨(Domain.includes_single _ _).mpr rfl, (Domain.includes_single _ _).mpr rfl,
    (Domain.includes_single _ _).mpr rfl⟩

/-- Of two windows each has one page of reviews. -/
theorem answered_reviewsWindow {k : Nat} (hk : k < 2) :
    (reviewsTable.read (reviewsHandle.withPageWindow (.ofNat k) 2)).answered reviewsServer =
      .done ((itemsOn reviews k).map (Review.toRow "o" "r" 1)) := by
  have hlisted := sharesOut_listing none reviewsChecks serves_reviews
    (show reviews.length / 100 + (2 : UInt32).toNat < UInt32.size by decide)
    fun review => [review.toRow "o" "r" 1]
  have hshares := hlisted.read (t := reviewsTable) (h := reviewsHandle)
    (by simp [tables, reviewsTable]) (by decide) rfl rfl
  have hpage : ∀ j, ((itemsOn reviews j).flatMap fun review => [review.toRow "o" "r" 1].filter
      (FetchRequest.mk default none reviewsChecks).accepts) =
      (itemsOn reviews j).map (Review.toRow "o" "r" 1) := by
    intro j
    rw [List.map_eq_flatMap]
    exact List.flatMap_congr fun review _ => List.filter_cons_of_pos (accepts_review review)
  -- the next page of the window is behind the end
  have hbehind : itemsOn reviews (k + 1 * (2 : UInt32).toNat) = [] :=
    itemsOn_eq_nil (show 101 ≤ (k + 1 * 2) * 100 by omega)
  have hshort : (itemsOn reviews k).length ≤ noLimit.toNat := by
    rw [length_itemsOn]
    exact Nat.le_trans (Nat.min_le_left _ _) (by decide)
  have hread := hshares.window (by decide) (by decide) hk
  rw [show reviews.length / 100 + 1 = 2 from rfl, strided_succ, strided_succ, strided_zero,
    List.nil_append, hpage, hpage, hbehind, List.map_nil, List.append_nil, Nat.zero_mul,
    Nat.add_zero, List.take_of_length_le (by rw [List.length_map]; exact hshort)] at hread
  exact hread

/-- **Page windows lose nothing.** A handle without a window is cut into windows, and all of them are
read from a server that always says the same and is honest. They all come to an end. Without a limit
they have the rows of the handle, in some order; there the handle must come to fewer rows than the
number that stands for no limit, as every list in memory has. With a limit they have at least the
first rows of what there is without one, up to the limit. -/
theorem windows_lossless (settings : Settings) {h : TableHandle}
    {t : TableDefinition Request Reply}
    (ht : (connector settings).tableFor h.table = .ok t) (hwindow : h.window = .whole)
    (hlimit : h.limit ≠ 0) (hnone : h.constraint.isNone = false) {reading : Reading}
    (hreading : readingOf t.name h.constraint (t.sortOf h) = .ok reading)
    {windows : UInt32} (hwindows : 0 < windows) {answer : Request → Reply} {found : List Row}
    (hserved : reading.Served answer windows.toNat found) :
    ∃ (parts : List (List Row)) (all : List Row),
      ((Connector.cut windows h).map fun part =>
        ((connector settings).rows (.ofHandle part)).outcome (.static answer)) =
          parts.map Outcome.done ∧
      ((connector settings).rows (.ofHandle (h.withLimit noLimit))).outcome (.static answer) =
        .done all ∧
      (h.limit = noLimit → all.length < noLimit.toNat → parts.flatten.Perm all) ∧
      ∃ rest, (all.take h.limit.toNat ++ rest).Perm parts.flatten := by
  have hmem := mem_tables_of_tableFor ht
  obtain ⟨rules, hrules, -⟩ := rules_of_mem_tables hmem
  obtain ⟨parts, hparts, hall, hfirst⟩ :=
    answered_cut hmem hrules hnone hreading hserved hlimit hwindows rfl
  have hwhole : (t.read (h.withLimit noLimit)).answered answer =
      .done ((found.filter (t.passes rules h.constraint)).take noLimit.toNat) :=
    answered_whole (h := h.withLimit noLimit) hmem hrules hnone hreading hserved hwindow
      (show noLimit ≠ 0 by decide) (UInt32.lt_iff_toNat_lt.mp hwindows)
  refine ⟨parts, _, ?_, (outcome_rows (h := h.withLimit noLimit) ht answer).trans hwhole,
    fun hunlimited hshort => ?_, ?_⟩
  · rw [← hparts]
    refine List.map_congr_left fun part hpart => ?_
    obtain ⟨k, -, rfl⟩ := List.mem_map.mp hpart
    exact outcome_rows (h := h.withPageWindow (.ofNat k) windows) ht answer
  · have hbelow := hshort
    rw [List.length_take] at hbelow
    rw [List.take_of_length_le (by omega)]
    exact hall (by rw [hunlimited]; omega)
  · have hle : h.limit.toNat ≤ noLimit.toNat := Nat.le_of_lt_succ h.limit.toNat_lt
    rw [List.take_take, Nat.min_eq_left hle]
    exact hfirst

/-- A hundred and one reviews in two windows, of which the second has one. -/
theorem windows_lossless_reviews :
    ∃ (parts : List (List Row)) (all : List Row),
      ((Connector.cut 2 reviewsHandle).map fun part =>
        ((connector .standard).rows (.ofHandle part)).outcome (.static reviewsServer)) =
          parts.map Outcome.done ∧
      ((connector .standard).rows (.ofHandle (reviewsHandle.withLimit noLimit))).outcome
        (.static reviewsServer) = .done all ∧
      parts.map List.length = [100, 1] ∧ parts.flatten.Perm all := by
  obtain ⟨parts, all, hparts, hall, hperm, rest, hfirst⟩ :=
    windows_lossless .standard (t := reviewsTable) (h := reviewsHandle) rfl rfl (by decide)
      (by decide) rfl (show (0 : UInt32) < 2 by decide) (show Reading.Served reviewsServer 2 _ (.listing
        (Page.bareDecoder Review.decoder)
        (RepoScope.call ⟨"o", "r"⟩ ["pulls", pathNumber 1, "reviews"])
        fun review => [review.toRow "o" "r" 1]) from ⟨reviews, serves_reviews, by decide, rfl⟩)
  have hread : ∀ k < 2, ((connector .standard).rows (.ofHandle
      (reviewsHandle.withPageWindow (.ofNat k) 2))).outcome (.static reviewsServer) =
      .done ((itemsOn reviews k).map (Review.toRow "o" "r" 1)) := fun k hk =>
    (outcome_rows (h := reviewsHandle.withPageWindow (.ofNat k) 2) rfl _).trans
      (answered_reviewsWindow hk)
  have hshares : parts = [(itemsOn reviews 0).map (Review.toRow "o" "r" 1),
      (itemsOn reviews 1).map (Review.toRow "o" "r" 1)] := by
    refine List.map_injective_iff.mpr (fun _ _ => Outcome.done.inj) (hparts.symm.trans ?_)
    rw [List.map_cons, List.map_singleton, ← hread 0 (by decide), ← hread 1 (by decide)]
    rfl
  have hlengths : parts.map List.length = [100, 1] := by
    rw [hshares]
    simp only [List.map_cons, List.map_nil, List.length_map, length_itemsOn]
    rfl
  refine ⟨parts, all, hparts, hall, hlengths, hperm rfl ?_⟩
  -- all windows have a hundred and one rows, so there are no more without one
  have hle := hfirst.length_eq
  rw [List.length_append, List.length_take, List.length_flatten, hlengths] at hle
  have hnoLimit : reviewsHandle.limit.toNat = noLimit.toNat := rfl
  have hmany : 101 < noLimit.toNat := by decide
  have hsum : [100, 1].sum = 101 := rfl
  omega

end Github
end RemoteTables
