import RemoteTables.Proofs.Github.Reading
import RemoteTables.Proofs.Listing.Asked

/-!
# Where requests go

The requests for a split go to the listings of its owner and repository and nowhere else, however the
server answers (`requests_in_scope`). This is said twice over. By their place: `InScope` describes a
request by the words of its path, with numbers in between, and by how it asks for a page. And by
where they come from: a request is computed from the split, from how many pages have been passed, and
from the number of a run (`Reading.request`), and only the last is ever taken from an answer, where
it is the identity of a run and nothing else (`RunSeen`).

The second description is proved shape by shape (`keeps_exchange`), and the first follows from it
table by table (`inScope_request`).
-/

set_option autoImplicit false

namespace RemoteTables
namespace Github

open Dialogue

/-! ## Requests as they are computed -/

/-- The request of a shape of reading for the page that comes after so many others, be it of the
listing itself or of the jobs of a run. -/
def Reading.request (window : PageWindow) : Reading → (run : Option Int64) → (passed : Nat) → Request
  | listing _ call _, _, passed => paged call (window.pageAt passed)
  | runs scope _, none, passed => paged (scope.call ["actions", "runs"]) (window.pageAt passed)
  | runs scope _, some run, passed => paged (scope.jobsOfRun run) (PageWindow.whole.pageAt passed)
  | job scope number, _, _ => scope.call ["actions", "jobs", pathNumber number]

/-- Whether a server has answered one of the questions with a page of runs, among them one with the
given number. -/
def RunSeen (server : Server Request Reply) (asked : List Request) (number : Int64) : Prop :=
  ∃ earlier question reply page, earlier ++ [question] <+: asked ∧
    server earlier question = .ok reply ∧
    reply.read (Page.countedDecoder WorkflowRun.decoder) = .ok (some page) ∧
    ∃ run ∈ page.items.getD [], run.id = number

theorem RunSeen.mono {server : Server Request Reply} {asked later : List Request} {number : Int64}
    (h : RunSeen server asked number) (hlater : asked <+: later) : RunSeen server later number := by
  obtain ⟨earlier, question, reply, page, hasked, hpage⟩ := h
  exact ⟨earlier, question, reply, page, hasked.trans hlater, hpage⟩

section Computed

variable {server : Server Request Reply} {p : List Request → Request → Prop} {asked : List Request}

/-- What a page holds stood in the answer to the one question that is asked for it. -/
theorem keeps_page {α : Type} {decode : Decoder (Page α)} {call : Request} {number : UInt32}
    (h : p asked (paged call number)) :
    (page decode call number).Keeps server p (fun later found => ∃ earlier question reply,
      earlier ++ [question] <+: later ∧ server earlier question = .ok reply ∧
      reply.read decode = .ok found) asked :=
  ⟨h, fun reply hreply => keeps_ofExcept fun _ hfound =>
    ⟨asked, _, reply, List.prefix_refl _, hreply, hfound⟩⟩

theorem keeps_collect {α : Type} {request : FetchRequest} {decode : Decoder (Page α)}
    {call : Request} {window : PageWindow} {limit : UInt64} {rows : α → List Row}
    (h : ∀ later passed, asked <+: later → p later (paged call (window.pageAt passed))) :
    (collect request decode call window limit rows).Keeps server p (fun _ _ => True) asked := by
  refine Keeps.since ?_ (List.prefix_refl asked)
  exact PageWindow.keeps_collect (v := fun _ _ => True) fun later passed =>
    (keeps_page (h later passed)).value_mono fun _ _ _ _ _ _ _ => trivial

/-- Going through runs asks for the jobs of these runs. -/
theorem keeps_gatherRuns {request : FetchRequest} {scope : RepoScope} {rows : Job → List Row}
    (h : ∀ asked number passed, RunSeen server asked number →
      p asked (paged (scope.jobsOfRun number) (PageWindow.whole.pageAt passed)))
    {runs : List WorkflowRun} {got : List Row} (hruns : ∀ run ∈ runs, RunSeen server asked run.id) :
    (gatherRuns request scope rows got runs).Keeps server p (fun _ _ => True) asked := by
  induction runs generalizing got asked with
  | nil => trivial
  | cons run rest ih =>
    obtain ⟨hrun, hrest⟩ := List.forall_mem_cons.mp hruns
    rw [gatherRuns]
    have hjobs : (jobRows request scope rows run.id .whole
        (request.limit - UInt64.ofNat got.length)).Keeps server p (fun _ _ => True) asked :=
      keeps_collect fun later passed hlater => h later _ passed (hrun.mono hlater)
    refine hjobs.bind fun later more hlater _ => ?_
    split
    · trivial
    · exact ih fun other hother => (hrest other hother).mono hlater

/-- **A shape of reading asks only what it computes from the pages passed and a run that was
seen.** -/
theorem keeps_exchange (request : FetchRequest) (reading : Reading) :
    (reading.exchange request).Keeps server
      (fun asked question => ∃ run passed,
        (∀ number, run = some number → RunSeen server asked number) ∧
        question = reading.request request.window run passed)
      (fun _ _ => True) asked := by
  have hnone (later : List Request) (number : Int64) (h : none = some number) :
      RunSeen server later number := by cases h
  cases reading with
  | listing decode call rows =>
    exact keeps_collect fun later passed _ => ⟨none, passed, hnone later, rfl⟩
  | runs scope rows =>
    rw [Reading.exchange, readJobs]
    refine PageWindow.keeps_walk (v := fun later run => RunSeen server later run.id)
      (fun later passed => ?_) fun later got runs hruns => ?_
    · refine (keeps_page ⟨none, passed, hnone later, rfl⟩).value_mono fun latest found hfound => ?_
      obtain ⟨earlier, question, reply, hasked, hreply, hread⟩ := hfound
      rintro page rfl run hrun
      exact ⟨earlier, question, reply, page, hasked, hreply, hread, run, hrun, rfl⟩
    · refine keeps_gatherRuns (fun latest number passed hseen => ?_) hruns
      refine ⟨some number, passed, fun other hother => ?_, rfl⟩
      exact Option.some.inj hother ▸ hseen
  | job scope number =>
    rw [Reading.exchange, fetchStepsOfJob]
    split
    · trivial
    · refine ⟨⟨none, 0, hnone asked, rfl⟩, fun reply _ => keeps_ofExcept_bind fun found _ => ?_⟩
      cases found <;> trivial

end Computed

/-- **A table asks only what its shape of reading computes.** -/
theorem keeps_read {t : TableDefinition Request Reply} (ht : t ∈ tables) (h : TableHandle)
    (server : Server Request Reply) :
    (t.read h).Keeps server
      (fun asked question => ∃ reading run passed,
        readingOf t.name h.constraint (t.sortOf h) = .ok reading ∧
        (∀ number, run = some number → RunSeen server asked number) ∧
        question = reading.request h.window run passed)
      (fun _ _ => True) [] := by
  by_cases hnothing : h.limit = 0 ∨ h.constraint.isNone = true
  · rw [read_eq_done hnothing]
    trivial
  · rw [not_or, Bool.not_eq_true] at hnothing
    rw [read_eq hnothing.1 hnothing.2]
    refine keeps_ofExcept_bind fun enforced _ => ?_
    refine Keeps.bind (v := fun _ _ => True) ?_ fun _ rows _ _ => trivial
    rw [fetch_eq ht, FetchRequest.constraint]
    cases hreading : readingOf t.name h.constraint (t.sortOf h) with
    | error failure => trivial
    | ok reading =>
      refine (keeps_exchange _ reading).mono fun later question hquestion => ?_
      obtain ⟨run, passed, hrequest⟩ := hquestion
      exact ⟨reading, run, passed, rfl, hrequest⟩

/-! ## Requests by their place -/

/-- Whether a constraint binds a column to a single value, which is a text. -/
def BindsText (c : Constraint) (column text : String) : Prop :=
  (c.domain? column).bind Domain.singleValue? = some (.varchar text)

/-- The paths below a repository under which a table lists things, where `none` stands for a
number. -/
def listedPaths (table : String) : List (List (Option String)) :=
  match table with
  | "issues" => [[some "issues"]]
  | "issue_comments" => [[some "issues", some "comments"]]
  | "pulls" => [[some "pulls"]]
  | "pull_commits" => [[some "pulls", none, some "commits"]]
  | "reviews" => [[some "pulls", none, some "reviews"]]
  | "workflows" => [[some "actions", some "workflows"]]
  | "runs" => [[some "actions", some "runs"]]
  | "jobs" | "steps" =>
    [[some "actions", some "runs"], [some "actions", some "runs", none, some "jobs"]]
  | "artifacts" =>
    [[some "actions", some "artifacts"], [some "actions", some "runs", none, some "artifacts"]]
  | _ => []

/-- Whether the segments of a path are the given words, with decimal numbers in between. -/
inductive Follows : List (Option String) → List String → Prop where
  | nil : Follows [] []
  | word {path : List (Option String)} {segments : List String} (text : String)
    (h : Follows path segments) : Follows (some text :: path) (text :: segments)
  | number {path : List (Option String)} {segments : List String} (number : Int64)
    (h : Follows path segments) : Follows (none :: path) (pathNumber number :: segments)

/-- Whether a request asks for one page, of a hundred items. -/
structure AsksPage (question : Request) : Prop where
  size : question.query.filter (·.1 = "per_page") = [("per_page", "100")]
  number : ∃ number : UInt32,
    question.query.filter (·.1 = "page") = [("page", toString number.toNat)]

/-- Whether a request stays with the owner and the repository that a constraint binds. -/
inductive InScope (table : String) (c : Constraint) (question : Request) : Prop where
  /-- The listing of an owner. -/
  | ofOwner {owner : String} (htable : table = "repos") (howner : BindsText c "owner" owner)
    (hsegments : question.segments = ["users", owner, "repos"]) (hpage : AsksPage question)
  /-- A listing of a repository. -/
  | ofRepository {owner repo : String} {tail : List String} {path : List (Option String)}
    (hpath : path ∈ listedPaths table) (howner : BindsText c "owner" owner)
    (hrepo : BindsText c "repo" repo)
    (hsegments : question.segments = "repos" :: owner :: repo :: tail) (htail : Follows path tail)
    (hpage : AsksPage question)
  /-- A single job of a repository, which is no listing. -/
  | ofJob {owner repo : String} {number : Int64} (htable : table = "steps")
    (howner : BindsText c "owner" owner) (hrepo : BindsText c "repo" repo)
    (hrequest : question =
      .ofPath ["repos", owner, repo, "actions", "jobs", pathNumber number])

theorem segments_paramIfAny (call : Request) (key : String) (value : Option String) :
    (call.paramIfAny key value).segments = call.segments := by
  cases value <;> rfl

theorem segments_sorted (call : Request) (sort : Option RemoteSort) :
    (sorted call sort).segments = call.segments := by
  cases sort <;> rfl

/-! ### Pages -/

/-- Whether a call leaves it open which page is wanted. -/
def PageOpen (call : Request) : Prop :=
  ∀ pair ∈ call.query, pair.1 ≠ "per_page" ∧ pair.1 ≠ "page"

theorem pageOpen_ofPath (segments : List String) : PageOpen (.ofPath segments) :=
  fun _ hnone => absurd hnone List.not_mem_nil

theorem PageOpen.param {call : Request} (h : PageOpen call) {key : String} (value : String)
    (hkey : key ≠ "per_page" ∧ key ≠ "page") : PageOpen (call.param key value) :=
  List.forall_mem_append.mpr ⟨h, List.forall_mem_singleton.mpr hkey⟩

theorem PageOpen.paramIfAny {call : Request} (h : PageOpen call) {key : String}
    (value : Option String) (hkey : key ≠ "per_page" ∧ key ≠ "page") :
    PageOpen (call.paramIfAny key value) := by
  cases value with
  | none => exact h
  | some value => exact h.param value hkey

theorem PageOpen.sorted {call : Request} (h : PageOpen call) (sort : Option RemoteSort) :
    PageOpen (sorted call sort) := by
  cases sort with
  | none => exact h
  | some sort => exact (h.param sort.key (by decide)).param sort.direction.param (by decide)

/-- A call that leaves the page open asks for exactly the one that is added. -/
theorem PageOpen.asksPage {call : Request} (h : PageOpen call) (number : UInt32) :
    AsksPage (paged call number) := by
  have hsize : call.query.filter (·.1 = "per_page") = [] :=
    List.filter_eq_nil_iff.mpr fun pair hpair => by simp [(h pair hpair).1]
  have hnumber : call.query.filter (·.1 = "page") = [] :=
    List.filter_eq_nil_iff.mpr fun pair hpair => by simp [(h pair hpair).2]
  constructor
  · simp only [paged, Request.param, List.filter_append, hsize]
    rfl
  · refine ⟨number, ?_⟩
    simp only [paged, Request.param, List.filter_append, hnumber]
    rfl

/-! ### Values that a path needs -/

theorem bindsText_of_requireString {rules : FilterRules} {c : Constraint} {column text : String}
    (h : rules.requireString c column = .ok text) : BindsText c column text := by
  unfold FilterRules.requireString at h
  cases hbound : rules.boundString? c column with
  | none =>
    rw [hbound] at h
    cases h
  | some bound =>
    rw [hbound] at h
    obtain rfl := Except.ok.inj h
    obtain ⟨v, hv, htext⟩ := Option.bind_eq_some_iff.mp hbound
    unfold FilterRules.boundValue? at hv
    split at hv
    · cases hv
    · cases v <;> cases htext
      exact hv

theorem bindsText_of_ofConstraint {rules : FilterRules} {c : Constraint} {scope : RepoScope}
    (h : RepoScope.ofConstraint rules c = .ok scope) :
    BindsText c "owner" scope.owner ∧ BindsText c "repo" scope.repo := by
  unfold RepoScope.ofConstraint at h
  cases howner : rules.requireString c "owner" with
  | error failure =>
    rw [howner] at h
    cases h
  | ok owner =>
    cases hrepo : rules.requireString c "repo" with
    | error failure =>
      rw [howner, hrepo] at h
      cases h
    | ok repo =>
      rw [howner, hrepo] at h
      obtain rfl := Except.ok.inj h
      exact ⟨bindsText_of_requireString howner, bindsText_of_requireString hrepo⟩

/-- What is needed first is known where there is a reading. -/
theorem exists_of_needing {σ : Type} {value : Except Failure σ} {read : σ → Except Failure Reading}
    {reading : Reading} (h : needing value read = .ok reading) :
    ∃ found, value = .ok found ∧ read found = .ok reading := by
  cases value with
  | error failure => cases h
  | ok found => exact ⟨found, rfl, h⟩

/-! ### Every table -/

section Repository

variable {table : String} {c : Constraint} {scope : RepoScope} {window : PageWindow}
  {run : Option Int64} {passed : Nat}
  (hscope : BindsText c "owner" scope.owner ∧ BindsText c "repo" scope.repo)
include hscope

/-- A listing below the repository is in scope if it is one of the table's. -/
theorem inScope_paged {call : Request} {tail : List String} {path : List (Option String)}
    (hpath : path ∈ listedPaths table) (htail : Follows path tail) (hopen : PageOpen call)
    (number : UInt32) (hsegments : call.segments = (scope.call tail).segments) :
    InScope table c (paged call number) :=
  .ofRepository hpath hscope.1 hscope.2 hsegments htail (hopen.asksPage number)

theorem inScope_jobsOfRun (number : Int64) {page : UInt32}
    (hpath : [some "actions", some "runs", none, some "jobs"] ∈ listedPaths table) :
    InScope table c (paged (scope.jobsOfRun number) page) := by
  have htail : Follows [some "actions", some "runs", none, some "jobs"]
      ["actions", "runs", pathNumber number, "jobs"] :=
    .word _ (.word _ (.number number (.word _ .nil)))
  exact inScope_paged hscope hpath htail ((pageOpen_ofPath _).param "all" (by decide)) page rfl

/-- The jobs of a run, or of all runs, are in scope of the tables that list both. -/
theorem inScope_jobs (given : Option Int64) (rows : Job → List Row)
    (hruns : [some "actions", some "runs"] ∈ listedPaths table)
    (hjobs : [some "actions", some "runs", none, some "jobs"] ∈ listedPaths table) :
    InScope table c ((Reading.jobs scope given rows).request window run passed) := by
  cases given with
  | some number => exact inScope_jobsOfRun hscope number hjobs
  | none =>
    cases run with
    | some number => exact inScope_jobsOfRun hscope number hjobs
    | none =>
      exact inScope_paged hscope hruns (.word _ (.word _ .nil)) (pageOpen_ofPath _) _ rfl

end Repository

/-- **What a table's shape of reading computes is in scope.** -/
theorem inScope_request {t : TableDefinition Request Reply} (ht : t ∈ tables) {c : Constraint}
    {sort : Option RemoteSort} {reading : Reading} (h : readingOf t.name c sort = .ok reading)
    (window : PageWindow) (run : Option Int64) (passed : Nat) :
    InScope t.name c (reading.request window run passed) := by
  simp only [tables, List.mem_cons, List.not_mem_nil, or_false] at ht
  rcases ht with rfl | rfl | rfl | rfl | rfl | rfl | rfl | rfl | rfl | rfl | rfl
  -- every table needs an owner first, and all but one a repository
  all_goals obtain ⟨scope, hscope, h⟩ := exists_of_needing h
  case inl =>
    obtain rfl := Except.ok.inj h
    exact .ofOwner rfl (bindsText_of_requireString hscope) (segments_sorted _ sort)
      (((pageOpen_ofPath _).sorted sort).asksPage _)
  all_goals replace hscope := bindsText_of_ofConstraint hscope
  · -- issues
    obtain rfl := Except.ok.inj h
    refine inScope_paged hscope List.mem_cons_self (.word _ .nil)
      ((((pageOpen_ofPath _).param _ (by decide)).paramIfAny _ (by decide)).sorted sort) _ ?_
    rw [segments_sorted, segments_paramIfAny]
    rfl
  · -- issue_comments
    obtain rfl := Except.ok.inj h
    refine inScope_paged hscope List.mem_cons_self (.word _ (.word _ .nil))
      (((pageOpen_ofPath _).paramIfAny _ (by decide)).sorted sort) _ ?_
    rw [segments_sorted, segments_paramIfAny]
    rfl
  · -- pulls
    obtain rfl := Except.ok.inj h
    refine inScope_paged hscope List.mem_cons_self (.word _ .nil)
      (((pageOpen_ofPath _).param _ (by decide)).sorted sort) _ ?_
    rw [segments_sorted]
    rfl
  iterate 2
    -- pull_commits and reviews
    · obtain ⟨number, -, h⟩ := exists_of_needing h
      obtain rfl := Except.ok.inj h
      exact inScope_paged hscope List.mem_cons_self (.word _ (.number number (.word _ .nil)))
        (pageOpen_ofPath _) _ rfl
  · -- workflows
    obtain rfl := Except.ok.inj h
    exact inScope_paged hscope List.mem_cons_self (.word _ (.word _ .nil)) (pageOpen_ofPath _)
      _ rfl
  · -- runs
    obtain rfl := Except.ok.inj h
    exact inScope_paged hscope List.mem_cons_self (.word _ (.word _ .nil))
      ((pageOpen_ofPath _).paramIfAny _ (by decide)) _ (segments_paramIfAny _ _ _)
  · -- jobs
    obtain rfl := Except.ok.inj h
    exact inScope_jobs hscope _ _ List.mem_cons_self (List.mem_cons_of_mem _ List.mem_cons_self)
  · -- steps, of a single job or of the jobs of runs
    obtain rfl := Except.ok.inj h
    split
    · exact .ofJob rfl hscope.1 hscope.2 rfl
    · exact inScope_jobs hscope _ _ List.mem_cons_self (List.mem_cons_of_mem _ List.mem_cons_self)
  · -- artifacts, of a run or of all runs
    obtain rfl := Except.ok.inj h
    dsimp only
    split
    next number _ =>
      exact inScope_paged hscope (List.mem_cons_of_mem _ List.mem_cons_self)
        (.word _ (.word _ (.number number (.word _ .nil)))) (pageOpen_ofPath _) _ rfl
    next =>
      exact inScope_paged hscope List.mem_cons_self (.word _ (.word _ .nil))
        (pageOpen_ofPath _) _ rfl

/-! ## Every split -/

/-- **The requests for a split never leave its owner and repository.** However a server chooses its
answers, each request that is made of it is computed from the table and the handle of the split, from
how many pages were passed and from the number of a run, and this run stood on a page of runs in an
answer to an earlier request. And the request is in scope: its path are the words of the table and
decimal numbers under the owner and the repository to which the constraint binds these columns, and
if it is for a listing, it asks for one page of a hundred items. -/
theorem requests_in_scope (settings : Settings) (split : Split) (server : Server Request Reply)
    {earlier : List Request} {question : Request}
    (hasked : earlier ++ [question] <+: ((connector settings).rows split).questions server) :
    ∃ t reading run passed,
      (connector settings).tableFor split.handle.table = .ok t ∧
      readingOf t.name split.handle.constraint (t.sortOf split.handle) = .ok reading ∧
      (∀ number, run = some number → RunSeen server earlier number) ∧
      question = reading.request split.handle.window run passed ∧
      InScope t.name split.handle.constraint question := by
  have hkeeps : ((connector settings).rows split).Keeps server
      (fun asked question => ∃ t reading run passed,
        (connector settings).tableFor split.handle.table = .ok t ∧
        readingOf t.name split.handle.constraint (t.sortOf split.handle) = .ok reading ∧
        (∀ number, run = some number → RunSeen server asked number) ∧
        question = reading.request split.handle.window run passed)
      (fun _ _ => True) [] := by
    refine keeps_ofExcept_bind fun t ht => ?_
    refine (keeps_read (mem_tables_of_tableFor ht) split.handle server).mono fun _ _ hrequest => ?_
    exact ⟨t, hrequest.imp fun _ => .imp fun _ => .imp fun _ h => ⟨ht, h⟩⟩
  obtain ⟨t, reading, run, passed, ht, hreading, hseen, rfl⟩ := hkeeps.questions hasked
  have hscope := inScope_request (mem_tables_of_tableFor ht) hreading split.handle.window run passed
  exact ⟨t, reading, run, passed, ht, hreading, hseen, rfl, hscope⟩

/-- The jobs of the one run that a server lists. -/
theorem requests_in_scope_jobs :
    ∃ (split : Split) (server : Server Request Reply) (earlier : List Request) (question : Request),
      earlier ++ [question] <+: ((connector .standard).rows split).questions server ∧
      question.segments = ["repos", "o", "r", "actions", "runs", "7", "jobs"] ∧
      ∃ t reading run passed,
        (connector .standard).tableFor split.handle.table = .ok t ∧
        readingOf t.name split.handle.constraint (t.sortOf split.handle) = .ok reading ∧
        (∀ number, run = some number → RunSeen server earlier number) ∧
        question = reading.request split.handle.window run passed ∧
        InScope t.name split.handle.constraint question := by
  let split : Split := ⟨⟨⟨"github", "jobs"⟩, ⟨[⟨⟨"owner", .varchar⟩, .single (.varchar "o")⟩,
    ⟨⟨"repo", .varchar⟩, .single (.varchar "r")⟩]⟩, 0, noLimit, 1, none⟩, []⟩
  let server : Server Request Reply := fun _ question =>
    if question.segments.length = 5 then
      .ok ⟨200, "", "[null,[[7,null,1,1,null,\"push\",null,null,null,\"c\",null,null,null,null]]]"⟩
    else .ok ⟨404, "", ""⟩
  let runs : Request := .ofPath ["repos", "o", "r", "actions", "runs"]
  have hasked : [paged runs 1] ++ [paged (RepoScope.jobsOfRun ⟨"o", "r"⟩ 7) 1] <+:
      ((connector .standard).rows split).questions server := ⟨[], by decide +kernel⟩
  exact ⟨split, server, _, _, hasked, by decide, requests_in_scope .standard split server hasked⟩

end Github
end RemoteTables
