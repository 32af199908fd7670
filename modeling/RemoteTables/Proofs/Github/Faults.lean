import RemoteTables.Proofs.Github.Requests
import RemoteTables.Proofs.Github.Required
import RemoteTables.Proofs.Listing.FailFast

/-!
# How reading a table fails

Before anything is asked, reading fails for the first column that is missing (`required_first`). After
that it can only fail for an answer: of all the requests that are made, the first whose answer is not
what was expected is the last one, and reading fails with what is the matter with it; nothing that was
gathered before it comes out (`fails_at_first_fault`).

What is expected depends on the table and, where jobs are read, on the path of the request: a page of
runs, a page of the jobs of one run, or a single job. A reply may always say that there is nothing.
-/

set_option autoImplicit false

namespace RemoteTables

/-! ## What is the matter with a reply -/

namespace Reply

variable {α : Type} {decode : Decoder α} {r : Reply}

/-- Whether a reply says that there is nothing, or has what is expected. -/
def Serves (decode : Decoder α) (r : Reply) : Prop :=
  r.status = 404 ∨ (200 ≤ r.status ∧ r.status < 300) ∧ ∃ value, decode.text r.body = .ok value

/-- How a reply fails where something is expected. -/
inductive FailsWith (decode : Decoder α) (r : Reply) : Failure → Prop where
  /-- With its status, and with its body unless that is empty. -/
  | status (hother : ¬(200 ≤ r.status ∧ r.status < 300)) (hthere : r.status ≠ 404) :
    FailsWith decode r (.backend r.status r.url (if r.body = "" then none else some r.body))
  /-- With the reason why its body is not what is expected. -/
  | body {fault : DecodeFault} (hgood : 200 ≤ r.status ∧ r.status < 300)
    (hfault : decode.text r.body = .error fault) : FailsWith decode r (.decode fault)

/-- What is the matter with a reply. -/
def fault? (decode : Decoder α) (r : Reply) : Option Failure :=
  match r.read decode with
  | .ok _ => none
  | .error failure => some failure

theorem fault?_eq_none_iff : r.fault? decode = none ↔ r.Serves decode := by
  unfold fault? read Serves
  by_cases hgood : 200 ≤ r.status ∧ r.status < 300
  · have hthere : r.status ≠ 404 := by omega
    rw [if_pos hgood]
    cases decode.text r.body with
    | ok value => simp [hgood]
    | error fault => simp [hthere]
  · rw [if_neg hgood]
    by_cases hthere : r.status = 404
    · rw [if_pos hthere]
      simp [hthere]
    · rw [if_neg hthere]
      simp [hthere, hgood]

theorem fault?_eq_some_iff {failure : Failure} :
    r.fault? decode = some failure ↔ r.FailsWith decode failure := by
  unfold fault? read
  by_cases hgood : 200 ≤ r.status ∧ r.status < 300
  · rw [if_pos hgood]
    cases hbody : decode.text r.body with
    | ok value =>
      constructor
      · intro hnone
        cases hnone
      · intro hfails
        cases hfails with
        | status hother => exact absurd hgood hother
        | body _ hfault => cases hbody.symm.trans hfault
    | error fault =>
      constructor
      · intro hfault
        obtain rfl := Option.some.inj hfault
        exact .body hgood hbody
      · intro hfails
        cases hfails with
        | status hother => exact absurd hgood hother
        | body _ hfault =>
          obtain rfl := Except.error.inj (hbody.symm.trans hfault)
          rfl
  · rw [if_neg hgood]
    by_cases hthere : r.status = 404
    · rw [if_pos hthere]
      constructor
      · intro hnone
        cases hnone
      · intro hfails
        cases hfails with
        | status _ hother => exact absurd hthere hother
        | body hgood' => exact absurd hgood' hgood
    · rw [if_neg hthere]
      simp only [String.isEmpty_iff]
      constructor
      · intro hfault
        obtain rfl := Option.some.inj hfault
        exact .status hgood hthere
      · intro hfails
        cases hfails with
        | status => rfl
        | body hgood' => exact absurd hgood' hgood

end Reply

namespace Github

open Dialogue

/-! ## What is expected -/

/-- What a request for a table is expected to be answered with. -/
def expected (table : String) (question : Request) : Σ α : Type, Decoder α :=
  match table with
  | "repos" => ⟨_, Page.bareDecoder Repository.decoder⟩
  | "issues" => ⟨_, Page.bareDecoder Issue.decoder⟩
  | "issue_comments" => ⟨_, Page.bareDecoder IssueComment.decoder⟩
  | "pulls" => ⟨_, Page.bareDecoder PullRequest.decoder⟩
  | "pull_commits" => ⟨_, Page.bareDecoder PullCommit.decoder⟩
  | "reviews" => ⟨_, Page.bareDecoder Review.decoder⟩
  | "workflows" => ⟨_, Page.countedDecoder Workflow.decoder⟩
  | "runs" => ⟨_, Page.countedDecoder WorkflowRun.decoder⟩
  | "jobs" | "steps" =>
    match question.segments with
    | [_, _, _, "actions", "runs"] => ⟨_, Page.countedDecoder WorkflowRun.decoder⟩
    | [_, _, _, "actions", "jobs", _] => ⟨_, Job.decoder⟩
    | _ => ⟨_, Page.countedDecoder Job.decoder⟩
  | _ => ⟨_, Page.countedDecoder Artifact.decoder⟩

/-- What is the matter with the reply to a request for a table. -/
def replyFault? (table : String) (question : Request) (reply : Reply) : Option Failure :=
  reply.fault? (expected table question).2

/-- Whether all requests in a shape of reading expect what the table does. -/
def Reading.Expects (table : String) : Reading → Prop
  | @listing α decode call _ => ∀ number, expected table (paged call number) = ⟨Page α, decode⟩
  | runs scope _ =>
    (∀ number, expected table (paged (scope.call ["actions", "runs"]) number) =
      ⟨_, Page.countedDecoder WorkflowRun.decoder⟩) ∧
    ∀ run number, expected table (paged (scope.jobsOfRun run) number) =
      ⟨_, Page.countedDecoder Job.decoder⟩
  | job scope number =>
    expected table (scope.call ["actions", "jobs", pathNumber number]) = ⟨_, Job.decoder⟩

/-! ## Shapes of reading -/

section Shapes

variable {table : String} {request : FetchRequest}

/-- A request whose reply is read as what is expected. -/
theorem failsFast_reply {α : Type} {question : Request} {decode : Decoder α}
    (h : expected table question = ⟨α, decode⟩) :
    (Dialogue.question question >>= fun reply : Reply =>
      Dialogue.ofExcept (reply.read decode)).FailsFast (replyFault? table) := by
  apply failsFast_question
  intro reply
  rw [replyFault?, h]
  show reply.fault? decode = _
  unfold Reply.fault?
  cases reply.read decode <;> rfl

theorem failsFast_page {α : Type} {decode : Decoder (Page α)} {call : Request}
    (h : ∀ number, expected table (paged call number) = ⟨Page α, decode⟩) (number : UInt32) :
    (page decode call number).FailsFast (replyFault? table) :=
  failsFast_reply (h number)

theorem failsFast_gatherRuns {scope : RepoScope} {rows : Job → List Row}
    (h : ∀ run number, expected table (paged (scope.jobsOfRun run) number) =
      ⟨_, Page.countedDecoder Job.decoder⟩) (got : List Row) (runs : List WorkflowRun) :
    (gatherRuns request scope rows got runs).FailsFast (replyFault? table) := by
  induction runs generalizing got with
  | nil => trivial
  | cons run rest ih =>
    rw [gatherRuns]
    have hjobs : (jobRows request scope rows run.id .whole
        (request.limit - UInt64.ofNat got.length)).FailsFast (replyFault? table) :=
      PageWindow.failsFast_collect (failsFast_page (h run.id))
    apply hjobs.bind
    intro more
    split
    · trivial
    · exact ih (got ++ more)

/-- **Every shape of reading fails at the first reply that is not what is expected.** -/
theorem failsFast_exchange {reading : Reading} (h : reading.Expects table) :
    (reading.exchange request).FailsFast (replyFault? table) := by
  cases reading with
  | listing decode call rows => exact PageWindow.failsFast_collect (failsFast_page h)
  | runs scope rows =>
    obtain ⟨hruns, hjobs⟩ := h
    exact PageWindow.failsFast_walk (failsFast_page hruns) (failsFast_gatherRuns hjobs)
  | job scope number =>
    rw [Reading.exchange, fetchStepsOfJob]
    split
    · trivial
    · apply (failsFast_reply h).bind
      intro found
      cases found <;> trivial

theorem Reading.expects_jobs (htable : table = "jobs" ∨ table = "steps") (scope : RepoScope)
    (run : Option Int64) (rows : Job → List Row) : (Reading.jobs scope run rows).Expects table := by
  rcases htable with rfl | rfl <;> cases run <;>
    first | exact ⟨fun _ => rfl, fun _ _ => rfl⟩ | exact fun _ => rfl

/-- A table is read in a shape whose requests expect what the table does. -/
theorem expects_of_readingOf {t : TableDefinition Request Reply} (ht : t ∈ tables) {c : Constraint}
    {sort : Option RemoteSort} {reading : Reading} (h : readingOf t.name c sort = .ok reading) :
    reading.Expects t.name := by
  simp only [tables, List.mem_cons, List.not_mem_nil, or_false] at ht
  rcases ht with rfl | rfl | rfl | rfl | rfl | rfl | rfl | rfl | rfl | rfl | rfl
  all_goals obtain ⟨scope, -, h⟩ := exists_of_needing h
  iterate 4
    obtain rfl := Except.ok.inj h
    exact fun _ => rfl
  iterate 2
    obtain ⟨number, -, h⟩ := exists_of_needing h
    obtain rfl := Except.ok.inj h
    exact fun _ => rfl
  iterate 2
    obtain rfl := Except.ok.inj h
    exact fun _ => rfl
  · obtain rfl := Except.ok.inj h
    exact Reading.expects_jobs (Or.inl rfl) scope _ _
  · obtain rfl := Except.ok.inj h
    split
    · exact rfl
    · exact Reading.expects_jobs (Or.inr rfl) scope _ _
  · obtain rfl := Except.ok.inj h
    exact fun _ => rfl

end Shapes

/-! ## Every table -/

/-- Whether a request for a table was answered with nothing or with what is expected. -/
def AnsweredWell (table : String) (server : Server Request Reply) (earlier : List Request)
    (question : Request) : Prop :=
  ∃ reply, server earlier question = .ok reply ∧ reply.Serves (expected table question).2

/-- How a request for a table failed: there was no reply, or one that is not what is expected. -/
def FailedWith (table : String) (server : Server Request Reply) (earlier : List Request)
    (question : Request) (failure : Failure) : Prop :=
  server earlier question = .error failure ∨
    ∃ reply, server earlier question = .ok reply ∧
      reply.FailsWith (expected table question).2 failure

section Answers

variable {table : String} {server : Server Request Reply} {earlier : List Request}
  {question : Request}

theorem faultOf?_eq_none_iff :
    faultOf? server (replyFault? table) earlier question = none ↔
      AnsweredWell table server earlier question := by
  unfold faultOf? AnsweredWell
  cases server earlier question with
  | error failure => simp
  | ok reply =>
    show (reply.fault? (expected table question).2 = none) ↔ _
    rw [Reply.fault?_eq_none_iff]
    simp

theorem faultOf?_eq_some_iff {failure : Failure} :
    faultOf? server (replyFault? table) earlier question = some failure ↔
      FailedWith table server earlier question failure := by
  unfold faultOf? FailedWith
  cases server earlier question with
  | error failure => simp
  | ok reply =>
    show (reply.fault? (expected table question).2 = some failure) ↔ _
    rw [Reply.fault?_eq_some_iff]
    simp

/-- What was answered well has not failed. -/
theorem not_failedWith {failure : Failure} (h : AnsweredWell table server earlier question) :
    ¬FailedWith table server earlier question failure := by
  rw [← faultOf?_eq_none_iff] at h
  rw [← faultOf?_eq_some_iff, h]
  exact fun hnone => by cases hnone

theorem allWell_nil_iff {all : List Request} :
    AllWell server (replyFault? table) [] all ↔
      ∀ earlier question, earlier ++ [question] <+: all →
        AnsweredWell table server earlier question := by
  unfold AllWell
  simp only [faultOf?_eq_none_iff, List.length_nil, Nat.zero_le, true_implies]

end Answers

section Read

variable {t : TableDefinition Request Reply} (ht : t ∈ tables) {h : TableHandle}
  (hlimit : h.limit ≠ 0) (hnone : h.constraint.isNone = false)
include ht hlimit hnone

/-- A column that is missing is missed without any request. -/
theorem read_eq_failed {column : String} (hmissing : missing? t.name h.constraint = some column) :
    t.read h = .failed (.missingConstraint column) := by
  have hreading := (needs_readingOf ht h.constraint (t.sortOf h)).eq_error hmissing
  obtain ⟨request, hread⟩ := exists_read_eq ht hlimit hnone
  rw [hread, hreading]
  rfl

/-- **A table that misses no column fails at the first fault.** -/
theorem failsFast_read (hmissing : missing? t.name h.constraint = none) :
    (t.read h).FailsFast (replyFault? t.name) := by
  obtain ⟨reading, hreading⟩ :=
    (needs_readingOf ht h.constraint (t.sortOf h)).exists_eq_ok hmissing
  obtain ⟨request, hread⟩ := exists_read_eq ht hlimit hnone
  rw [hread, hreading]
  exact failsFast_exchange (expects_of_readingOf ht hreading)

end Read

/-- **What a table needs is looked at before anything is asked.** If there is plainly nothing to be
read, then nothing is read and nothing asked. Else reading fails for the first column that is not
bound to one value of its kind, and nothing is asked then either. If all are bound, reading does not
fail for a column at all, be it missing or unknown, unless the server itself says so. -/
theorem required_first (settings : Settings) {t : TableDefinition Request Reply} (ht : t ∈ tables)
    {split : Split} (htable : split.handle.table = ⟨schemaName, t.name⟩)
    (server : Server Request Reply) :
    (split.handle.limit = 0 ∨ split.handle.constraint.isNone = true →
      ((connector settings).rows split).run server [] = (.done [], [])) ∧
    (split.handle.limit ≠ 0 → split.handle.constraint.isNone = false →
      (∀ column, ((required t.name).find? fun column => !isBound split.handle.constraint column) =
          some column →
        ((connector settings).rows split).run server [] =
          (.failed (.missingConstraint column), [])) ∧
      ((∀ column ∈ required t.name, isBound split.handle.constraint column = true) →
        ∀ failure, ((connector settings).rows split).outcome server = .failed failure →
          (∀ column, failure ≠ .missingConstraint column ∧ failure ≠ .unknownColumn column) ∨
            ∃ earlier question,
              ((connector settings).rows split).questions server = earlier ++ [question] ∧
              server earlier question = .error failure)) := by
  rw [rows_eq_read ht settings htable]
  refine ⟨?_, fun hlimit hnone => ⟨?_, ?_⟩⟩
  · intro hnothing
    rw [read_eq_done hnothing]
    rfl
  · intro column hmissing
    rw [read_eq_failed ht hlimit hnone hmissing]
    rfl
  · intro hbound failure hfailure
    have hmissing : missing? t.name split.handle.constraint = none :=
      List.find?_eq_none.mpr fun column hcolumn => by simp [hbound column hcolumn]
    have hends := (failsFast_read ht hlimit hnone hmissing).run server []
    rw [outcome] at hfailure
    rw [questions]
    generalize (t.read split.handle).run server [] = ending at hends hfailure ⊢
    obtain ⟨result, all⟩ := ending
    obtain rfl : result = .failed failure := hfailure
    obtain ⟨earlier, question, hall, -, -, hfault⟩ := hends
    rcases faultOf?_eq_some_iff.mp hfault with hserver | ⟨reply, -, hfails⟩
    · exact Or.inr ⟨earlier, question, hall, hserver⟩
    · left
      intro column
      cases hfails <;> constructor <;> intro hsame <;> cases hsame

/-- The reviews of one of some pull requests. -/
def reviewsOf (numbers : List Int64) : Split :=
  .ofHandle ⟨⟨"github", "reviews"⟩, ⟨[⟨⟨"owner", .varchar⟩, .single (.varchar "o")⟩,
    ⟨⟨"pull_number", .bigInt⟩, .values (numbers.map Literal.bigInt)⟩,
    ⟨⟨"repo", .varchar⟩, .single (.varchar "r")⟩]⟩, 0, noLimit, 1, none⟩

/-- Of two pull requests no reviews are asked for, as neither is the one that is needed. Of one they
are asked for, and what fails then is the request. -/
theorem required_first_reviews :
    ((connector .standard).rows (reviewsOf [3, 4])).run (fun _ _ => .ok ⟨500, "u", ""⟩) [] =
      (.failed (.missingConstraint "pull_number"), []) ∧
    ((connector .standard).rows (reviewsOf [3])).outcome (fun _ _ => .ok ⟨500, "u", ""⟩) =
      .failed (.backend 500 "u" none) ∧
    ∀ column, Failure.backend 500 "u" none ≠ .missingConstraint column := by
  have ht : ⟨"reviews", Review.columns, some pullScopedRules, [], fetchReviews⟩ ∈ tables := by
    simp [tables]
  have hfails : ((connector .standard).rows (reviewsOf [3])).outcome
    (fun _ _ => .ok ⟨500, "u", ""⟩) = .failed (.backend 500 "u" none) := by decide +kernel
  have htable : ∀ numbers, (reviewsOf numbers).handle.table = ⟨schemaName, "reviews"⟩ := fun _ => rfl
  obtain ⟨-, htwo⟩ := required_first .standard ht (htable [3, 4]) fun _ _ => .ok ⟨500, "u", ""⟩
  obtain ⟨hmissing, -⟩ := htwo (by decide) (by decide)
  obtain ⟨-, hone⟩ := required_first .standard ht (htable [3]) fun _ _ => .ok ⟨500, "u", ""⟩
  obtain ⟨-, hbound⟩ := hone (by decide) (by decide)
  refine ⟨hmissing "pull_number" (by decide), hfails, ?_⟩
  intro column
  rcases hbound (by decide) _ hfails with hneither | ⟨_, _, -, hserver⟩
  · exact (hneither column).1
  · cases hserver

/-- **Reading fails at the first fault, and never comes to a part of the rows.** Take a table with
something to read, no column missing, and any server with which reading comes to an end. It comes to
rows exactly if every request was answered with nothing or with what is expected. Else the last
request, and none before it, was answered in another way or not at all, and reading fails with just
that: with the status, the address and the body of the reply, or with what is wrong with its body. -/
theorem fails_at_first_fault (settings : Settings) {t : TableDefinition Request Reply}
    (ht : t ∈ tables) {split : Split} (htable : split.handle.table = ⟨schemaName, t.name⟩)
    (hlimit : split.handle.limit ≠ 0) (hnone : split.handle.constraint.isNone = false)
    (hbound : ∀ column ∈ required t.name, isBound split.handle.constraint column = true)
    {server : Server Request Reply}
    (hends : ∀ why, ((connector settings).rows split).outcome server ≠ .broken why) :
    ((∃ rows, ((connector settings).rows split).outcome server = .done rows) ↔
      ∀ earlier question,
        earlier ++ [question] <+: ((connector settings).rows split).questions server →
          AnsweredWell t.name server earlier question) ∧
    ((¬∃ rows, ((connector settings).rows split).outcome server = .done rows) →
      ∃ earlier question failure,
        ((connector settings).rows split).questions server = earlier ++ [question] ∧
        (∀ before other, before ++ [other] <+: earlier → AnsweredWell t.name server before other) ∧
        FailedWith t.name server earlier question failure ∧
        ((connector settings).rows split).outcome server = .failed failure) := by
  have hmissing : missing? t.name split.handle.constraint = none :=
    List.find?_eq_none.mpr fun column hcolumn => by simp [hbound column hcolumn]
  have hrun := (failsFast_read ht hlimit hnone hmissing).run server []
  rw [rows_eq_read ht settings htable, outcome, questions] at *
  generalize (t.read split.handle).run server [] = ending at *
  obtain ⟨result, all⟩ := ending
  cases result with
  | broken why => exact absurd rfl (hends why)
  | done rows =>
    refine ⟨iff_of_true ⟨rows, rfl⟩ (allWell_nil_iff.mp hrun), ?_⟩
    intro hno
    exact absurd ⟨rows, rfl⟩ hno
  | failed failure =>
    obtain ⟨earlier, question, hall, -, hwell, hfault⟩ := hrun
    rw [faultOf?_eq_some_iff] at hfault
    constructor
    · constructor
      · rintro ⟨rows, hrows⟩
        cases hrows
      · intro hwell
        refine absurd hfault (not_failedWith (hwell earlier question ?_))
        exact hall ▸ List.prefix_refl _
    · intro _
      exact ⟨earlier, question, failure, hall, allWell_nil_iff.mp hwell, hfault, rfl⟩

/-- The jobs of a repository. -/
def jobsSplit : Split :=
  .ofHandle ⟨⟨"github", "jobs"⟩, ⟨[⟨⟨"owner", .varchar⟩, .single (.varchar "o")⟩,
    ⟨⟨"repo", .varchar⟩, .single (.varchar "r")⟩]⟩, 0, noLimit, 1, none⟩

/-- A server with two runs that knows nothing of the first and breaks down over the second. -/
def twoRunsServer : Server Request Reply := fun _ question =>
  match question.segments with
  | [_, _, _, "actions", "runs"] =>
    .ok ⟨200, "", "[null,[[7,null,1,1,null,\"push\",null,null,null,\"c\",null,null,null,null],
      [8,null,1,1,null,\"push\",null,null,null,\"c\",null,null,null,null]]]"⟩
  | [_, _, _, "actions", "runs", "7", "jobs"] => .ok ⟨404, "", ""⟩
  | _ => .ok ⟨500, "u", "no"⟩

/-- The jobs of the first run are none, and reading goes on; those of the second cannot be read, and
that is the end of it. -/
theorem fails_at_first_fault_jobs :
    ∃ earlier question,
      ((connector .standard).rows jobsSplit).questions twoRunsServer = earlier ++ [question] ∧
      question.segments = ["repos", "o", "r", "actions", "runs", "8", "jobs"] ∧
      (∀ before other, before ++ [other] <+: earlier →
        AnsweredWell "jobs" twoRunsServer before other) ∧
      ((connector .standard).rows jobsSplit).outcome twoRunsServer =
        .failed (.backend 500 "u" (some "no")) := by
  have ht : ⟨"jobs", Job.columns, some runScopedRules, [], fetchJobs⟩ ∈ tables := by simp [tables]
  have hfails : ((connector .standard).rows jobsSplit).outcome twoRunsServer =
    .failed (.backend 500 "u" (some "no")) := by decide +kernel
  have hends : ∀ why,
      ((connector .standard).rows jobsSplit).outcome twoRunsServer ≠ .broken why := by
    intro why
    rw [hfails]
    intro hsame
    cases hsame
  have hno : ¬∃ rows, ((connector .standard).rows jobsSplit).outcome twoRunsServer = .done rows := by
    rw [hfails]
    rintro ⟨rows, hsame⟩
    cases hsame
  obtain ⟨-, hfault⟩ := fails_at_first_fault .standard ht rfl (by decide) (by decide) (by decide) hends
  obtain ⟨earlier, question, failure, hall, hwell, -, -⟩ := hfault hno
  have hlast : (((connector .standard).rows jobsSplit).questions twoRunsServer).getLast?.map
    Request.segments = some ["repos", "o", "r", "actions", "runs", "8", "jobs"] := by decide +kernel
  rw [hall, List.getLast?_append, List.getLast?_singleton] at hlast
  exact ⟨earlier, question, hall, Option.some.inj hlast, hwell, hfails⟩

end Github
end RemoteTables
