import AnnotationReport.Proofs.Api.JobAnswers
import AnnotationReport.Proofs.Api.RequestHeaders
import AnnotationReport.Proofs.Run.ExitStatus

/-! # Ids from answers to output

The digits of a job's id as the API writes them are those in the report, in the URL that its annotations are
asked for under, and in the error that ends a report at that job. An id of any other form ends the report
before it starts.
-/
namespace AnnotationReport

namespace Job

open Json (Document Key TokenText valuesOf)

/-- The documents of the jobs in an answer. -/
inductive Collects : Document → List Document → Prop
  | members {ms : List (Key × Document)} {items : List Document} :
      valuesOf "jobs" ms = [.array items] → Collects (.object ms) items
  | places {items : List Document} : Collects (.array [.array items]) items

/-- The document of a job's id. -/
inductive Identifies : Document → Document → Prop
  | members {ms : List (Key × Document)} {i : Document} :
      valuesOf "id" ms = [i] → Identifies (.object ms) i
  | places {i : Document} {r : List Document} : Identifies (.array (i :: r)) i

/-- The text of a job's id, if that is a number. -/
def IdText (d : Document) (text : String) : Prop :=
  ∃ n, Identifies d (.number n) ∧ TokenText (.number n) text.toList

variable {d : Document} {items : List Document} {jobs : List Job} {listing : Option (List Job)}

theorem Collects.exists_writes (hitems : Collects d items) (h : Answers d listing) :
    ∃ jobs, listing = some jobs ∧ List.Forall₂ Writes items jobs := by
  have hlist : WritesList (some (.array items)) listing := by
    cases hitems with
    | members hvalues =>
      cases h with
      | @members _ value _ _ hvalue hlist =>
        have hsome : value.toList = [.array items] := hvalue.symm.trans hvalues
        cases value with
        | none => cases hsome
        | some v => exact List.singleton_inj.mp hsome ▸ hlist
    | places =>
      generalize heq : Document.array _ = e at h
      cases h with
      | members => cases heq
      | @places value _ hlist =>
        cases value with
        | none => cases heq
        | some v =>
          cases heq
          exact hlist
  cases hlist with
  | array hjobs => exact ⟨_, rfl, hjobs⟩

theorem Writes.writesId {job : Job} (h : Writes d job) {i : Document} (hi : Identifies d i) :
    WritesId i job.id := by
  cases hi with
  | members hvalues =>
    cases h with
    | members _ hid _ hwrites _ =>
      obtain rfl := List.singleton_inj.mp (hid.symm.trans hvalues)
      exact hwrites
  | places =>
    generalize heq : Document.array _ = e at h
    cases h with
    | members => cases heq
    | places hid _ =>
      cases heq
      exact hid

theorem Writes.idText_eq {job : Job} (h : Writes d job) {text : String} (ht : IdText d text) :
    text = toString job.id := by
  obtain ⟨n, hi, htext⟩ := ht
  have hid := h.writesId hi
  generalize job.id = id at hid
  cases hid with
  | mk _ => rw [← String.toList_inj, Json.decimal_of_tokenText htext, Report.toList_toString]

theorem texts_eq (h : List.Forall₂ Writes items jobs) {texts : List String}
    (ht : List.Forall₂ IdText items texts) : texts = jobs.map fun job => toString job.id := by
  induction h generalizing texts with
  | nil =>
    cases ht
    rfl
  | cons hw _ ih =>
    cases ht with
    | cons htext hr => rw [List.map_cons, ← ih hr, hw.idText_eq htext]

/-- An id that is no natural number of 64 bits spoils an answer. -/
theorem Collects.not_answers (hitems : Collects d items) {item i : Document} (hitem : item ∈ items)
    (hi : Identifies item i) (hbad : ∀ id, ¬WritesId i id) : ¬Answers d listing := by
  intro h
  obtain ⟨jobs, -, hjobs⟩ := hitems.exists_writes h
  clear hitems
  induction hjobs with
  | nil => cases hitem
  | cons hw _ ih =>
    rcases List.mem_cons.mp hitem with rfl | hitem
    · exact hbad _ (hw.writesId hi)
    · exact ih hitem

end Job

namespace Report

variable {c : RunConfig} {answers : Answers}

/-- The calls for jobs come in the order of the jobs, as far as they come. -/
theorem exists_calls_jobsScript (summary : Summary) (jobs waiting : List Job) :
    ∃ k, calls (jobsScript answers summary jobs waiting).steps =
      (waiting.take k).map (.askAnnotations ·.id) := by
  induction jobs generalizing summary waiting with
  | nil => exact ⟨0, rfl⟩
  | cons job r ih =>
    cases h : answers.annotations job.id with
    | error cause => exact ⟨0, by simp [jobsScript, h, calls]⟩
    | ok found =>
      obtain ⟨k, hk⟩ := ih (summary.add (found.getD [])) (waiting.drop 1)
      refine ⟨1 + k, ?_⟩
      simp only [jobsScript, h, calls_append, calls_jobSteps, calls_askAnnotations, hk, List.nil_append,
        List.take_add, List.map_append]

theorem exists_calls_script {jobs : List Job} (h : answers.jobs = .ok (some jobs)) :
    ∃ k, calls (script c answers).steps = .askJobs :: (jobs.take k).map (.askAnnotations ·.id) := by
  obtain ⟨opening, hcalls, -, hscript⟩ := script_opening c h
  obtain ⟨k, hk⟩ := @exists_calls_jobsScript answers ⟨jobs.length, 0, 0⟩ jobs
    (jobs.drop c.concurrency.limit)
  have hline : ∀ r, calls (.writeLine (idsLine jobs) :: r) = calls r := fun _ => rfl
  refine ⟨c.concurrency.limit + k, ?_⟩
  rw [hscript]
  simp only [Option.getD_some, listedScript, List.cons_append, calls_append, hcalls, hline,
    calls_askAnnotations, hk, List.take_add, List.map_append, List.nil_append]

end Report

namespace Url

/-- A text of digits is one segment as it stands. -/
theorem encodeSegment_digits (kind : SchemeKind) {text : List Char} (h : ∀ c ∈ text, c.isDigit = true) :
    (encodeSegment kind text).whole = text ∧ ¬isDots (encodeSegment kind text).whole := by
  have hall : ∀ n : Fin 128, (Char.ofNat n).isDigit → isBreak (Char.ofNat n) = false ∧
      EncodeSet.segment (Char.ofNat n) = false ∧ EncodeSet.specialSegment (Char.ofNat n) = false := by
    decide
  have hchars : ∀ c ∈ text, isBreak c = false ∧ segmentSet kind c = false := by
    intro c hc
    have hlt := Text.Utf8.ascii_of_isAlphanum (Bool.or_eq_true_iff.mpr (.inr (h c hc)))
    obtain ⟨hbreak, hsegment, hspecial⟩ := Text.Utf8.forall_ascii (p := fun c => c.isDigit →
      isBreak c = false ∧ EncodeSet.segment c = false ∧ EncodeSet.specialSegment c = false) hall hlt (h c hc)
    refine ⟨hbreak, ?_⟩
    unfold segmentSet
    split <;> assumption
  have hkept : significant text = text := significant_eq fun c hc => (hchars c hc).1
  refine ⟨?_, fun hdots => ?_⟩
  · rw [whole_encodeSegment, hkept, encode_eq_self fun c hc => (hchars c hc).2]
  · rcases significant_of_isDots hdots with hd | hd <;> rw [hkept] at hd <;>
      exact absurd (h '.' (by simp [hd])) (by decide)

/-- The last segments of a URL for annotations, whatever comes before them. -/
theorem path_text_of_extend? {base url : Url} {owner repository : String} {id : Nat}
    (h : base.extend? ((Routes.annotations owner repository id).map String.toList) = some url) :
    ∃ front, url.path.text = front ++ ("/check-runs/" ++ toString id ++ "/annotations").toList := by
  unfold extend? at h
  split at h
  · cases h
  · rename_i list _
    obtain rfl := Option.some.inj h
    have hsplit : (Routes.annotations owner repository id).map String.toList =
        ["repos", owner, repository].map String.toList ++
          ["check-runs".toList, Text.decimal id, "annotations".toList] := by
      simp [Routes.annotations]
    rw [hsplit, List.map_append, List.foldl_append]
    -- Two dots among the first values may take segments back, but nothing does so after them.
    generalize ((["repos", owner, repository].map String.toList).map (encodeSegment base.kind)).foldl
      (Path.extend (base.kind = .file)) (Path.trim list) = done
    have hruns : encodeSegment base.kind "check-runs".toList = ⟨"check-runs".toList, []⟩ := by
      cases base.kind <;> decide
    have hlast : encodeSegment base.kind "annotations".toList = ⟨"annotations".toList, []⟩ := by
      cases base.kind <;> decide
    have hdigits : ∀ c ∈ Text.decimal id, c.isDigit = true := Json.Numeral.allDigits_decimal id
    obtain ⟨hid, hdots⟩ := encodeSegment_digits base.kind hdigits
    have hfirst : Path.extend (base.kind = .file) done (encodeSegment base.kind "check-runs".toList) =
        rooted done ++ ["check-runs".toList] := by
      rw [hruns]
      refine extend_first rfl (by decide) ?_
      unfold isDots
      decide
    have hne : rooted done ++ ["check-runs".toList] ≠ [] := by simp
    have hroot : rooted done ++ ["check-runs".toList] ≠ [[]] := by
      intro h
      have hend := congrArg List.getLast? h
      rw [List.getLast?_concat] at hend
      exact absurd hend (by decide)
    have hplain : ∀ b ∈ [Text.decimal id, "annotations".toList].map (encodeSegment base.kind),
        ¬isDots b.whole := by
      refine List.forall_mem_cons.mpr ⟨hdots, List.forall_mem_singleton.mpr ?_⟩
      rw [hlast]
      unfold isDots
      decide
    refine ⟨Path.joined (rooted done), ?_⟩
    rw [List.map_cons, List.foldl_cons, hfirst, foldl_extend _ hne hroot hplain]
    simp only [List.map_cons, List.map_nil, hid, hlast, Path.text, Path.joined_append,
      String.toList_append, Report.toList_toString, List.append_assoc]
    simp [Path.joined, Path.Broken.whole]

end Url

namespace Run

open Json (Document Layout)

/-- A run that lists its jobs by the body of an answer. -/
structure ListsFrom [Url.Idna] (transport : Http.Transport) (settings : Settings) (r : Remote)
    (body : List UInt8) : Prop where
  transport_eq : r.transport = transport
  config : RunConfig.ofSettings settings = .ok r.config
  client : Client.ofConfig transport r.config = .ok r.client
  answered : ∃ url response, r.client.urlOf (Routes.runJobs r.config.repository.owner r.config.repository.name
      r.config.runId) = .ok url ∧ transport.send (r.client.request url) = .answered response ∧
    response.isSuccess ∧ response.body = some body

def linesNamed (text : String) : List Annotation → List String
  | [] => ["info: no annotations found for job " ++ text]
  | annotations => (annotations.filter (·.isReportable)).map fun a => String.ofList a.text

variable {transport : Http.Transport} {settings : Settings} {r : Remote} {body : List UInt8} {jobs : List Job}

theorem linesNamed_toString (job : Job) (annotations : List Annotation) :
    linesNamed (toString job.id) annotations = Report.expectedLines job annotations := by
  cases annotations <;> rfl

theorem ListsFrom.ofSettings_eq [Url.Idna] (h : ListsFrom transport settings r body) (s : Sink) :
    ofSettings transport settings s = ofRemote r s := by
  obtain ⟨rfl, hconfig, hclient, -⟩ := h
  simp only [ofSettings, hconfig, ofConfig, hclient]

theorem ListsFrom.jobsCall_result [Url.Idna] (h : ListsFrom transport settings r body) :
    (∀ listing, Job.readAnswer? body = some listing → r.jobsCall.result = .ok listing) ∧
      (Job.readAnswer? body = none → ∃ e, r.jobsCall.result = .error e) := by
  obtain ⟨rfl, -, -, url, response, hurl, hanswered, hsuccess, hbody⟩ := h
  have hresult : r.jobsCall.result = Client.valueOf r.transport.decoder Job.readAnswer? url response := by
    rw [Remote.jobsCall, Client.jobsOfRun, Client.get_of_url r.transport Job.readAnswer? hurl, hanswered]
    rfl
  rw [hresult, Client.valueOf, if_pos hsuccess, hbody, Option.bind_some]
  constructor
  · intro listing hlisting
    rw [hlisting]
  · intro hnone
    rw [hnone]
    exact ⟨_, rfl⟩

theorem path_of_sent {id : Nat} {request : Http.Request} (h : request ∈ (r.annotationsCall id).sent) :
    ∃ front, request.url.path.text = front ++ ("/check-runs/" ++ toString id ++ "/annotations").toList := by
  obtain ⟨url, -, hurl, -, rfl⟩ := Client.mem_sent_get r.transport Annotation.readAnswer? h
  exact Url.path_text_of_extend? (Client.urlOf_eq_ok hurl).2

theorem listed_outcome (h : r.jobsCall.result = .ok (some jobs)) (before : List UInt8) :
    let o := ofRemote r ⟨none, true, before⟩
    o.sink.bytes = before ++ Report.linesBytes
        (("run ids: [" ++ ", ".intercalate (jobs.map fun job => toString job.id) ++ "]") ::
          (jobs.takeWhile r.answers.answered).flatMap fun job =>
            Report.expectedLines job (r.answers.found job)) ∧
      (∃ k, o.requests = r.jobsCall.sent.toList ++
        (jobs.take k).flatMap fun job => (r.annotationsCall job.id).sent.toList) ∧
      match jobs.dropWhile r.answers.answered with
      | [] => o.code = 0
      | failed :: _ => o.code = 1 ∧ ∃ cause, o.remarks.getLast? = some (.entry ⟨.error, target,
          "Report failed: Failed to get annotations for job " ++ toString failed.id ++ ": " ++ cause⟩) := by
  intro o
  have hjobs : r.answers.jobs = .ok (some jobs) := Remote.told_eq_ok.mpr h
  obtain ⟨hsink, -, hresult⟩ := Report.Shown.mk.inj
    (Report.run_shown_concurrency r.config .one r.answers ⟨none, true, before⟩)
  have hone := Report.run_one_at_a_time r.config r.answers before
  simp only [hjobs, Option.getD_some] at hone
  obtain ⟨hbytes, hending⟩ := hone
  refine ⟨?_, ?_, ?_⟩
  · rw [← hbytes, hsink]
    rfl
  · obtain ⟨k, hk⟩ := @Report.exists_calls_script r.config r.answers jobs hjobs
    have hdone : (r.report ⟨none, true, before⟩).done = (Report.script r.config r.answers).steps := by
      rw [Remote.report, Report.run_eq_outcome, Report.outcome_unlimited]
    refine ⟨k, ?_⟩
    change (r.report ⟨none, true, before⟩).done.flatMap r.requests = _
    rw [hdone, Remote.requests_eq, hk, Remote.requests_askJobs, Remote.requests_asks]
  · rw [hresult] at hending
    have hcode : o.code = exitCode (r.report ⟨none, true, before⟩).result := rfl
    have hremark : o.remarks.getLast? = some (.entry (farewell (r.report ⟨none, true, before⟩).result)) :=
      List.getLast?_concat
    cases hd : jobs.dropWhile r.answers.answered with
    | nil =>
      simp only [hd] at hending
      rw [hcode, Remote.report, hending.2]
      rfl
    | cons failed rest =>
      simp only [hd] at hending
      obtain ⟨-, cause, -, hcause⟩ := hending
      rw [hcode, hremark, Remote.report, hcause]
      exact ⟨rfl, cause, rfl⟩

/-- Without a list of jobs nothing is written, and nothing but the list is asked for. -/
theorem unlisted_outcome {e : Api.Error} (h : r.jobsCall.result = .error e) (s : Sink) :
    let o := ofRemote r s
    o.sink = s ∧ o.requests = r.jobsCall.sent.toList ∧ o.code = 1 := by
  intro o
  have hrun : r.report s = ⟨[.note (Report.listingNote r.config), .askJobs], s,
      .error (Report.jobsFailure r.config e.chain)⟩ :=
      Report.run_of_jobs_error r.config (Remote.told_error h) s
  have hcalls : Report.calls [.note (Report.listingNote r.config), .askJobs] = [.askJobs] := rfl
  have ho : o.sink = (r.report s).sink ∧ o.requests = (r.report s).done.flatMap r.requests ∧
      o.code = exitCode (r.report s).result := ⟨rfl, rfl, rfl⟩
  rw [hrun, Remote.requests_eq, hcalls, Remote.requests_askJobs] at ho
  obtain ⟨hsink, hrequests, hcode⟩ := ho
  exact ⟨hsink, hrequests.trans (List.append_nil _), hcode⟩

theorem zip_map_self {α β : Type} (f : α → β) (list : List α) :
    list.zip (list.map f) = list.map fun a => (a, f a) := by
  induction list with
  | nil => rfl
  | cons a r ih => rw [List.map_cons, List.zip_cons_cons, ih, List.map_cons]

/-- The ids of the jobs that an answer lists go out with the digits they came with: in the line of the jobs,
in the lines of single jobs, in the URLs of their annotations and in what a failure tells, whatever the
concurrency. An id of another form than a natural number of 64 bits fails the call for the jobs: nothing is
written, and nothing but the list is asked for. -/
theorem ids_keep_digits [Url.Idna] {d : Document} (l : Layout d)
    (h : ListsFrom transport settings r l.body) {items : List Document} (hitems : Job.Collects d items) :
    (∀ jobs texts, Job.Answers d (some jobs) → List.Forall₂ Job.IdText items texts → ∀ before,
      let o := ofSettings transport settings ⟨none, true, before⟩
      let named := jobs.zip texts
      jobs.length = texts.length ∧
        o.sink.bytes = before ++ Report.linesBytes (("run ids: [" ++ ", ".intercalate texts ++ "]") ::
          (named.takeWhile fun n => r.answers.answered n.1).flatMap fun n =>
            linesNamed n.2 (r.answers.found n.1)) ∧
        (∃ k, o.requests = r.jobsCall.sent.toList ++
          (jobs.take k).flatMap fun job => (r.annotationsCall job.id).sent.toList) ∧
        (∀ n ∈ named, ∀ request ∈ (r.annotationsCall n.1.id).sent,
          ∃ front, request.url.path.text = front ++ ("/check-runs/" ++ n.2 ++ "/annotations").toList) ∧
        match named.dropWhile fun n => r.answers.answered n.1 with
        | [] => o.code = 0
        | failed :: _ => o.code = 1 ∧ ∃ cause, o.remarks.getLast? = some (.entry ⟨.error, target,
            "Report failed: Failed to get annotations for job " ++ failed.2 ++ ": " ++ cause⟩)) ∧
      ∀ item ∈ items, ∀ i, Job.Identifies item i → (∀ id, ¬Job.WritesId i id) → ∀ s,
        let o := ofSettings transport settings s
        (∃ e, r.jobsCall.result = .error e) ∧ o.sink = s ∧ o.requests = r.jobsCall.sent.toList ∧
          o.code = 1 := by
  obtain ⟨hlisted, hunlisted⟩ := h.jobsCall_result
  have hread : Job.readAnswer? l.body = Job.answer? d := by
    rw [Job.readAnswer?, l.read?, Option.bind_some]
  simp only [hread] at hlisted hunlisted
  constructor
  · intro jobs texts hanswers htexts before
    obtain ⟨_, heq, hwrites⟩ := hitems.exists_writes hanswers
    obtain rfl := Option.some.inj heq
    obtain rfl := Job.texts_eq hwrites htexts
    intro o named
    have hnamed : named = jobs.map fun job => (job, toString job.id) := zip_map_self _ _
    have houtcome := listed_outcome (hlisted _ (Job.answer?_eq_some.mpr hanswers)) before
    rw [← h.ofSettings_eq] at houtcome
    obtain ⟨hbytes, hrequests, hending⟩ := houtcome
    refine ⟨(List.length_map _).symm, ?_, hrequests, ?_, ?_⟩
    · rw [hnamed, List.takeWhile_map, List.flatMap_map]
      simp only [linesNamed_toString]
      exact hbytes
    · intro n hn request hrequest
      rw [hnamed] at hn
      obtain ⟨job, -, rfl⟩ := List.mem_map.mp hn
      exact path_of_sent hrequest
    · simp only [hnamed, List.dropWhile_map, Function.comp_def]
      cases hd : jobs.dropWhile r.answers.answered with
      | nil =>
        simp only [hd] at hending
        exact hending
      | cons failed rest =>
        simp only [hd] at hending
        exact hending
  · intro item hitem i hi hbad s
    have hnone : Job.answer? d = none := by
      refine Option.eq_none_iff_forall_ne_some.mpr fun listing hlisting => ?_
      exact hitems.not_answers hitem hi hbad (Job.answer?_eq_some.mp hlisting)
    obtain ⟨e, he⟩ := hunlisted hnone
    rw [h.ofSettings_eq]
    exact ⟨⟨e, he⟩, unlisted_outcome he s⟩

/-- The jobs of run 7 are listed by a body, and the largest of all ids has no annotations. -/
def answering (body : List UInt8) : Http.Transport := .plain fun request =>
  let path := String.ofList request.url.path.text
  .answered (if path = "/repos/octo/hello/actions/runs/7/jobs" then ⟨200, none, some body, []⟩
    else if path = "/repos/octo/hello/check-runs/18446744073709551615/annotations" then
      ⟨200, none, some (Text.Utf8.encode "[]".toList), []⟩
    else ⟨404, none, none, []⟩)

def sevenSettings : Settings := ⟨some "t", some "7", some "octo/hello", some "http://api.test", .one⟩

def sevenOf (body : List UInt8) : Remote :=
  { CommandLine.sevenRemote with transport := answering body }

theorem sevenOf_listsFrom (body : List UInt8) :
    ListsFrom (answering body) sevenSettings (sevenOf body) body := by
  have hconfig : RunConfig.ofSettings sevenSettings = .ok CommandLine.sevenRemote.config := by rfl
  have hclient : Client.ofConfig (answering body) CommandLine.sevenRemote.config =
      .ok CommandLine.sevenRemote.client := by rfl
  obtain ⟨url, hurl, hpath⟩ : ∃ url,
      CommandLine.sevenRemote.client.urlOf (Routes.runJobs "octo" "hello" "7") = .ok url ∧
        String.ofList url.path.text = "/repos/octo/hello/actions/runs/7/jobs" := ⟨_, rfl, by rfl⟩
  refine ⟨rfl, hconfig, hclient, url, ⟨200, none, some body, []⟩, hurl, ?_, rfl, rfl⟩
  have hurl : (CommandLine.sevenRemote.client.request url).url = url := rfl
  simp only [answering, Http.Transport.plain, sevenOf, hurl, hpath, ↓reduceIte]

theorem odd_jobs_answered :
    let answers := (sevenOf Job.oddLayout.body).answers
    answers.answered ⟨18446744073709551615, none⟩ = true ∧
      answers.found ⟨18446744073709551615, none⟩ = [] ∧ answers.answered ⟨7, some "n"⟩ = false := by
  intro answers
  have hfound : (answers.found ⟨18446744073709551615, none⟩).isEmpty = true := by decide +kernel
  exact ⟨by decide +kernel, List.isEmpty_iff.mp hfound, by decide +kernel⟩

def minusZero : Document := .array [.array [.array [.number ⟨true, [0], [], none⟩]]]

def minusLayout : Layout minusZero where
  margin := []
  words := [.openArray, .openArray,
    .openArray,
    ⟨_, _, [], .number (@Json.NumeralText.mk [0] [] none [] true rfl (by decide) (by decide) .none),
      Json.isBlank_nil⟩,
    .closeArray, .closeArray, .closeArray]
  isBlank := Json.isBlank_nil
  tokens_eq := by rfl

theorem oddItems_idTexts : List.Forall₂ Job.IdText Job.oddItems ["18446744073709551615", "7"] := by
  have hlarge : Json.TokenText
      (.number ⟨false, [1, 8, 4, 4, 6, 7, 4, 4, 0, 7, 3, 7, 0, 9, 5, 5, 1, 6, 1, 5], [], none⟩)
      "18446744073709551615".toList := Json.tokenText_digits rfl (by decide)
  have hsmall : Json.TokenText (.number ⟨false, [7], [], none⟩) "7".toList :=
    Json.tokenText_digits rfl (by decide)
  refine .cons ⟨_, .members ?_, hlarge⟩ (.cons ⟨_, .places, hsmall⟩ .nil)
  rfl

theorem large_id_kept :
    let o := ofSettings (answering Job.oddLayout.body) sevenSettings .unlimited
    o.sink.bytes = Report.linesBytes ["run ids: [18446744073709551615, 7]",
        "info: no annotations found for job 18446744073709551615"] ∧
      (∃ cause, o.remarks.getLast? = some (.entry ⟨.error, target,
        "Report failed: Failed to get annotations for job 7: " ++ cause⟩)) ∧
      (ofSettings (answering minusLayout.body) sevenSettings .unlimited).sink = .unlimited := by
  intro o
  have hitems : Job.Collects Job.oddAnswer Job.oddItems := .members (by rfl)
  obtain ⟨hfirst, hfound, hsecond⟩ := odd_jobs_answered
  obtain ⟨hkept, -⟩ := ids_keep_digits Job.oddLayout (sevenOf_listsFrom _) hitems
  obtain ⟨-, hbytes, -, -, hfailed⟩ := hkept _ _ Job.answers_oddAnswer oddItems_idTexts []
  have hminus : Job.Collects minusZero [.array [.number ⟨true, [0], [], none⟩]] := .places
  obtain ⟨-, hrefused⟩ := ids_keep_digits minusLayout (sevenOf_listsFrom _) hminus
  obtain ⟨-, hsink, -⟩ := hrefused _ List.mem_cons_self _ .places (fun _ h => nomatch h) .unlimited
  simp only [List.zip_cons_cons, List.zip_nil_left, List.takeWhile_cons, List.dropWhile_cons, hfirst,
    hsecond, hfound, ↓reduceIte, Bool.false_eq_true, List.flatMap_cons, List.flatMap_nil,
    List.append_nil] at hbytes hfailed
  have hlines : ("run ids: [" ++ ", ".intercalate ["18446744073709551615", "7"] ++ "]") ::
      linesNamed "18446744073709551615" [] = ["run ids: [18446744073709551615, 7]",
        "info: no annotations found for job 18446744073709551615"] := by decide +kernel
  have hempty : (⟨none, true, []⟩ : Sink) = .unlimited := rfl
  rw [hlines, List.nil_append, hempty] at hbytes
  rw [hempty] at hfailed
  exact ⟨hbytes, hfailed.2, hsink⟩

end Run

end AnnotationReport
