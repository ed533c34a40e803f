import AnnotationReport.Proofs.Api.Rereading
import AnnotationReport.Proofs.Json.SingleLine
import AnnotationReport.Proofs.Report.Interleaving
import AnnotationReport.Proofs.Report.Sequential

/-! # Reading a report line by line

What a complete report writes falls into lines again: the line of the jobs, and for each job the objects
that are its reportable annotations or the line that it has none. A line is told by its first byte, and
the objects are read as the annotations that they were.
-/
namespace AnnotationReport

open Text.Utf8 (encode)

namespace Report

section LineFeeds

def linesOf (bytes : List UInt8) : List (List UInt8) := (bytes.splitOn 10).dropLast

variable {lines : List (List UInt8)}

theorem splitOn_flatMap (h : ∀ l ∈ lines, 10 ∉ l) :
    (lines.flatMap (· ++ [10])).splitOn 10 = lines ++ [[]] := by
  induction lines with
  | nil => rfl
  | cons l r ih =>
    obtain ⟨hl, hr⟩ := List.forall_mem_cons.mp h
    rw [List.flatMap_cons, List.append_assoc, List.singleton_append,
      List.splitOn_append_cons_self_of_not_mem hl, ih hr, List.cons_append]

theorem count_flatMap (h : ∀ l ∈ lines, 10 ∉ l) :
    (lines.flatMap (· ++ [10])).count 10 = lines.length := by
  induction lines with
  | nil => rfl
  | cons l r ih =>
    obtain ⟨hl, hr⟩ := List.forall_mem_cons.mp h
    rw [List.flatMap_cons, List.count_append, List.count_append, ih hr, List.count_eq_zero.mpr hl]
    simp [Nat.add_comm]

theorem getLast?_flatMap (h : lines ≠ []) : (lines.flatMap (· ++ [10])).getLast? = some 10 := by
  obtain ⟨before, l, rfl⟩ := (List.eq_nil_or_concat' lines).resolve_left h
  simp

end LineFeeds

section Texts

def lineBytes (line : String) : List UInt8 := encode line.toList

theorem linesBytes_eq_flatMap (lines : List String) :
    linesBytes lines = (lines.map lineBytes).flatMap (· ++ [10]) := by
  have hend : encode ['\n'] = [10] := rfl
  rw [linesBytes_eq, List.flatMap_map]
  simp only [lineBytes, Text.Utf8.encode_append, hend]

/-- A text without controls has no line feed among its bytes. -/
theorem notMem_encode {text : List Char} (h : Json.NoControls text) : 10 ∉ encode text := by
  intro hmem
  obtain ⟨c, hc, hten⟩ := Text.Utf8.exists_toNat_of_mem_encode (by decide) hmem
  have := h c hc
  rw [hten] at this
  exact absurd this (by decide)

theorem decimal_noControls (n : Nat) : Json.NoControls (Text.decimal n) :=
  Json.noControls_of_allNumeric (Json.Numeral.decimal_numeric n)

theorem idsLine_noControls (jobs : List Job) : Json.NoControls (idsLine jobs) := by
  have hids : Json.NoControls ([',', ' '].intercalate (jobs.map fun j => Text.decimal j.id)) := by
    induction jobs with
    | nil => exact fun _ h => by cases h
    | cons j r ih =>
      cases r with
      | nil => simpa using decimal_noControls j.id
      | cons k r =>
        rw [List.map_cons, List.map_cons, List.intercalate_cons_cons]
        have hfirst : Json.NoControls (Text.decimal j.id ++ [',', ' ']) :=
          Json.noControls_append (decimal_noControls j.id) (Json.noControls_of_all rfl)
        exact Json.noControls_append hfirst ih
  have hopen : Json.NoControls "run ids: [".toList := Json.noControls_of_all rfl
  exact Json.noControls_append (Json.noControls_append hopen hids) (Json.noControls_of_all rfl)

theorem noneLine_noControls (job : Job) : Json.NoControls (noneLine job) :=
  Json.noControls_append (Json.noControls_of_all rfl) (decimal_noControls job.id)

theorem expectedLines_noControls {job : Job} {annotations : List Annotation} {line : String}
    (h : line ∈ expectedLines job annotations) : Json.NoControls line.toList := by
  cases annotations with
  | nil =>
    obtain rfl := List.mem_singleton.mp h
    rw [← ofList_noneLine, String.toList_ofList]
    exact noneLine_noControls job
  | cons a r =>
    obtain ⟨b, -, rfl⟩ := List.mem_map.mp h
    rw [String.toList_ofList]
    exact Json.render_noControls (.object b.fields)

end Texts

section Objects

def isObject (line : List UInt8) : Bool := line.head? = some 0x7B

theorem isObject_text (a : Annotation) : isObject (encode a.text) = true := rfl

theorem lineBytes_ofList (line : List Char) : lineBytes (String.ofList line) = encode line := by
  rw [lineBytes, String.toList_ofList]

theorem isObject_noneLine (job : Job) : isObject (encode (noneLine job)) = false := rfl

theorem isObject_idsLine (jobs : List Job) : isObject (encode (idsLine jobs)) = false := rfl

/-- Among the lines of a job, the objects are its reportable annotations. -/
theorem objects_expectedLines (job : Job) (annotations : List Annotation) :
    ((expectedLines job annotations).map lineBytes).filter isObject =
      (annotations.filter (·.isReportable)).map fun a => encode a.text := by
  cases annotations with
  | nil =>
    rw [expectedLines, ← ofList_noneLine, List.map_singleton, lineBytes_ofList,
      List.filter_cons_of_neg (by simp [isObject_noneLine])]
    rfl
  | cons a r =>
    simp only [expectedLines, List.map_map, Function.comp_def, lineBytes_ofList]
    exact List.filter_eq_self.mpr (List.forall_mem_map.mpr fun b _ => isObject_text b)

theorem length_expectedLines (job : Job) (annotations : List Annotation) :
    (expectedLines job annotations).length =
      (annotations.filter (·.isReportable)).length + if annotations.isEmpty then 1 else 0 := by
  cases annotations <;> simp [expectedLines]

theorem length_flatMap_expectedLines (found : Job → List Annotation) (jobs : List Job) :
    (jobs.flatMap fun job => expectedLines job (found job)).length =
      (jobs.map fun job => ((found job).filter (·.isReportable)).length).sum +
        (jobs.filter fun job => (found job).isEmpty).length := by
  induction jobs with
  | nil => rfl
  | cons job r ih =>
    rw [List.flatMap_cons, List.length_append, ih, length_expectedLines, List.map_cons, List.sum_cons,
      List.filter_cons]
    split <;> simp <;> omega

end Objects

section Complete

variable {c : RunConfig} {answers : Answers} {summary : Summary}

def reportLines (answers : Answers) : List String :=
  expectedHeader answers.listed ::
    answers.listed.flatMap fun job => expectedLines job (answers.found job)

/-- What a complete report writes, whatever its concurrency. -/
theorem run_complete (h : (run c answers .unlimited).result = .ok summary) :
    (run c answers .unlimited).sink.bytes = linesBytes (reportLines answers) ∧
      summary.reported =
        (answers.listed.map fun job => ((answers.found job).filter (·.isReportable)).length).sum := by
  rw [run_unlimited] at h ⊢
  cases hjobs : answers.jobs with
  | error cause => simp [script, hjobs] at h
  | ok listing =>
    obtain ⟨opening, -, houtput, hscript⟩ := script_opening c hjobs
    rw [listed_getD hjobs] at hscript
    have hending := ending_jobsScript answers ⟨answers.listed.length, 0, 0⟩ answers.listed
      (answers.listed.drop c.concurrency.limit)
    simp only [hscript, listedScript] at h
    cases hd : answers.listed.dropWhile answers.answered with
    | cons failed r =>
      simp only [hd] at hending
      obtain ⟨cause, -, hcause⟩ := hending
      rw [hcause] at h
      cases h
    | nil =>
      simp only [hd] at hending
      rw [hending] at h
      obtain rfl := Except.ok.inj h
      have hanswered := List.dropWhile_eq_nil_iff.mp hd
      refine ⟨?_, Nat.zero_add _⟩
      simp only [hscript, List.flatMap_append, houtput, output_listedScript, List.nil_append,
        List.takeWhile_eq_self_iff.mpr hanswered, reportLines]

theorem reportLines_noFeed (answers : Answers) : ∀ l ∈ (reportLines answers).map lineBytes, 10 ∉ l := by
  intro l hl
  obtain ⟨line, hline, rfl⟩ := List.mem_map.mp hl
  refine notMem_encode ?_
  rcases List.mem_cons.mp hline with rfl | hline
  · rw [← ofList_idsLine, String.toList_ofList]
    exact idsLine_noControls _
  · obtain ⟨job, -, hjob⟩ := List.mem_flatMap.mp hline
    exact expectedLines_noControls hjob

theorem objects_reportLines (answers : Answers) :
    ((reportLines answers).map lineBytes).filter isObject =
      (answers.listed.flatMap fun job => (answers.found job).filter (·.isReportable)).map
        fun a => encode a.text := by
  have hheader : isObject (lineBytes (expectedHeader answers.listed)) = false := by
    rw [← ofList_idsLine, lineBytes_ofList, isObject_idsLine]
  rw [reportLines, List.map_cons, List.filter_cons_of_neg (by simp [hheader]), List.map_flatMap,
    List.filter_flatMap, List.map_flatMap]
  simp only [objects_expectedLines]

/-- The annotations of every listed job come from the body of an answer. -/
def ReadFromBodies (answers : Answers) : Prop :=
  ∀ job ∈ answers.listed, ∀ found, answers.annotations job.id = .ok found →
    ∃ body, Annotation.readAnswer? body = some found

/-- What was read from the body of an answer can be read again. -/
theorem printable_of_found (hbodies : ReadFromBodies answers) (hjob : job ∈ answers.listed) {a : Annotation}
    (ha : a ∈ answers.found job) (hfloats : ∀ x ∈ (Json.object a.fields).floats, Json.ReadsBack x) :
    a.Printable ∧ a.nesting ≤ Json.maxDepth := by
  unfold Answers.found at ha
  split at ha
  · obtain ⟨body, hbody⟩ := hbodies job hjob _ ‹_›
    obtain ⟨hwell, hnesting⟩ := Annotation.wellFormed_of_readAnswer? hbody a ha
    exact ⟨⟨hwell, hfloats⟩, Nat.le_trans hnesting (Nat.sub_le _ _)⟩
  · cases ha

/-- A complete report on a sink that takes everything can be read back line by line. It ends with a line
feed, and there is one for the line of the jobs, one for each annotation that is reported and one for each
job without annotations. Every line after the first is an object or says that a job has no annotations,
and the objects are read as the reportable annotations of all jobs, in their order. -/
theorem complete_report_read_back (h : (run c answers .unlimited).result = .ok summary)
    (hbodies : ReadFromBodies answers) :
    let bytes := (run c answers .unlimited).sink.bytes
    let reportable := answers.listed.flatMap fun job => (answers.found job).filter (·.isReportable)
    let silent := answers.listed.filter fun job => (answers.found job).isEmpty
    bytes.getLast? = some 10 ∧
      bytes.count 10 = 1 + summary.reported + silent.length ∧
      (∃ rest, linesOf bytes = lineBytes ("run ids: [" ++
            ", ".intercalate (answers.listed.map fun j => toString j.id) ++ "]") :: rest ∧
        ∀ line ∈ rest, isObject line ∨ ∃ job ∈ silent,
          line = lineBytes ("info: no annotations found for job " ++ toString job.id)) ∧
      ((∀ a ∈ reportable, ∀ x ∈ (Json.object a.fields).floats, Json.ReadsBack x) →
        ((linesOf bytes).filter isObject).map Annotation.read? = reportable.map some) := by
  intro bytes reportable silent
  obtain ⟨hwritten, hreported⟩ := run_complete h
  have hfeeds := reportLines_noFeed answers
  have hbytes : bytes = ((reportLines answers).map lineBytes).flatMap (· ++ [10]) :=
    hwritten.trans (linesBytes_eq_flatMap _)
  have hlines : linesOf bytes = (reportLines answers).map lineBytes := by
    rw [linesOf, hbytes, splitOn_flatMap hfeeds, List.dropLast_concat]
  refine ⟨?_, ?_, ⟨_, hlines, ?_⟩, ?_⟩
  · rw [hbytes]
    exact getLast?_flatMap (by simp [reportLines])
  · rw [hbytes, count_flatMap hfeeds, List.length_map, reportLines, List.length_cons,
      length_flatMap_expectedLines, hreported, Nat.add_comm (_ + _) 1, Nat.add_assoc]
  · intro l hl
    obtain ⟨line, hline, rfl⟩ := List.mem_map.mp hl
    obtain ⟨job, hjob, hline⟩ := List.mem_flatMap.mp hline
    cases hfound : answers.found job with
    | nil =>
      rw [hfound] at hline
      exact .inr ⟨job, List.mem_filter.mpr ⟨hjob, by simp [hfound]⟩,
        congrArg lineBytes (List.mem_singleton.mp hline)⟩
    | cons a r =>
      rw [hfound] at hline
      obtain ⟨b, -, rfl⟩ := List.mem_map.mp hline
      rw [lineBytes_ofList]
      exact .inl (isObject_text b)
  · intro hfloats
    have hobjects : (linesOf bytes).filter isObject = reportable.map fun a => encode a.text := by
      rw [hlines]
      exact objects_reportLines answers
    rw [hobjects, List.map_map]
    refine List.map_congr_left fun a ha => ?_
    obtain ⟨job, hjob, hmem⟩ := List.mem_flatMap.mp ha
    obtain ⟨hprintable, hnesting⟩ :=
      printable_of_found hbodies hjob (List.mem_filter.mp hmem).1 (hfloats a ha)
    exact hprintable.read?_text hnesting

end Complete

def brokenBuild : Annotation :=
  ⟨[("annotation_level", .string "Warning"), ("message", .string "step 3\nfailed"),
    ("share", .float Json.half)]⟩

/-- The first of two jobs has the warning and an annotation without a level, the second has null. -/
def brokenFirst : Answers :=
  ⟨.ok (some [⟨1, none⟩, ⟨2, none⟩]), fun job => .ok (if job = 1 then some [brokenBuild, ⟨[]⟩] else none)⟩

def brokenBody : String :=
  "[\x7b\"annotation_level\": \"Warning\", " ++
    "\"message\": \"step 3\\nfailed\", \"share\": 0.50\x7d, \x7b\x7d]"

theorem brokenBody_read :
    Annotation.readAnswer? (encode brokenBody.toList) = some (some [brokenBuild, ⟨[]⟩]) := by
  have htokens : Json.tokens? (encode brokenBody.toList) = some ([.arrayStart, .objectStart,
      .string ("annotation_level".toList.map .char), .colon, .string ("Warning".toList.map .char), .comma,
      .string ("message".toList.map .char), .colon, .string ("step 3\nfailed".toList.map .char), .comma,
      .string ("share".toList.map .char), .colon, .number ⟨false, [0], [5, 0], none⟩, .objectEnd, .comma,
      .objectStart, .objectEnd, .arrayEnd]) := by decide +kernel
  unfold Annotation.readAnswer? Json.Document.read?
  rw [htokens]
  rfl

theorem broken_build_read_back :
    let bytes := (run FanOut.twoAtOnce brokenFirst .unlimited).sink.bytes
    (run FanOut.twoAtOnce brokenFirst .unlimited).result = .ok ⟨2, 2, 1⟩ ∧
      ReadFromBodies brokenFirst ∧ bytes.count 10 = 3 ∧
      ((linesOf bytes).filter isObject).map Annotation.read? = [some brokenBuild] := by
  have hbodies : ReadFromBodies brokenFirst := by
    intro job hjob found hfound
    obtain rfl := Except.ok.inj hfound
    rcases List.mem_cons.mp hjob with rfl | hjob
    · exact ⟨encode brokenBody.toList, brokenBody_read⟩
    · obtain rfl := List.mem_singleton.mp hjob
      exact ⟨encode "null".toList, rfl⟩
  obtain ⟨-, hcount, -, hread⟩ :=
    @complete_report_read_back FanOut.twoAtOnce brokenFirst ⟨2, 2, 1⟩ rfl hbodies
  refine ⟨rfl, hbodies, hcount, hread ?_⟩
  intro a ha x hx
  obtain rfl := List.mem_singleton.mp ha
  obtain rfl := List.mem_singleton.mp hx
  exact Json.half_readsBack

end Report
end AnnotationReport
