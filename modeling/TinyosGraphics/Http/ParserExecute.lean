import TinyosGraphics.Http.HeaderCallbacks

/-! The parser's callbacks over a whole request: its target, its header lines, and the lines behind a
chunked body. -/
namespace TinyosGraphics.Http
open Lib Core

/-- The modification times of the files there are; there is no file with an empty name. -/
def statMtime (files : List UInt8 → Option Int) (path : List UInt8) : Option Int :=
  if path = [] then none else files path

/-- The loop over the header lines. `date i` is the time that the `i`-th line's text stands for; where
`strptime` cannot read it, what `tm` held before. -/
def checkModified (date : Nat → List UInt8 → Int) (mtime : Int) :
    Nat → List (Block × Block) → HttpStatus → Option HttpStatus
  | _, [], status => some status
  | i, (name, value) :: rest, status =>
    if name.cString = ascii "If-Modified-Since" then do
      let tempstring ← strcpy 256 value.cString
      checkModified date mtime (i + 1) rest (if mtime ≤ date i tempstring then .s304 else status)
    else checkModified date mtime (i + 1) rest status

def tgxHttpParserOnHeaderCompleteCb (files : List UInt8 → Option Int) (date : Nat → List UInt8 → Int)
    (parser : TgxHttpParser) : Option (Int × TgxHttpParser) :=
  match statMtime files parser.path with
  | none => some (0, { parser with httpStatus := .s404 })
  | some mtime => do
    let status ← checkModified date mtime 0 (parser.headers.take parser.numHeaders) parser.httpStatus
    return (0, { parser with httpStatus := status })

/-- A request as `http_parser` takes it apart. The first part of a header line belongs to its name. -/
structure Request where
  method : List UInt8
  target : List UInt8
  headers : List HeaderPart
  trailers : List HeaderPart
  starts : ∀ part ∈ (headers ++ trailers).head?, part.isField = true

/-- The callback for the target, on the whole of `tgx_http_parser_s`. -/
def onUrl (sys : Surroundings) (method target : List UInt8) (parser : TgxHttpParser) :
    Option (Int × TgxHttpParser) :=
  (tgxHttpParserOnUrlCb sys method target parser.toHttpParser).map fun (ret, url) =>
    (ret, { parser with toHttpParser := url })

/-- The calls that `http_parser_execute` makes for a request and that work on `tgx_http_parser_s`; the body
is delivered before the trailers. `files` are the files there are when the header is complete. -/
def httpParserExecute (sys : Surroundings) (files : List UInt8 → Option Int) (date : Nat → List UInt8 → Int)
    (r : Request) (parser : TgxHttpParser) : Option (Int × TgxHttpParser) :=
  andThen (onUrl sys r.method r.target parser) fun parser =>
  andThen (onHeaderParts r.headers parser) fun parser =>
  andThen (tgxHttpParserOnHeaderCompleteCb files date parser) fun parser =>
  onHeaderParts r.trailers parser

/-- The line asks for the file only if it is newer than a date. -/
abbrev IsDate (line : HeaderLine) : Prop :=
  line.1 = ascii "If-Modified-Since"

namespace HeaderLines

/-- All dates fit into `tempstring`. -/
def DatesFit (l : HeaderLines) : Prop :=
  ∀ i < l.count, IsDate (l.line i) → (l.line i).2.length < 256

/-- One of the dates is that of the file, or later. -/
def Unmodified (l : HeaderLines) (date : Nat → List UInt8 → Int) (mtime : Int) : Prop :=
  ∃ i < l.count, IsDate (l.line i) ∧ mtime ≤ date i (l.line i).2

end HeaderLines

private theorem checkModified_some (date : Nat → List UInt8 → Int) (mtime : Int) {line : Nat → HeaderLine}
    {elements : List (Block × Block)} (i : Nat)
    (h : ∀ j element, elements[j]? = some element → HoldsLine element (line j))
    (hfit : ∀ j < elements.length, IsDate (line j) → (line j).2.length < 256) (status : HttpStatus) :
    ∃ after, checkModified date mtime i elements status = some after ∧
      (after = .s304 ∧ (∃ j < elements.length, IsDate (line j) ∧ mtime ≤ date (i + j) (line j).2) ∨
        after = status ∧ ¬ ∃ j < elements.length, IsDate (line j) ∧ mtime ≤ date (i + j) (line j).2) := by
  induction elements generalizing i line status with
  | nil => exact ⟨status, rfl, .inr ⟨rfl, by simp⟩⟩
  | cons element rest ih =>
    have hfirst := h 0 element rfl
    have hrest (status : HttpStatus) := ih (i + 1) (fun j e he => h (j + 1) e he)
      (fun j hj => hfit (j + 1) (Nat.succ_lt_succ hj)) status
    simp only [Nat.add_right_comm i 1] at hrest
    rw [List.length_cons, Nat.exists_lt_succ_left, checkModified, hfirst.name.cString, hfirst.value.cString]
    by_cases hdate : IsDate (line 0)
    · have hcopy : strcpy 256 (line 0).2 = some (line 0).2 := if_pos (hfit 0 (Nat.succ_pos _) hdate)
      rw [if_pos hdate, hcopy, Option.bind_eq_bind, Option.bind_some]
      obtain ⟨after, hafter, hcases⟩ := hrest (if mtime ≤ date i (line 0).2 then .s304 else status)
      refine ⟨after, hafter, ?_⟩
      rcases hcases with ⟨rfl, hlater⟩ | ⟨rfl, hnone⟩
      · exact .inl ⟨rfl, .inr hlater⟩
      · by_cases hnew : mtime ≤ date i (line 0).2
        · exact .inl ⟨if_pos hnew, .inl ⟨hdate, hnew⟩⟩
        · exact .inr ⟨if_neg hnew, fun hor => hor.elim (fun h0 => hnew h0.2) hnone⟩
    · rw [if_neg hdate]
      obtain ⟨after, hafter, hcases⟩ := hrest status
      refine ⟨after, hafter, hcases.imp (And.imp_right .inr) (And.imp_right fun hnone hor => ?_)⟩
      exact hor.elim (fun h0 => hdate h0.1) hnone

private theorem checkModified_none (date : Nat → List UInt8 → Int) (mtime : Int) {line : Nat → HeaderLine}
    {elements : List (Block × Block)} (i : Nat)
    (h : ∀ j element, elements[j]? = some element → HoldsLine element (line j))
    (hlong : ∃ j < elements.length, IsDate (line j) ∧ 256 ≤ (line j).2.length) (status : HttpStatus) :
    checkModified date mtime i elements status = none := by
  induction elements generalizing i line status with
  | nil => simp at hlong
  | cons element rest ih =>
    have hfirst := h 0 element rfl
    rw [List.length_cons, Nat.exists_lt_succ_left] at hlong
    rw [checkModified, hfirst.name.cString, hfirst.value.cString]
    have hrest (hlater : ∃ j < rest.length, IsDate (line (j + 1)) ∧ 256 ≤ (line (j + 1)).2.length)
        (status : HttpStatus) := ih (i + 1) (fun j e he => h (j + 1) e he) hlater status
    by_cases hdate : IsDate (line 0)
    · rw [if_pos hdate]
      rcases hlong with ⟨-, hlong⟩ | hlater
      · rw [strcpy, if_neg (not_lt.mpr hlong)]
        rfl
      · cases strcpy 256 (line 0).2 with
        | none => rfl
        | some copy => exact hrest hlater _
    · rw [if_neg hdate]
      exact hrest (hlong.resolve_left fun h0 => hdate h0.1) status

/-- What the callback reads are the lines that have come. -/
theorem HoldsLines.take {parser : TgxHttpParser} {l : HeaderLines} (h : HoldsLines parser l)
    (hl : l.count ≤ TGX_MAX_HEADERS) :
    (parser.headers.take parser.numHeaders).length = l.count ∧
      ∀ j element, (parser.headers.take parser.numHeaders)[j]? = some element → HoldsLine element (l.line j) := by
  refine ⟨by rw [List.length_take, h.length, h.numHeaders, min_eq_left hl], fun j element he => ?_⟩
  rw [List.getElem?_take] at he
  split at he
  · exact h.lines j element he
  · cases he

theorem HoldsLines.complete {parser : TgxHttpParser} {l : HeaderLines} (h : HoldsLines parser l)
    (hl : l.count ≤ TGX_MAX_HEADERS) {files : List UInt8 → Option Int} (date : Nat → List UInt8 → Int) {mtime : Int}
    (hfile : statMtime files parser.path = some mtime) (hfit : l.DatesFit) :
    ∃ after, tgxHttpParserOnHeaderCompleteCb files date parser = some (0, { parser with httpStatus := after }) ∧
      (after = .s304 ∧ l.Unmodified date mtime ∨ after = parser.httpStatus ∧ ¬ l.Unmodified date mtime) := by
  obtain ⟨hlength, hlines⟩ := h.take hl
  obtain ⟨after, hafter, hcases⟩ :=
    checkModified_some date mtime 0 hlines (hlength.symm ▸ hfit) parser.httpStatus
  simp only [Nat.zero_add, hlength] at hcases
  refine ⟨after, ?_, hcases⟩
  rw [tgxHttpParserOnHeaderCompleteCb, hfile]
  simp only [hafter, Option.bind_eq_bind, Option.bind_some]
  rfl

private theorem HoldsLines.complete_none {parser : TgxHttpParser} {l : HeaderLines} (h : HoldsLines parser l)
    (hl : l.count ≤ TGX_MAX_HEADERS) {files : List UInt8 → Option Int} {date : Nat → List UInt8 → Int} {mtime : Int}
    (hfile : statMtime files parser.path = some mtime) (hfit : ¬ l.DatesFit) :
    tgxHttpParserOnHeaderCompleteCb files date parser = none := by
  obtain ⟨hlength, hlines⟩ := h.take hl
  simp only [HeaderLines.DatesFit, not_forall, not_lt, exists_prop] at hfit
  have hnone := checkModified_none date mtime 0 hlines (hlength.symm ▸ hfit) parser.httpStatus
  rw [tgxHttpParserOnHeaderCompleteCb, hfile]
  simp only [hnone, Option.bind_eq_bind, Option.bind_none]

private theorem complete_missing {parser : TgxHttpParser} {files : List UInt8 → Option Int}
    {date : Nat → List UInt8 → Int}
    (hfile : statMtime files parser.path = none) :
    tgxHttpParserOnHeaderCompleteCb files date parser = some (0, { parser with httpStatus := .s404 }) := by
  rw [tgxHttpParserOnHeaderCompleteCb, hfile]

theorem HoldsLines.setStatus {parser : TgxHttpParser} {l : HeaderLines} (h : HoldsLines parser l)
    (status : HttpStatus) : HoldsLines { parser with httpStatus := status } l :=
  ⟨h.numHeaders, h.last, h.started, h.length, h.lines⟩

private theorem Request.starts_headers (r : Request) :
    Starts r.headers .empty ∧ Starts r.trailers (.gather r.headers) :=
  Starts.append (.inr r.starts)

/-- The header lines of a request that fit, around the end of the header. -/
theorem Request.onHeaderParts (r : Request) (hfit : (HeaderLines.gather (r.headers ++ r.trailers)).Fit)
    (url : HttpParser) :
    ∃ parser, onHeaderParts r.headers { url with } = some (0, parser) ∧
      HoldsLines parser (.gather r.headers) ∧ parser.toHttpParser = url ∧
      ∀ status, ∃ after, Http.onHeaderParts r.trailers { parser with httpStatus := status } = some (0, after) ∧
        after.httpStatus = status := by
  rw [HeaderLines.gather_append] at hfit
  obtain ⟨parser, hrun, hholds, hsame⟩ :=
    (holdsLines_empty url).onHeaderParts r.starts_headers.1 (HeaderLines.fit_of_foldl hfit)
  refine ⟨parser, hrun, hholds, hsame, fun status => ?_⟩
  obtain ⟨after, hafter, -, hkept⟩ := (hholds.setStatus status).onHeaderParts r.starts_headers.2 hfit
  exact ⟨after, hafter, congrArg HttpParser.httpStatus hkept⟩

private theorem execute_url {sys : Surroundings} {files : List UInt8 → Option Int} {date : Nat → List UInt8 → Int}
    {r : Request} {ret : Int} {url : HttpParser}
    (hurl : tgxHttpParserOnUrlCb sys r.method r.target {} = some (ret, url)) :
    httpParserExecute sys files date r {} =
      if ret = 0 then
        andThen (onHeaderParts r.headers { url with }) fun parser =>
        andThen (tgxHttpParserOnHeaderCompleteCb files date parser) fun parser =>
        onHeaderParts r.trailers parser
      else some (ret, { url with }) := by
  rw [httpParserExecute, onUrl, hurl]
  rfl

private theorem execute_missing {sys : Surroundings} {files : List UInt8 → Option Int} (date : Nat → List UInt8 → Int)
    {r : Request} {url : HttpParser} (hurl : tgxHttpParserOnUrlCb sys r.method r.target {} = some (0, url))
    (hfit : (HeaderLines.gather (r.headers ++ r.trailers)).Fit) (hfile : statMtime files url.path = none) :
    ∃ after, httpParserExecute sys files date r {} = some (0, after) ∧ after.httpStatus = .s404 := by
  obtain ⟨parser, hrun, hholds, rfl, hend⟩ := r.onHeaderParts hfit url
  obtain ⟨after, hafter, hstatus⟩ := hend .s404
  refine ⟨after, ?_, hstatus⟩
  rw [execute_url hurl, if_pos rfl, hrun]
  simpa only [andThen_zero, complete_missing hfile] using hafter

private theorem execute_found {sys : Surroundings} {files : List UInt8 → Option Int} (date : Nat → List UInt8 → Int)
    {r : Request} {url : HttpParser} (hurl : tgxHttpParserOnUrlCb sys r.method r.target {} = some (0, url))
    (hfit : (HeaderLines.gather (r.headers ++ r.trailers)).Fit) {mtime : Int}
    (hfile : statMtime files url.path = some mtime) (hdates : (HeaderLines.gather r.headers).DatesFit) :
    ∃ after, httpParserExecute sys files date r {} = some (0, after) ∧
      (after.httpStatus = .s304 ∧ (HeaderLines.gather r.headers).Unmodified date mtime ∨
        after.httpStatus = url.httpStatus ∧ ¬ (HeaderLines.gather r.headers).Unmodified date mtime) := by
  obtain ⟨parser, hrun, hholds, rfl, hend⟩ := r.onHeaderParts hfit url
  rw [HeaderLines.gather_append] at hfit
  obtain ⟨status, hcomplete, hcases⟩ :=
    hholds.complete (HeaderLines.fit_of_foldl hfit).1 date hfile hdates
  obtain ⟨after, hafter, hstatus⟩ := hend status
  refine ⟨after, ?_, hstatus ▸ hcases⟩
  rw [execute_url hurl, if_pos rfl, hrun]
  simpa only [andThen_zero, hcomplete] using hafter

private theorem complete_status {files : List UInt8 → Option Int} {date : Nat → List UInt8 → Int}
    {parser : TgxHttpParser}
    {result : Int × TgxHttpParser} (h : tgxHttpParserOnHeaderCompleteCb files date parser = some result) :
    ∃ status, result = (0, { parser with httpStatus := status }) := by
  rw [tgxHttpParserOnHeaderCompleteCb] at h
  split at h
  · exact ⟨_, (Option.some.inj h).symm⟩
  · obtain ⟨status, -, h⟩ := Option.bind_eq_some_iff.mp h
    exact ⟨status, (Option.some.inj h).symm⟩

/-- Lines that do not fit are written past the arrays, before or after the end of the header. -/
private theorem execute_lines {sys : Surroundings} {files : List UInt8 → Option Int} {date : Nat → List UInt8 → Int}
    {r : Request} {url : HttpParser} (hurl : tgxHttpParserOnUrlCb sys r.method r.target {} = some (0, url))
    (hsome : (httpParserExecute sys files date r {}).isSome = true) :
    (HeaderLines.gather (r.headers ++ r.trailers)).Fit := by
  rw [execute_url hurl, if_pos rfl] at hsome
  by_contra hfit
  have hempty : HeaderLines.empty.Fit := ⟨Nat.zero_le _, fun _ hi => absurd hi (Nat.not_lt_zero _)⟩
  by_cases hheaders : (HeaderLines.gather r.headers).Fit
  · obtain ⟨parser, hrun, hholds, -⟩ := (holdsLines_empty url).onHeaderParts r.starts_headers.1 hheaders
    rw [hrun, andThen_zero] at hsome
    cases hcomplete : tgxHttpParserOnHeaderCompleteCb files date parser with
    | none =>
      rw [hcomplete] at hsome
      cases hsome
    | some result =>
      obtain ⟨status, rfl⟩ := complete_status hcomplete
      rw [HeaderLines.gather_append] at hfit
      have hnone := (hholds.setStatus status).onHeaderParts_none hheaders r.starts_headers.2 hfit
      rw [hcomplete, andThen_zero, hnone] at hsome
      cases hsome
  · rw [(holdsLines_empty url).onHeaderParts_none hempty r.starts_headers.1 hheaders] at hsome
    cases hsome

private theorem execute_dates {sys : Surroundings} {files : List UInt8 → Option Int} {date : Nat → List UInt8 → Int}
    {r : Request} {url : HttpParser} (hurl : tgxHttpParserOnUrlCb sys r.method r.target {} = some (0, url))
    (hsome : (httpParserExecute sys files date r {}).isSome = true) {mtime : Int}
    (hfile : statMtime files url.path = some mtime) : (HeaderLines.gather r.headers).DatesFit := by
  have hfit := execute_lines hurl hsome
  obtain ⟨parser, hrun, hholds, rfl, -⟩ := r.onHeaderParts hfit url
  rw [HeaderLines.gather_append] at hfit
  by_contra hdates
  rw [execute_url hurl, if_pos rfl, hrun, andThen_zero,
    hholds.complete_none (HeaderLines.fit_of_foldl hfit).1 hfile hdates] at hsome
  cases hsome

/-- Nothing is written past a buffer, whatever the allocations, the files and the dates are. -/
def StaysInBuffers (r : Request) : Prop :=
  ∀ sys files date, (httpParserExecute sys files date r {}).isSome = true

/-- The requests that fit. A target that is refused leaves no path, so that no date is looked at. -/
structure Request.Fits (r : Request) : Prop where
  target : Refused r.method r.target ∨ (cutSlashes (cutQuery r.target)).length + 12 < PATH_SIZE
  lines : (HeaderLines.gather (r.headers ++ r.trailers)).Fit
  dates : Refused r.method r.target ∨ (HeaderLines.gather r.headers).DatesFit

private theorem url_isSome (sys : Surroundings) {method target : List UInt8}
    (h : Refused method target ∨ (cutSlashes (cutQuery target)).length + 12 < PATH_SIZE) (parser : HttpParser) :
    ∃ ret url, tgxHttpParserOnUrlCb sys method target parser = some (ret, url) := by
  by_cases href : Refused method target ∨ sys.path = false
  · obtain ⟨url, hurl, -⟩ := url_refused sys href parser
    exact ⟨0, url, hurl⟩
  rw [not_or, Bool.not_eq_false] at href
  have hlen := h.resolve_left href.1
  have hcopy : strcpy PATH_SIZE (ascii "." ++ cutSlashes (cutQuery target)) = some _ :=
    if_pos (by simp [ascii]; omega)
  have hfound := findIndex_eq (ascii "." ++ cutSlashes (cutQuery target)) (by simp [ascii]; omega) sys.stat
  rw [url_served href.1 href.2, hcopy, Option.bind_eq_bind, Option.bind_some]
  split
  · exact ⟨_, _, rfl⟩
  · exact ⟨_, _, rfl⟩
  split
  · exact ⟨_, _, rfl⟩
  · simp only [hfound, Option.bind_eq_bind, Option.bind_some]
    split <;> exact ⟨_, _, rfl⟩

/-- A request stays in the buffers exactly when it fits. -/
theorem staysInBuffers_iff (r : Request) : StaysInBuffers r ↔ r.Fits := by
  constructor
  · intro h
    have htarget : Refused r.method r.target ∨ (cutSlashes (cutQuery r.target)).length + 12 < PATH_SIZE := by
      by_contra hbad
      rw [not_or, Refused, not_or, not_not, Bool.not_eq_true] at hbad
      have hsome := h (.all .directory) (fun _ => none) fun _ _ => 0
      cases hurl : tgxHttpParserOnUrlCb (.all .directory) r.method r.target {} with
      | none =>
        rw [httpParserExecute, onUrl, hurl] at hsome
        cases hsome
      | some result => exact hbad.2 (length_of_some hbad.1.1 hbad.1.2 hurl)
    have hlines : (HeaderLines.gather (r.headers ++ r.trailers)).Fit := by
      obtain ⟨url, hurl, -⟩ := url_refused ⟨false, false, fun _ => none⟩ (Or.inr rfl : Refused r.method r.target ∨ _) {}
      exact execute_lines hurl (h _ (fun _ => none) fun _ _ => 0)
    refine ⟨htarget, hlines, ?_⟩
    by_cases href : Refused r.method r.target
    · exact .inl href
    have hserves : Serves (.all .other) (ascii "." ++ cutSlashes (cutQuery r.target)) _ :=
      ⟨by have := htarget.resolve_left href; simp [ascii]; omega, .inl ⟨rfl, rfl⟩⟩
    exact .inr (execute_dates (url_serves href rfl {} hserves) (h _ (fun _ => some 0) fun _ _ => 0)
      (if_neg (by simp [fileFound, ascii])))
  · intro h sys files date
    obtain ⟨ret, url, hurl⟩ := url_isSome sys h.target {}
    by_cases hret : ret = 0
    · subst hret
      cases hfile : statMtime files url.path with
      | none =>
        obtain ⟨after, hafter, -⟩ := execute_missing date hurl h.lines hfile
        rw [hafter]
        rfl
      | some mtime =>
        have hdates : (HeaderLines.gather r.headers).DatesFit := by
          refine h.dates.resolve_left fun href => ?_
          obtain ⟨url', hurl', hpath, -⟩ := url_refused sys (.inl href) {}
          obtain rfl := (Prod.mk.inj (Option.some.inj (hurl'.symm.trans hurl))).2
          rw [hpath, statMtime, if_pos rfl] at hfile
          cases hfile
        obtain ⟨after, hafter, -⟩ := execute_found date hurl h.lines hfile hdates
        rw [hafter]
        rfl
    · rw [execute_url hurl, if_neg hret]
      rfl

/-- The line `A:`, without a value. -/
def emptyLine : Delivery :=
  ⟨[ascii "A"], [[]], by decide, by decide⟩

/-- A page with one line more than there are elements in `headers`. -/
def manyLines : Request where
  method := ascii "GET"
  target := ascii "/"
  headers := (List.replicate 129 emptyLine).flatMap Delivery.parts
  trailers := []
  starts := by decide

theorem manyLines_overrun :
    accepts manyLines.target = true ∧
      (ascii "GET / HTTP/1.1\r\n").length + 129 * (ascii "A:\r\n").length + (ascii "\r\n").length ≤ 65534 ∧
      ¬ StaysInBuffers manyLines := by
  refine ⟨by decide, by decide, fun h => ?_⟩
  have hshort : ∀ d ∈ List.replicate 129 emptyLine, d.Short := by
    intro d hd
    rw [List.eq_of_mem_replicate hd]
    exact ⟨by decide, by decide, by decide, by decide⟩
  obtain ⟨hcount, -⟩ := HeaderLines.foldl_deliveries hshort (l := .empty) nofun fun _ _ => rfl
  have hfit := ((staysInBuffers_iff manyLines).mp h).lines
  rw [show manyLines.headers ++ manyLines.trailers = _ from List.append_nil _] at hfit
  have hle := hcount.symm.trans_le hfit.1
  rw [List.length_replicate] at hle
  exact absurd hle (by decide)

/-- The end of the header turns a 200 into a 304 at most, and keeps every status that the target has got. -/
def KeepsErrors (sys : Surroundings) (files : List UInt8 → Option Int) (date : Nat → List UInt8 → Int)
    (r : Request) : Prop :=
  ∀ ret url, tgxHttpParserOnUrlCb sys r.method r.target {} = some (ret, url) →
    ∃ ret' after, httpParserExecute sys files date r {} = some (ret', after) ∧
      (after.httpStatus = url.httpStatus ∨ url.httpStatus = .s200 ∧ after.httpStatus = .s304)

/-- The target was looked up, and the files are as they were when the header is complete: a file that was
missing is missing still, or too new for all dates, and one that was there is there. -/
structure Unchanged (sys : Surroundings) (files : List UInt8 → Option Int) (date : Nat → List UInt8 → Int)
    (r : Request) : Prop where
  lookedUp : ¬ (Refused r.method r.target ∨ sys.path = false)
  missing : Missing sys (ascii "." ++ cutSlashes (cutQuery r.target)) →
    (HeaderLines.gather (r.headers ++ r.trailers)).Fit ∧
      ∀ mtime, files (ascii "." ++ cutSlashes (cutQuery r.target)) = some mtime →
        (HeaderLines.gather r.headers).DatesFit ∧ ¬ (HeaderLines.gather r.headers).Unmodified date mtime
  served : ∀ file, Serves sys (ascii "." ++ cutSlashes (cutQuery r.target)) file →
    (HeaderLines.gather (r.headers ++ r.trailers)).Fit ∧ (files file).isSome = true ∧
      (HeaderLines.gather r.headers).DatesFit

private theorem Serves.ne_nil {sys : Surroundings} {rest file : List UInt8} (h : Serves sys (ascii "." ++ rest) file) :
    file ≠ [] := by
  rcases h.2 with ⟨-, rfl⟩ | ⟨-, -, -, ⟨-, rfl⟩ | ⟨-, -, rfl⟩⟩ <;> simp [ascii]

private theorem statMtime_ne_nil (files : List UInt8 → Option Int) {path : List UInt8} (h : path ≠ []) :
    statMtime files path = files path :=
  if_neg h

private theorem dot_ne_nil (path : List UInt8) : ascii "." ++ path ≠ [] := by
  simp [ascii]

section
variable {sys : Surroundings} {files : List UInt8 → Option Int} {date : Nat → List UInt8 → Int} {r : Request}

private theorem KeepsErrors.lookedUp (h : KeepsErrors sys files date r) :
    ¬ (Refused r.method r.target ∨ sys.path = false) := by
  intro href
  obtain ⟨url, hurl, hpath, hstatus⟩ := url_refused sys href {}
  obtain ⟨ret', after, hrun, hkept⟩ := h 0 url hurl
  have hfile : statMtime files url.path = none := by rw [hpath, statMtime, if_pos rfl]
  have hfit := execute_lines hurl (Option.isSome_of_mem hrun)
  obtain ⟨after', hafter, hmissing⟩ := execute_missing date hurl hfit hfile
  obtain rfl := (Prod.mk.inj (Option.some.inj (hafter.symm.trans hrun))).2
  rw [hmissing] at hkept
  rcases hstatus with hstatus | hstatus <;> simp [hstatus] at hkept

/-- A file that was missing must not be found unmodified. -/
theorem KeepsErrors.missing (h : KeepsErrors sys files date r)
    (hmissing : Missing sys (ascii "." ++ cutSlashes (cutQuery r.target))) :
    (HeaderLines.gather (r.headers ++ r.trailers)).Fit ∧
      ∀ mtime, files (ascii "." ++ cutSlashes (cutQuery r.target)) = some mtime →
        (HeaderLines.gather r.headers).DatesFit ∧ ¬ (HeaderLines.gather r.headers).Unmodified date mtime := by
  have hlooked := h.lookedUp
  rw [not_or, Bool.not_eq_false] at hlooked
  obtain ⟨url, hurl, hstatus, hpath⟩ := url_missing hlooked.1 hlooked.2 {} hmissing
  obtain ⟨ret', after, hrun, hkept⟩ := h 0 url hurl
  have hfit := execute_lines hurl (Option.isSome_of_mem hrun)
  refine ⟨hfit, fun mtime hfile => ?_⟩
  rw [← statMtime_ne_nil files (dot_ne_nil _), ← hpath] at hfile
  have hdates := execute_dates hurl (Option.isSome_of_mem hrun) hfile
  refine ⟨hdates, fun hnew => ?_⟩
  obtain ⟨after', hafter, hcases⟩ := execute_found date hurl hfit hfile hdates
  obtain rfl := (Prod.mk.inj (Option.some.inj (hafter.symm.trans hrun))).2
  rcases hcases with ⟨h304, -⟩ | ⟨-, hold⟩
  · simp [h304, hstatus] at hkept
  · exact hold hnew

/-- A file that was there must not be gone. -/
theorem KeepsErrors.served (h : KeepsErrors sys files date r) {file : List UInt8}
    (hserves : Serves sys (ascii "." ++ cutSlashes (cutQuery r.target)) file) :
    (HeaderLines.gather (r.headers ++ r.trailers)).Fit ∧ (files file).isSome = true ∧
      (HeaderLines.gather r.headers).DatesFit := by
  have hlooked := h.lookedUp
  rw [not_or, Bool.not_eq_false] at hlooked
  have hurl := url_serves hlooked.1 hlooked.2 {} hserves
  obtain ⟨ret', after, hrun, hkept⟩ := h 0 _ hurl
  have hfit := execute_lines hurl (Option.isSome_of_mem hrun)
  cases hfile : files file with
  | none =>
    rw [← statMtime_ne_nil files hserves.ne_nil] at hfile
    obtain ⟨after', hafter, hmissing⟩ := execute_missing date hurl hfit hfile
    obtain rfl := (Prod.mk.inj (Option.some.inj (hafter.symm.trans hrun))).2
    simp [hmissing, fileFound] at hkept
  | some mtime =>
    rw [← statMtime_ne_nil files hserves.ne_nil] at hfile
    exact ⟨hfit, rfl, execute_dates hurl (Option.isSome_of_mem hrun) hfile⟩

private theorem Unchanged.keepsErrors (h : Unchanged sys files date r) : KeepsErrors sys files date r := by
  intro ret url hurl
  have hlooked := h.lookedUp
  rw [not_or, Bool.not_eq_false] at hlooked
  rcases url_cases hlooked.1 hlooked.2 hurl with
    ⟨hmissing, rfl, hstatus, hpath⟩ | ⟨file, hserves, rfl, hpath, hstatus, -⟩ | ⟨rfl, hstatus⟩
  · obtain ⟨hfit, hnew⟩ := h.missing hmissing
    have hdot := dot_ne_nil (cutSlashes (cutQuery r.target))
    rw [← hpath] at hnew hdot
    cases hfile : files url.path with
    | none =>
      obtain ⟨after, hafter, h404⟩ := execute_missing date hurl hfit ((statMtime_ne_nil files hdot).trans hfile)
      exact ⟨0, after, hafter, .inl (h404.trans hstatus.symm)⟩
    | some mtime =>
      obtain ⟨hdates, hold⟩ := hnew mtime hfile
      obtain ⟨after, hafter, hcases⟩ :=
        execute_found date hurl hfit ((statMtime_ne_nil files hdot).trans hfile) hdates
      exact ⟨0, after, hafter, .inl (hcases.resolve_left fun hmod => hold hmod.2).1⟩
  · obtain ⟨hfit, hsome, hdates⟩ := h.served file hserves
    obtain ⟨mtime, hfile⟩ := Option.isSome_iff_exists.mp hsome
    rw [← statMtime_ne_nil files hserves.ne_nil, ← hpath] at hfile
    obtain ⟨after, hafter, hcases⟩ := execute_found date hurl hfit hfile hdates
    refine ⟨0, after, hafter, ?_⟩
    rcases hcases with ⟨h304, -⟩ | ⟨hsame, -⟩
    · exact .inr ⟨hstatus, h304⟩
    · exact .inl hsame
  · exact ⟨-1, _, (execute_url hurl).trans (if_neg (by decide)), .inl rfl⟩

end

theorem keepsErrors_iff (sys : Surroundings) (files : List UInt8 → Option Int) (date : Nat → List UInt8 → Int)
    (r : Request) : KeepsErrors sys files date r ↔ Unchanged sys files date r :=
  ⟨fun h => ⟨h.lookedUp, h.missing, fun _ => h.served⟩, Unchanged.keepsErrors⟩

def refusedPage : Request where
  method := ascii "GET"
  target := ascii "/x.php"
  headers := []
  trailers := []
  starts := by decide

/-- There is no path to look up, so that the 400 becomes a 404. -/
theorem refusedPage_changes :
    accepts refusedPage.target = true ∧
      (tgxHttpParserOnUrlCb (.all .other) refusedPage.method refusedPage.target {}).map
        (fun result => result.2.httpStatus) = some .s400 ∧
      (httpParserExecute (.all .other) (fun _ => some 0) (fun _ _ => 0) refusedPage {}).map
        (fun result => result.2.httpStatus) = some .s404 ∧
      ¬ KeepsErrors (.all .other) (fun _ => some 0) (fun _ _ => 0) refusedPage := by
  refine ⟨by decide, by decide, by decide, fun h => ?_⟩
  exact ((keepsErrors_iff _ _ _ _).mp h).lookedUp (.inl (.inr (by decide)))

end TinyosGraphics.Http
