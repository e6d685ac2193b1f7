import Mathlib.Data.List.DropRight
import TinyosGraphics.Lib.RelativePath
import TinyosGraphics.Core.Connection

/-! The request target: which ones `http_parser` passes on, and the path that
`tgx_http_parser_on_url_cb` makes of one. The server has changed to `srv_root`, so a path is resolved
from there. -/
namespace TinyosGraphics.Http
open Lib Core

/-- The states of `http_parser` inside a target; `spacesBeforeUrl` is the one in front of it. -/
inductive UrlState
  | dead
  | spacesBeforeUrl
  | schema
  | schemaSlash
  | schemaSlashSlash
  | serverStart
  | server
  | serverWithAt
  | path
  | queryStringStart
  | queryString
  | fragmentStart
  | fragment
  deriving DecidableEq

def lower (c : UInt8) : UInt8 := c ||| 0x20

def isAlpha (c : UInt8) : Bool :=
  97 ≤ lower c && lower c ≤ 122

def isMark (c : UInt8) : Bool :=
  (ascii "-_.!~*'()").contains c

def isUserinfoChar (c : UInt8) : Bool :=
  isAlpha c || isDigit c || isMark c || (ascii "%;:&=+$,").contains c

/-- The table `normal_url_char` of a strict build: what is printable, except `#` and `?`. -/
def normalUrlChar (c : UInt8) : Bool :=
  33 ≤ c && c ≤ 126 && c != 35 && c != 63

/-- The cases `s_req_server_start` and `s_req_server`. -/
def parseServerChar (ch : UInt8) : UrlState :=
  if ch = 47 then .path
  else if ch = 63 then .queryStringStart
  else if ch = 64 then .serverWithAt
  else if isUserinfoChar ch || ch == 91 || ch == 93 then .server
  else .dead

def parseUrlChar (s : UrlState) (ch : UInt8) : UrlState :=
  if (ascii " \r\n\t").contains ch || ch == 12 then .dead
  else
    match s with
    | .spacesBeforeUrl =>
      if ch = 47 ∨ ch = 42 then .path else if isAlpha ch then .schema else .dead
    | .schema => if isAlpha ch then .schema else if ch = 58 then .schemaSlash else .dead
    | .schemaSlash => if ch = 47 then .schemaSlashSlash else .dead
    | .schemaSlashSlash => if ch = 47 then .serverStart else .dead
    | .serverWithAt => if ch = 64 then .dead else parseServerChar ch
    | .serverStart | .server => parseServerChar ch
    | .path =>
      if normalUrlChar ch then .path
      else if ch = 63 then .queryStringStart
      else if ch = 35 then .fragmentStart
      else .dead
    | .queryStringStart | .queryString =>
      if normalUrlChar ch then .queryString
      else if ch = 63 then .queryString
      else if ch = 35 then .fragmentStart
      else .dead
    | .fragmentStart =>
      if normalUrlChar ch then .fragment
      else if ch = 63 then .fragment
      else if ch = 35 then .fragmentStart
      else .dead
    | .fragment => if normalUrlChar ch ∨ ch = 63 ∨ ch = 35 then .fragment else .dead
    | .dead => .dead

/-- The states in which a blank or the end of the line calls `on_url`. -/
def UrlState.complete : UrlState → Bool
  | .server | .serverWithAt | .path | .queryStringStart | .queryString | .fragmentStart | .fragment => true
  | .dead | .spacesBeforeUrl | .schema | .schemaSlash | .schemaSlashSlash | .serverStart => false

/-- The targets of methods other than `CONNECT` that `http_parser_execute` passes to `on_url`. -/
def accepts (target : List UInt8) : Bool :=
  (target.foldl parseUrlChar .spacesBeforeUrl).complete

/-- What `stat` finds under a path. -/
inductive FileType
  | directory
  | other
  deriving DecidableEq

/-- What the callback meets: whether its two allocations succeed, and the files. -/
structure Surroundings where
  path : Bool
  pathTmp : Bool
  stat : List UInt8 → Option FileType

/-- The first loop: the text ends where its first `?` stands. -/
def cutQuery (path : List UInt8) : List UInt8 :=
  path.takeWhile (· != 63)

/-- The second loop takes off the last byte as long as it is a `/` and not the first byte. -/
def cutSlashes : List UInt8 → List UInt8
  | [] => []
  | b :: rest => b :: rest.rdropWhile (· == 47)

/-- The server-side scripts it does not run: there is such an ending, with no `/` behind its first occurrence. -/
def unsupported (path : List UInt8) : Bool :=
  match ((strstr path (ascii ".php")).or (strstr path (ascii ".aspx"))).or (strstr path (ascii ".jsp")) with
  | some p => !(path.drop p).contains 47
  | none => false

def tgxMimeType (path : List UInt8) : MimeType :=
  let has (ending : String) : Bool := (strstr path (ascii ending)).isSome
  if has ".html" || has ".htm" then .html
  else if has ".jpeg" then .jpeg
  else if has ".jpg" then .jpg
  else if has ".png" then .png
  else if has ".gif" then .gif
  else if has ".ico" then .ico
  else if has ".js" then .javascript
  else if has ".css" then .css
  else .plain

/-- The size of `tconn->http_parser->path`, and of `path_tmp`. -/
def PATH_SIZE : Nat := 4096

/-- The `while (1)` over a directory's index files. -/
def findIndex (stat : List UInt8 → Option FileType) (path : List UInt8) : Option (Option (List UInt8)) := do
  let pathTmp ← strcpy PATH_SIZE (path ++ ascii "/index.html")
  if (stat pathTmp).isSome then return some pathTmp
  let pathTmp ← strcpy PATH_SIZE (path ++ ascii "/index.htm")
  if (stat pathTmp).isSome then return some pathTmp
  return none

def fileFound (parser : HttpParser) : HttpParser :=
  { parser with mimeType := tgxMimeType parser.path, httpStatus := .s200 }

/-- `tgx_http_parser_on_url_cb` for the method of that name: its result, and what it leaves in
`tconn->http_parser`. `none` where a buffer is overrun. -/
def tgxHttpParserOnUrlCb (sys : Surroundings) (method target : List UInt8) (parser : HttpParser) :
    Option (Int × HttpParser) :=
  if method = ascii "GET" ∨ method = ascii "POST" then
    let parser := { parser with httpMethod := method }
    if !sys.path then some (0, { parser with httpStatus := .s500 })
    else
      let path := cutSlashes (cutQuery target)
      if unsupported path then some (0, { parser with httpStatus := .s400 })
      else do
        let path ← strcpy PATH_SIZE (ascii "." ++ path)
        let parser := { parser with path := path }
        match sys.stat path with
        | none => return (0, { parser with httpStatus := .s404 })
        | some .other => return (0, fileFound parser)
        | some .directory =>
          -- the only exit that leaves `http_status` as it was
          if !sys.pathTmp then return (-1, parser)
          match ← findIndex sys.stat path with
          | none => return (0, { parser with httpStatus := .s404 })
          | some path => return (0, fileFound { parser with path := path })
  else some (0, { parser with httpStatus := .s400 })

/-- A path that starts at the current directory and never climbs above it. -/
def Confined (path : List UInt8) : Prop :=
  (path = ascii "." ∨ ascii "./" <+: path) ∧ (Component.resolve 0 (components path)).isSome

/-- The callback keeps within its buffers, and a path that it leaves with status 200 is confined. -/
def KeepsInside (result : Option (Int × HttpParser)) : Prop :=
  ∃ ret parser, result = some (ret, parser) ∧ (parser.httpStatus = .s200 → Confined parser.path)

/-- The targets that do no harm: refused for their ending, or short, with a `/` first, and with no more
`..` than names in any beginning of the path. -/
def Harmless (target : List UInt8) : Prop :=
  let path := cutSlashes (cutQuery target)
  unsupported path ∨
    (path.length + 12 < PATH_SIZE ∧ [47] <+: path ∧
      ∀ before, before <+: components path → before.count .up ≤ before.count .down)

private theorem foldl_dead (target : List UInt8) : target.foldl parseUrlChar .dead = .dead := by
  induction target with
  | nil => rfl
  | cons b rest ih =>
    have hstep : parseUrlChar .dead b = .dead := by
      unfold parseUrlChar
      split <;> rfl
    rw [List.foldl_cons, hstep, ih]

private theorem exists_cons_of_accepts {target : List UInt8} (h : accepts target = true) :
    ∃ b rest, cutSlashes (cutQuery target) = b :: rest := by
  cases target with
  | nil => exact absurd h (by decide)
  | cons b rest =>
    have hb : b ≠ 63 := by
      rintro rfl
      rw [accepts, List.foldl_cons, show parseUrlChar .spacesBeforeUrl 63 = .dead by decide, foldl_dead] at h
      exact absurd h (by decide)
    rw [cutQuery, List.takeWhile_cons_of_pos (by simpa using hb)]
    exact ⟨b, _, rfl⟩

/-- A dot in front makes a path confined that starts with a `/` and never has more `..` than names behind it. -/
private theorem confined_dot {b : UInt8} {rest : List UInt8} :
    Confined (ascii "." ++ b :: rest) ↔
      [47] <+: b :: rest ∧
        ∀ before, before <+: components (b :: rest) → before.count .up ≤ before.count .down := by
  have hstart : (ascii "." ++ b :: rest = ascii "." ∨ ascii "./" <+: ascii "." ++ b :: rest) ↔ [47] <+: b :: rest := by
    constructor
    · rintro (h | h)
      · exact absurd (congrArg List.length h) (by simp [ascii])
      · exact (List.prefix_cons_inj _).mp h
    · intro h
      exact .inr ((List.prefix_cons_inj _).mpr h)
  rw [Confined, hstart]
  refine and_congr_right fun hslash => ?_
  obtain rfl : 47 = b := (List.cons_prefix_cons.mp hslash).1
  have hdot : components (ascii "." ++ 47 :: rest) = .stay :: components rest := by
    rw [components_append]
    rfl
  have hroot : components (47 :: rest) = .stay :: components rest := components_append [] rest
  rw [hdot, ← hroot, Component.resolve_isSome_iff]
  simp

/-- A file of a confined directory is confined. -/
theorem Confined.file {path name : List UInt8} (h : Confined path) (hslash : 47 ∉ name)
    (hname : Component.ofName name = .down) : Confined (path ++ 47 :: name) := by
  obtain ⟨hstart, hsome⟩ := h
  refine ⟨.inr ?_, ?_⟩
  · rcases hstart with rfl | hstart
    · exact List.prefix_append (ascii "./") name
    · exact hstart.trans (List.prefix_append path _)
  · obtain ⟨depth, hdepth⟩ := Option.isSome_iff_exists.mp hsome
    rw [components_append, components_name hslash, hname, Component.resolve_append, hdepth, Option.bind_some,
      Component.resolve_down]
    cases depth <;> rfl

theorem findIndex_eq (path : List UInt8) (h : path.length + 11 < PATH_SIZE)
    (stat : List UInt8 → Option FileType) :
    findIndex stat path =
      some (if (stat (path ++ ascii "/index.html")).isSome then some (path ++ ascii "/index.html")
        else if (stat (path ++ ascii "/index.htm")).isSome then some (path ++ ascii "/index.htm")
        else none) := by
  have hhtml : strcpy PATH_SIZE (path ++ ascii "/index.html") = some (path ++ ascii "/index.html") :=
    if_pos (by simpa [ascii] using h)
  have hhtm : strcpy PATH_SIZE (path ++ ascii "/index.htm") = some (path ++ ascii "/index.htm") :=
    if_pos (by simp [ascii]; omega)
  simp only [findIndex, hhtml, hhtm, Option.bind_eq_bind, Option.bind_some]
  split
  · rfl
  · split <;> rfl

private theorem Confined.findIndex {path found : List UInt8} (h : Confined path) (hlen : path.length + 11 < PATH_SIZE)
    {stat : List UInt8 → Option FileType} (hfound : findIndex stat path = some (some found)) : Confined found := by
  rw [findIndex_eq path hlen] at hfound
  split at hfound
  · obtain rfl := Option.some.inj (Option.some.inj hfound)
    exact h.file (by decide) (by decide)
  · split at hfound
    · obtain rfl := Option.some.inj (Option.some.inj hfound)
      exact h.file (by decide) (by decide)
    · cases hfound

theorem KeepsInside.refused {ret : Int} {parser : HttpParser} (h : parser.httpStatus ≠ .s200) :
    KeepsInside (some (ret, parser)) :=
  ⟨ret, parser, rfl, fun hs => absurd hs h⟩

/-- With a path that is not refused, and is short and confined behind its dot, whatever `stat` finds. -/
private theorem keepsInside_of_confined {method target : List UInt8} (hm : method = ascii "GET" ∨ method = ascii "POST")
    (hlen : (cutSlashes (cutQuery target)).length + 12 < PATH_SIZE)
    (h : Confined (ascii "." ++ cutSlashes (cutQuery target))) (sys : Surroundings) (parser : HttpParser) :
    KeepsInside (tgxHttpParserOnUrlCb sys method target parser) := by
  have hdot : strcpy PATH_SIZE (ascii "." ++ cutSlashes (cutQuery target)) =
      some (ascii "." ++ cutSlashes (cutQuery target)) := if_pos (by simp [ascii]; omega)
  simp only [tgxHttpParserOnUrlCb, if_pos hm, hdot, Option.bind_eq_bind, Option.bind_some]
  split
  · exact .refused (by simp)
  split
  · exact .refused (by simp)
  split
  · exact .refused (by simp)
  · exact ⟨_, _, rfl, fun _ => h⟩
  split
  · exact ⟨_, _, rfl, fun _ => h⟩
  have hfound := findIndex_eq (ascii "." ++ cutSlashes (cutQuery target)) (by simp [ascii]; omega) sys.stat
  obtain ⟨found, hfound⟩ : ∃ found, findIndex sys.stat (ascii "." ++ cutSlashes (cutQuery target)) = some found :=
    ⟨_, hfound⟩
  rw [hfound, Option.bind_some]
  cases found with
  | none => exact .refused (by simp)
  | some found => exact ⟨_, _, rfl, fun _ => h.findIndex (by simp [ascii]; omega) hfound⟩

/-- The targets that are answered without a look at the files. -/
def Refused (method target : List UInt8) : Prop :=
  ¬ (method = ascii "GET" ∨ method = ascii "POST") ∨ unsupported (cutSlashes (cutQuery target)) = true

/-- There is no file at a path, and no index file in a directory there. -/
def Missing (sys : Surroundings) (path : List UInt8) : Prop :=
  path.length < PATH_SIZE ∧
    (sys.stat path = none ∨
      sys.stat path = some .directory ∧ sys.pathTmp = true ∧ path.length + 11 < PATH_SIZE ∧
        sys.stat (path ++ ascii "/index.html") = none ∧ sys.stat (path ++ ascii "/index.htm") = none)

/-- The file at a path, or the index file of a directory there. -/
def Serves (sys : Surroundings) (path file : List UInt8) : Prop :=
  path.length < PATH_SIZE ∧
    (sys.stat path = some .other ∧ file = path ∨
      sys.stat path = some .directory ∧ sys.pathTmp = true ∧ path.length + 11 < PATH_SIZE ∧
        ((sys.stat (path ++ ascii "/index.html")).isSome ∧ file = path ++ ascii "/index.html" ∨
          sys.stat (path ++ ascii "/index.html") = none ∧
            (sys.stat (path ++ ascii "/index.htm")).isSome ∧ file = path ++ ascii "/index.htm"))

theorem url_refused (sys : Surroundings) {method target : List UInt8}
    (h : Refused method target ∨ sys.path = false) (parser : HttpParser) :
    ∃ url, tgxHttpParserOnUrlCb sys method target parser = some (0, url) ∧ url.path = parser.path ∧
      (url.httpStatus = .s400 ∨ url.httpStatus = .s500) := by
  rw [tgxHttpParserOnUrlCb]
  split
  · rename_i hm
    cases hmem : sys.path with
    | false => exact ⟨_, rfl, rfl, .inr rfl⟩
    | true =>
      obtain hbad | hsup := h.resolve_right (by simp [hmem])
      · exact absurd hm hbad
      · simp only [Bool.not_true, Bool.false_eq_true, if_false, hsup, if_true]
        exact ⟨_, rfl, rfl, .inl rfl⟩
  · exact ⟨_, rfl, rfl, .inl rfl⟩

/-- The callback behind its refusals. -/
theorem url_served {sys : Surroundings} {method target : List UInt8} (h : ¬ Refused method target)
    (hmem : sys.path = true) (parser : HttpParser) :
    tgxHttpParserOnUrlCb sys method target parser =
      (do
        let path ← strcpy PATH_SIZE (ascii "." ++ cutSlashes (cutQuery target))
        let parser := { parser with httpMethod := method, path := path }
        match sys.stat path with
        | none => return (0, { parser with httpStatus := .s404 })
        | some .other => return (0, fileFound parser)
        | some .directory =>
          if !sys.pathTmp then return (-1, parser)
          match ← findIndex sys.stat path with
          | none => return (0, { parser with httpStatus := .s404 })
          | some path => return (0, fileFound { parser with path := path })) := by
  rw [Refused, not_or, not_not, Bool.not_eq_true] at h
  simp only [tgxHttpParserOnUrlCb, if_pos h.1, hmem, h.2, Bool.not_true, Bool.false_eq_true, if_false]

private theorem strcpy_some {size : Nat} {text copy : List UInt8} (h : strcpy size text = some copy) :
    copy = text ∧ text.length < size := by
  unfold strcpy at h
  split at h
  · rename_i hlt
    exact ⟨(Option.some.inj h).symm, hlt⟩
  · cases h

private theorem findIndex_some {stat : List UInt8 → Option FileType} {path : List UInt8} {found : Option (List UInt8)}
    (h : findIndex stat path = some found) : path.length + 11 < PATH_SIZE := by
  unfold findIndex at h
  cases hcopy : strcpy PATH_SIZE (path ++ ascii "/index.html") with
  | none =>
    rw [hcopy] at h
    cases h
  | some copy => simpa [ascii] using (strcpy_some hcopy).2

/-- What the callback leaves of a target that it looks up. -/
theorem url_cases {sys : Surroundings} {method target : List UInt8} (h : ¬ Refused method target)
    (hmem : sys.path = true) {parser url : HttpParser} {ret : Int}
    (heq : tgxHttpParserOnUrlCb sys method target parser = some (ret, url)) :
    (Missing sys (ascii "." ++ cutSlashes (cutQuery target)) ∧ ret = 0 ∧ url.httpStatus = .s404 ∧
        url.path = ascii "." ++ cutSlashes (cutQuery target)) ∨
      (∃ file, Serves sys (ascii "." ++ cutSlashes (cutQuery target)) file ∧ ret = 0 ∧ url.path = file ∧
        url.httpStatus = .s200 ∧ url.mimeType = tgxMimeType file) ∨
      (ret = -1 ∧ url.httpStatus = parser.httpStatus) := by
  rw [url_served h hmem] at heq
  obtain ⟨path, hcopy, heq⟩ := Option.bind_eq_some_iff.mp heq
  obtain ⟨rfl, hlen⟩ := strcpy_some hcopy
  split at heq
  · rename_i hstat
    obtain ⟨rfl, rfl⟩ := Prod.mk.inj (Option.some.inj heq)
    exact .inl ⟨⟨hlen, .inl hstat⟩, rfl, rfl, rfl⟩
  · rename_i hstat
    obtain ⟨rfl, rfl⟩ := Prod.mk.inj (Option.some.inj heq)
    exact .inr (.inl ⟨_, ⟨hlen, .inl ⟨hstat, rfl⟩⟩, rfl, rfl, rfl, rfl⟩)
  · rename_i hstat
    cases htmp : sys.pathTmp with
    | false =>
      rw [htmp] at heq
      obtain ⟨rfl, rfl⟩ := Prod.mk.inj (Option.some.inj heq)
      exact .inr (.inr ⟨rfl, rfl⟩)
    | true =>
      rw [htmp] at heq
      obtain ⟨found, hfound, heq⟩ := Option.bind_eq_some_iff.mp heq
      have hfit := findIndex_some hfound
      rw [findIndex_eq _ hfit] at hfound
      obtain rfl := Option.some.inj hfound
      split at heq
      · rename_i hnone
        obtain ⟨rfl, rfl⟩ := Prod.mk.inj (Option.some.inj heq)
        split at hnone
        · cases hnone
        split at hnone
        · cases hnone
        · rename_i hhtml hhtm
          exact .inl ⟨⟨hlen, .inr ⟨hstat, htmp, hfit, Option.not_isSome_iff_eq_none.mp hhtml,
            Option.not_isSome_iff_eq_none.mp hhtm⟩⟩, rfl, rfl, rfl⟩
      · rename_i file hsome
        obtain ⟨rfl, rfl⟩ := Prod.mk.inj (Option.some.inj heq)
        refine .inr (.inl ⟨file, ⟨hlen, .inr ⟨hstat, htmp, hfit, ?_⟩⟩, rfl, rfl, rfl, rfl⟩)
        split at hsome
        · rename_i hhtml
          exact .inl ⟨hhtml, (Option.some.inj hsome).symm⟩
        split at hsome
        · rename_i hhtml hhtm
          exact .inr ⟨Option.not_isSome_iff_eq_none.mp hhtml, hhtm, (Option.some.inj hsome).symm⟩
        · cases hsome

theorem url_missing {sys : Surroundings} {method target : List UInt8} (h : ¬ Refused method target)
    (hmem : sys.path = true) (parser : HttpParser)
    (hmissing : Missing sys (ascii "." ++ cutSlashes (cutQuery target))) :
    ∃ url, tgxHttpParserOnUrlCb sys method target parser = some (0, url) ∧ url.httpStatus = .s404 ∧
      url.path = ascii "." ++ cutSlashes (cutQuery target) := by
  obtain ⟨hlen, hmissing⟩ := hmissing
  have hcopy : strcpy PATH_SIZE (ascii "." ++ cutSlashes (cutQuery target)) = some _ := if_pos hlen
  rw [url_served h hmem, hcopy]
  rcases hmissing with hstat | ⟨hstat, htmp, hfit, hhtml, hhtm⟩
  · exact ⟨_, by simp only [Option.bind_eq_bind, Option.bind_some, hstat]; rfl, rfl, rfl⟩
  · have hfound := findIndex_eq _ hfit sys.stat
    rw [hhtml, hhtm] at hfound
    exact ⟨_, by simp only [Option.bind_eq_bind, Option.bind_some, hstat, htmp, hfound]; rfl, rfl, rfl⟩

theorem url_serves {sys : Surroundings} {method target : List UInt8} (h : ¬ Refused method target)
    (hmem : sys.path = true) (parser : HttpParser) {file : List UInt8}
    (hserves : Serves sys (ascii "." ++ cutSlashes (cutQuery target)) file) :
    tgxHttpParserOnUrlCb sys method target parser =
      some (0, fileFound { parser with httpMethod := method, path := file }) := by
  obtain ⟨hlen, hserves⟩ := hserves
  have hcopy : strcpy PATH_SIZE (ascii "." ++ cutSlashes (cutQuery target)) = some _ := if_pos hlen
  rw [url_served h hmem, hcopy]
  rcases hserves with ⟨hstat, rfl⟩ | ⟨hstat, htmp, hfit, hserves⟩
  · simp only [Option.bind_eq_bind, Option.bind_some, hstat]
    rfl
  · have hfound := findIndex_eq _ hfit sys.stat
    simp only [Option.bind_eq_bind, Option.bind_some, hstat, htmp]
    rcases hserves with ⟨hhtml, rfl⟩ | ⟨hhtml, hhtm, rfl⟩
    · rw [if_pos hhtml] at hfound
      rw [hfound]
      rfl
    · rw [if_neg (Option.not_isSome_iff_eq_none.mpr hhtml), if_pos hhtm] at hfound
      rw [hfound]
      rfl

/-- Files of one type everywhere, and memory for both buffers. -/
def Surroundings.all (type : FileType) : Surroundings :=
  ⟨true, true, fun _ => some type⟩

/-- Where there is a file under every path, the callback leaves the target's own path. -/
private theorem confined_of_keepsInside {method target : List UInt8}
    (hm : method = ascii "GET" ∨ method = ascii "POST") {parser : HttpParser}
    (hsup : unsupported (cutSlashes (cutQuery target)) = false)
    (h : KeepsInside (tgxHttpParserOnUrlCb (.all .other) method target parser)) :
    Confined (ascii "." ++ cutSlashes (cutQuery target)) := by
  obtain ⟨ret, left, heq, hconf⟩ := h
  simp only [tgxHttpParserOnUrlCb, if_pos hm, Surroundings.all, Bool.not_true, Bool.false_eq_true, if_false, hsup,
    strcpy] at heq
  split at heq
  · obtain ⟨-, rfl⟩ := Prod.mk.inj (Option.some.inj heq)
    exact hconf rfl
  · cases heq

/-- Where there is a directory under every path, the name of the index file has to fit behind it. -/
theorem length_of_some {method target : List UInt8}
    (hm : method = ascii "GET" ∨ method = ascii "POST") {parser : HttpParser} {result : Int × HttpParser}
    (hsup : unsupported (cutSlashes (cutQuery target)) = false)
    (heq : tgxHttpParserOnUrlCb (.all .directory) method target parser = some result) :
    (cutSlashes (cutQuery target)).length + 12 < PATH_SIZE := by
  simp only [tgxHttpParserOnUrlCb, if_pos hm, Surroundings.all, Bool.not_true, Bool.false_eq_true, if_false, hsup,
    strcpy, findIndex] at heq
  split at heq
  · rw [Option.bind_eq_bind, Option.bind_some] at heq
    by_contra hlong
    rw [if_neg (by simp [ascii]; omega)] at heq
    cases heq
  · cases heq

/-- The callback stays inside the root for all files, and in its buffers, exactly for the harmless targets. -/
theorem stays_inside_iff {method target : List UInt8} (hm : method = ascii "GET" ∨ method = ascii "POST")
    (h : accepts target = true) (parser : HttpParser) :
    (∀ sys, KeepsInside (tgxHttpParserOnUrlCb sys method target parser)) ↔ Harmless target := by
  obtain ⟨b, rest, hpath⟩ := exists_cons_of_accepts h
  cases hsup : unsupported (cutSlashes (cutQuery target)) with
  | true =>
    refine iff_of_true (fun sys => ?_) (.inl hsup)
    simp only [tgxHttpParserOnUrlCb, if_pos hm, hsup, if_true]
    split <;> exact .refused (by simp)
  | false =>
    constructor
    · intro hall
      have hconf := confined_of_keepsInside hm hsup (hall (.all .other))
      rw [hpath, confined_dot, ← hpath] at hconf
      obtain ⟨_, _, heq, -⟩ := hall (.all .directory)
      exact .inr ⟨length_of_some hm hsup heq, hconf⟩
    · rintro (hbad | ⟨hlen, hconf⟩) sys
      · exact absurd hbad (by simp [hsup])
      · refine keepsInside_of_confined hm hlen ?_ sys parser
        rw [hpath, confined_dot, ← hpath]
        exact hconf

/-- A page in a directory that is left and entered again on the way. -/
theorem stays_inside_index :
    KeepsInside (tgxHttpParserOnUrlCb (.all .other) (ascii "GET") (ascii "/a/../b/?x=1") {}) := by
  have haccepted : accepts (ascii "/a/../b/?x=1") = true := by decide
  refine (stays_inside_iff (.inl rfl) haccepted {}).mpr (.inr ⟨by decide, by decide, fun before hb => ?_⟩) _
  have hall : ∀ before ∈ (components (cutSlashes (cutQuery (ascii "/a/../b/?x=1")))).inits,
      before.count .up ≤ before.count .down := by decide
  exact hall before (List.mem_inits _ _ |>.mpr hb)

/-- A file next to the root. -/
theorem climbs_out :
    accepts (ascii "/../x") = true ∧
      (tgxHttpParserOnUrlCb (.all .other) (ascii "GET") (ascii "/../x") {}).map
        (fun result => (result.2.httpStatus, result.2.path)) = some (.s200, ascii "./../x") ∧
      ¬ Confined (ascii "./../x") := by
  refine ⟨by decide, by decide, fun hconf => ?_⟩
  have hout : Component.resolve 0 (components (ascii "./../x")) = none := by decide
  have hsome := hconf.2
  rw [hout] at hsome
  cases hsome

end TinyosGraphics.Http
