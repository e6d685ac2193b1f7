import TinyosGraphics.Http.UrlCallback

/-! The header lines of a request in the arrays of `tgx_http_parser_s`, from the pieces in which `http_parser`
delivers them. -/
namespace TinyosGraphics.Http
open Lib Core

def TGX_MAX_HEADERS : Nat := 128

def TGX_MAX_ELEMENT_SIZE : Nat := 1024

/-- The values of `last_header_element`. -/
inductive HeaderElement
  | none
  | field
  | value
  deriving DecidableEq

/-- `tgx_http_parser_s` with its header lines, a name and a value each. -/
structure TgxHttpParser extends HttpParser where
  numHeaders : Nat := 0
  lastHeaderElement : HeaderElement := .none
  headers : List (Block × Block) :=
    List.replicate TGX_MAX_HEADERS (.calloc TGX_MAX_ELEMENT_SIZE, .calloc TGX_MAX_ELEMENT_SIZE)
  deriving DecidableEq

/-- A write to `headers[n - 1]`. -/
def writeElement (headers : List (Block × Block)) (n : Nat) (write : Block × Block → Option (Block × Block)) :
    Option (List (Block × Block)) :=
  match n with
  | 0 => none
  | i + 1 => headers[i]?.bind fun element => (write element).map (headers.set i)

/-- The `strncat` to `headers[i][0]`. -/
def catName (text : List UInt8) (element : Block × Block) : Option (Block × Block) :=
  (element.1.strncat text).map fun name => (name, element.2)

/-- The `strncat` to `headers[i][1]`. -/
def catValue (text : List UInt8) (element : Block × Block) : Option (Block × Block) :=
  (element.2.strncat text).map fun value => (element.1, value)

def tgxHttpParserOnHeaderFieldCb (text : List UInt8) (parser : TgxHttpParser) : Option (Int × TgxHttpParser) := do
  let numHeaders := if parser.lastHeaderElement ≠ .field then parser.numHeaders + 1 else parser.numHeaders
  let headers ← writeElement parser.headers numHeaders (catName text)
  return (0, { parser with numHeaders := numHeaders, headers := headers, lastHeaderElement := .field })

def tgxHttpParserOnHeaderValueCb (text : List UInt8) (parser : TgxHttpParser) : Option (Int × TgxHttpParser) := do
  let headers ← writeElement parser.headers parser.numHeaders (catValue text)
  return (0, { parser with headers := headers, lastHeaderElement := .value })

/-- What `http_parser` hands over of a header line. -/
inductive HeaderPart
  | field (text : List UInt8)
  | value (text : List UInt8)
  deriving DecidableEq

def HeaderPart.isField : HeaderPart → Bool
  | .field _ => true
  | .value _ => false

/-- `http_parser` goes on after a callback that returned 0. -/
def andThen (result : Option (Int × TgxHttpParser)) (next : TgxHttpParser → Option (Int × TgxHttpParser)) :
    Option (Int × TgxHttpParser) :=
  result.bind fun (ret, parser) => if ret = 0 then next parser else some (ret, parser)

@[simp] theorem andThen_zero (parser : TgxHttpParser) (next : TgxHttpParser → Option (Int × TgxHttpParser)) :
    andThen (some (0, parser)) next = next parser :=
  rfl

@[simp] theorem andThen_none (next : TgxHttpParser → Option (Int × TgxHttpParser)) : andThen none next = none :=
  rfl

def onHeaderPart : HeaderPart → TgxHttpParser → Option (Int × TgxHttpParser)
  | .field text => tgxHttpParserOnHeaderFieldCb text
  | .value text => tgxHttpParserOnHeaderValueCb text

def onHeaderParts : List HeaderPart → TgxHttpParser → Option (Int × TgxHttpParser)
  | [], parser => some (0, parser)
  | part :: rest, parser => andThen (onHeaderPart part parser) (onHeaderParts rest)

abbrev HeaderLine := List UInt8 × List UInt8

/-- Header lines that arrive in parts, in arrays without bounds. -/
structure HeaderLines where
  count : Nat
  line : Nat → HeaderLine
  last : HeaderElement

namespace HeaderLines

def empty : HeaderLines :=
  ⟨0, fun _ => ([], []), .none⟩

/-- The line that a name fragment belongs to: the last one, or a new one behind a value. -/
def current (l : HeaderLines) : Nat :=
  if l.last = .field then l.count - 1 else l.count

def add (l : HeaderLines) : HeaderPart → HeaderLines
  | .field text =>
    let i := l.current
    ⟨i + 1, Function.update l.line i ((l.line i).1 ++ text.takeWhile (· != 0), (l.line i).2), .field⟩
  | .value text =>
    let i := l.count - 1
    ⟨l.count, Function.update l.line i ((l.line i).1, (l.line i).2 ++ text.takeWhile (· != 0)), .value⟩

def gather (parts : List HeaderPart) : HeaderLines :=
  parts.foldl add empty

/-- At most 128 lines, with names and values of at most 1023 bytes. -/
def Fit (l : HeaderLines) : Prop :=
  l.count ≤ TGX_MAX_HEADERS ∧
    ∀ i < l.count, (l.line i).1.length < TGX_MAX_ELEMENT_SIZE ∧ (l.line i).2.length < TGX_MAX_ELEMENT_SIZE

theorem gather_append (parts more : List HeaderPart) : gather (parts ++ more) = more.foldl add (gather parts) :=
  List.foldl_append

private theorem count_add_pos {l : HeaderLines} {part : HeaderPart} (hpart : part.isField = true ∨ 0 < l.count) :
    0 < (l.add part).count := by
  cases part with
  | field text => exact Nat.succ_pos _
  | value text => exact hpart.resolve_left (by simp [HeaderPart.isField])

private theorem count_le_add (l : HeaderLines) (part : HeaderPart) : l.count ≤ (l.add part).count := by
  cases part with
  | field text =>
    simp only [add, current]
    split <;> omega
  | value text => exact le_rfl

private theorem length_le_add (l : HeaderLines) (part : HeaderPart) (i : Nat) :
    (l.line i).1.length ≤ ((l.add part).line i).1.length ∧ (l.line i).2.length ≤ ((l.add part).line i).2.length := by
  cases part <;> simp only [add, Function.update_apply] <;> split <;> simp_all

private theorem fit_of_add {l : HeaderLines} {part : HeaderPart} (h : (l.add part).Fit) : l.Fit := by
  refine ⟨(count_le_add l part).trans h.1, fun i hi => ?_⟩
  have hadd := h.2 i (hi.trans_le (count_le_add l part))
  have hle := length_le_add l part i
  exact ⟨hle.1.trans_lt hadd.1, hle.2.trans_lt hadd.2⟩

theorem fit_of_foldl {parts : List HeaderPart} {l : HeaderLines} (h : (parts.foldl add l).Fit) : l.Fit := by
  induction parts generalizing l with
  | nil => exact h
  | cons part rest ih => exact fit_of_add (ih h)

end HeaderLines

/-- A name and a value in their arrays. -/
structure HoldsLine (element : Block × Block) (line : HeaderLine) : Prop where
  nameSize : element.1.size = TGX_MAX_ELEMENT_SIZE
  valueSize : element.2.size = TGX_MAX_ELEMENT_SIZE
  name : element.1.Holds line.1
  value : element.2.Holds line.2

/-- `tgx_http_parser_s` with the lines that have come so far. -/
structure HoldsLines (parser : TgxHttpParser) (l : HeaderLines) : Prop where
  numHeaders : parser.numHeaders = l.count
  last : parser.lastHeaderElement = l.last
  started : l.last = .field → 0 < l.count
  length : parser.headers.length = TGX_MAX_HEADERS
  lines : ∀ i element, parser.headers[i]? = some element → HoldsLine element (l.line i)

theorem holdsLines_empty (url : HttpParser) : HoldsLines { url with } .empty := by
  refine ⟨rfl, rfl, nofun, List.length_replicate, fun i element he => ?_⟩
  obtain ⟨-, rfl⟩ := List.mem_replicate.mp (List.mem_of_getElem? he)
  have hzero : (Block.calloc TGX_MAX_ELEMENT_SIZE).Holds [] := Block.holds_calloc (by decide)
  exact ⟨rfl, rfl, hzero, hzero⟩

private theorem writeElement_some {headers : List (Block × Block)} {line : Nat → HeaderLine}
    (h : ∀ i element, headers[i]? = some element → HoldsLine element (line i)) {i : Nat}
    (hi : i < headers.length) {write : Block × Block → Option (Block × Block)} {after : HeaderLine}
    (hw : ∀ element, HoldsLine element (line i) → ∃ element', write element = some element' ∧
      HoldsLine element' after) :
    ∃ headers', writeElement headers (i + 1) write = some headers' ∧ headers'.length = headers.length ∧
      ∀ j element, headers'[j]? = some element → HoldsLine element (Function.update line i after j) := by
  obtain ⟨element', hwrite, hholds⟩ := hw headers[i] (h i _ (List.getElem?_eq_getElem hi))
  refine ⟨headers.set i element', ?_, List.length_set, fun j element hj => ?_⟩
  · simp only [writeElement, List.getElem?_eq_getElem hi, Option.bind_some, hwrite, Option.map_some]
  · rw [List.getElem?_set] at hj
    by_cases hij : i = j
    · subst hij
      rw [if_pos rfl, if_pos hi] at hj
      obtain rfl := Option.some.inj hj
      rwa [Function.update_self]
    · rw [if_neg hij] at hj
      rw [Function.update_of_ne (Ne.symm hij)]
      exact h j element hj

private theorem writeElement_none {headers : List (Block × Block)} {i : Nat}
    {write : Block × Block → Option (Block × Block)}
    (h : ∀ element, headers[i]? = some element → write element = none) : writeElement headers (i + 1) write = none := by
  rw [writeElement]
  cases he : headers[i]? with
  | none => rfl
  | some element => rw [Option.bind_some, h element he, Option.map_none]

private theorem HoldsLines.numHeaders_field {parser : TgxHttpParser} {l : HeaderLines} (h : HoldsLines parser l) :
    (if parser.lastHeaderElement ≠ .field then parser.numHeaders + 1 else parser.numHeaders) = l.current + 1 := by
  have hstarted := h.started
  rw [h.last, h.numHeaders, HeaderLines.current]
  by_cases hlast : l.last = .field
  · have := hstarted hlast
    simp only [hlast, ne_eq, not_true_eq_false, if_false, if_true]
    omega
  · simp [hlast]

private theorem HoldsLine.catName {element : Block × Block} {line : HeaderLine} (h : HoldsLine element line)
    {text : List UInt8} (hfit : (line.1 ++ text.takeWhile (· != 0)).length < TGX_MAX_ELEMENT_SIZE) :
    ∃ element', catName text element = some element' ∧
      HoldsLine element' (line.1 ++ text.takeWhile (· != 0), line.2) := by
  obtain ⟨name, hcat, hsize, hholds⟩ := h.name.strncat (hfit.trans_eq h.nameSize.symm)
  exact ⟨(name, element.2), by rw [Http.catName, hcat, Option.map_some],
    ⟨hsize.trans h.nameSize, h.valueSize, hholds, h.value⟩⟩

private theorem HoldsLine.catValue {element : Block × Block} {line : HeaderLine} (h : HoldsLine element line)
    {text : List UInt8} (hfit : (line.2 ++ text.takeWhile (· != 0)).length < TGX_MAX_ELEMENT_SIZE) :
    ∃ element', catValue text element = some element' ∧
      HoldsLine element' (line.1, line.2 ++ text.takeWhile (· != 0)) := by
  obtain ⟨value, hcat, hsize, hholds⟩ := h.value.strncat (hfit.trans_eq h.valueSize.symm)
  exact ⟨(element.1, value), by rw [Http.catValue, hcat, Option.map_some],
    ⟨h.nameSize, hsize.trans h.valueSize, h.name, hholds⟩⟩

private theorem HoldsLines.numHeaders_value {parser : TgxHttpParser} {l : HeaderLines} (h : HoldsLines parser l)
    (hpos : 0 < l.count) : parser.numHeaders = l.count - 1 + 1 := by
  rw [h.numHeaders]
  omega

private theorem HoldsLines.onHeaderPart {parser : TgxHttpParser} {l : HeaderLines} (h : HoldsLines parser l)
    {part : HeaderPart} (hpart : part.isField = true ∨ 0 < l.count) (hfit : (l.add part).Fit) :
    ∃ parser', onHeaderPart part parser = some (0, parser') ∧ HoldsLines parser' (l.add part) ∧
      parser'.toHttpParser = parser.toHttpParser := by
  cases part with
  | field text =>
    have hlt : l.current < parser.headers.length := h.length ▸ hfit.1
    have hname := (hfit.2 l.current (Nat.lt_succ_self _)).1
    simp only [HeaderLines.add, Function.update_self] at hname
    obtain ⟨headers, hwrite, hlength, hlines⟩ := writeElement_some h.lines hlt fun _ he => he.catName hname
    refine ⟨{ parser with numHeaders := l.current + 1, headers := headers, lastHeaderElement := .field }, ?_,
      ⟨rfl, rfl, fun _ => Nat.succ_pos _, hlength.trans h.length, hlines⟩, rfl⟩
    simp only [Http.onHeaderPart, tgxHttpParserOnHeaderFieldCb, h.numHeaders_field, hwrite]
    rfl
  | value text =>
    have hpos : 0 < l.count := hpart.resolve_left (by simp [HeaderPart.isField])
    have hnum := h.numHeaders_value hpos
    have hlt : l.count - 1 < parser.headers.length := by
      have : l.count ≤ TGX_MAX_HEADERS := hfit.1
      rw [h.length]
      omega
    have hvalue := (hfit.2 (l.count - 1) (Nat.sub_lt hpos Nat.one_pos)).2
    simp only [HeaderLines.add, Function.update_self] at hvalue
    obtain ⟨headers, hwrite, hlength, hlines⟩ := writeElement_some h.lines hlt fun _ he => he.catValue hvalue
    refine ⟨{ parser with headers := headers, lastHeaderElement := .value }, ?_,
      ⟨h.numHeaders, rfl, nofun, hlength.trans h.length, hlines⟩, rfl⟩
    simp only [Http.onHeaderPart, tgxHttpParserOnHeaderValueCb, hnum, hwrite]
    rfl

/-- What the arrays hold fits. -/
theorem HoldsLines.inside {parser : TgxHttpParser} {l : HeaderLines} (h : HoldsLines parser l) {i : Nat}
    (hi : i < TGX_MAX_HEADERS) :
    (l.line i).1.length < TGX_MAX_ELEMENT_SIZE ∧ (l.line i).2.length < TGX_MAX_ELEMENT_SIZE := by
  have hline := h.lines i _ (List.getElem?_eq_getElem (h.length ▸ hi))
  exact ⟨hline.name.inside.trans_eq hline.nameSize, hline.value.inside.trans_eq hline.valueSize⟩

private theorem HoldsLines.onHeaderPart_none {parser : TgxHttpParser} {l : HeaderLines} (h : HoldsLines parser l)
    {part : HeaderPart} (hl : l.count ≤ TGX_MAX_HEADERS) (hpart : part.isField = true ∨ 0 < l.count)
    (hfit : ¬ (l.add part).Fit) : Http.onHeaderPart part parser = none := by
  cases part with
  | field text =>
    have hwrite : writeElement parser.headers (l.current + 1) (Http.catName text) = none := by
      refine writeElement_none fun element he => ?_
      have hlt : l.current < TGX_MAX_HEADERS := h.length ▸ (List.getElem?_eq_some_iff.mp he).1
      have hline := h.lines _ _ he
      rw [Http.catName, hline.name.strncat_none, Option.map_none]
      by_contra hshort
      refine hfit ⟨hlt, fun i hi => ?_⟩
      rcases Nat.lt_succ_iff_lt_or_eq.mp hi with hi | rfl
      · simpa only [HeaderLines.add, Function.update_of_ne hi.ne] using h.inside (hi.trans hlt)
      · simp only [HeaderLines.add, Function.update_self]
        exact ⟨not_le.mp (hline.nameSize ▸ hshort), (h.inside hlt).2⟩
    simp only [Http.onHeaderPart, tgxHttpParserOnHeaderFieldCb, h.numHeaders_field, hwrite]
    rfl
  | value text =>
    have hpos : 0 < l.count := hpart.resolve_left (by simp [HeaderPart.isField])
    have hnum := h.numHeaders_value hpos
    have hwrite : writeElement parser.headers (l.count - 1 + 1) (Http.catValue text) = none := by
      refine writeElement_none fun element he => ?_
      have hline := h.lines _ _ he
      rw [Http.catValue, hline.value.strncat_none, Option.map_none]
      by_contra hshort
      refine hfit ⟨hl, fun i hi => ?_⟩
      replace hi : i < l.count := hi
      by_cases hlast : i = l.count - 1
      · subst hlast
        simp only [HeaderLines.add, Function.update_self]
        exact ⟨(h.inside (hi.trans_le hl)).1, not_le.mp (hline.valueSize ▸ hshort)⟩
      · simpa only [HeaderLines.add, Function.update_of_ne hlast] using h.inside (hi.trans_le hl)
    simp only [Http.onHeaderPart, tgxHttpParserOnHeaderValueCb, hnum, hwrite]
    rfl

/-- The first part belongs to a name, unless a line has begun. -/
def Starts (parts : List HeaderPart) (l : HeaderLines) : Prop :=
  0 < l.count ∨ ∀ part ∈ parts.head?, part.isField = true

theorem Starts.cons {part : HeaderPart} {rest : List HeaderPart} {l : HeaderLines} (h : Starts (part :: rest) l) :
    (part.isField = true ∨ 0 < l.count) ∧ Starts rest (l.add part) := by
  have hpart : part.isField = true ∨ 0 < l.count := h.symm.imp_left fun hstart => hstart part rfl
  exact ⟨hpart, .inl (HeaderLines.count_add_pos hpart)⟩

theorem Starts.append {parts more : List HeaderPart} {l : HeaderLines} (h : Starts (parts ++ more) l) :
    Starts parts l ∧ Starts more (parts.foldl HeaderLines.add l) := by
  induction parts generalizing l with
  | nil => exact ⟨.inr nofun, h⟩
  | cons part rest ih =>
    obtain ⟨hpart, hrest⟩ := Starts.cons h
    exact ⟨hpart.symm.imp_right fun hfield x hx => Option.mem_some_iff.mp hx ▸ hfield, (ih hrest).2⟩

/-- The arrays end with the lines that the parts make up, where these fit. -/
theorem HoldsLines.onHeaderParts {parts : List HeaderPart} {parser : TgxHttpParser} {l : HeaderLines}
    (h : HoldsLines parser l) (hstart : Starts parts l) (hfit : (parts.foldl HeaderLines.add l).Fit) :
    ∃ parser', onHeaderParts parts parser = some (0, parser') ∧
      HoldsLines parser' (parts.foldl HeaderLines.add l) ∧ parser'.toHttpParser = parser.toHttpParser := by
  induction parts generalizing parser l with
  | nil => exact ⟨parser, rfl, h, rfl⟩
  | cons part rest ih =>
    obtain ⟨hpart, hrest⟩ := hstart.cons
    obtain ⟨mid, hmid, hholds, hsame⟩ := h.onHeaderPart hpart (HeaderLines.fit_of_foldl hfit)
    obtain ⟨parser', hrun, hend, hkept⟩ := ih hholds hrest hfit
    refine ⟨parser', ?_, hend, hkept.trans hsame⟩
    rw [Http.onHeaderParts, hmid]
    exact hrun

theorem HoldsLines.onHeaderParts_none {parts : List HeaderPart} {parser : TgxHttpParser} {l : HeaderLines}
    (h : HoldsLines parser l) (hl : l.Fit) (hstart : Starts parts l)
    (hfit : ¬ (parts.foldl HeaderLines.add l).Fit) : Http.onHeaderParts parts parser = none := by
  induction parts generalizing parser l with
  | nil => exact absurd hl hfit
  | cons part rest ih =>
    obtain ⟨hpart, hrest⟩ := hstart.cons
    rw [Http.onHeaderParts]
    by_cases hadd : (l.add part).Fit
    · obtain ⟨mid, hmid, hholds, -⟩ := h.onHeaderPart hpart hadd
      rw [hmid]
      exact ih hholds hadd hrest hfit
    · rw [h.onHeaderPart_none hl.1 hpart hadd]
      rfl

/-- A header line as it is delivered: its name in one or more pieces, and then its value. -/
structure Delivery where
  name : List (List UInt8)
  value : List (List UInt8)
  name_ne : name ≠ []
  value_ne : value ≠ []

namespace Delivery

def parts (d : Delivery) : List HeaderPart :=
  d.name.map .field ++ d.value.map .value

def line (d : Delivery) : HeaderLine :=
  (d.name.flatten, d.value.flatten)

structure Short (d : Delivery) : Prop where
  name : d.line.1.length < TGX_MAX_ELEMENT_SIZE
  value : d.line.2.length < TGX_MAX_ELEMENT_SIZE
  nameText : 0 ∉ d.line.1
  valueText : 0 ∉ d.line.2

end Delivery

namespace HeaderLines

private theorem takeWhile_text {text : List UInt8} (h : 0 ∉ text) : text.takeWhile (· != 0) = text :=
  List.takeWhile_eq_self_iff.mpr fun _ hx => bne_iff_ne.mpr fun h0 => h (h0 ▸ hx)

private theorem foldl_field {texts : List (List UInt8)} (h : 0 ∉ texts.flatten) {n : Nat} {line : Nat → HeaderLine} :
    (texts.map HeaderPart.field).foldl add ⟨n + 1, line, .field⟩ =
      ⟨n + 1, Function.update line n ((line n).1 ++ texts.flatten, (line n).2), .field⟩ := by
  induction texts generalizing line with
  | nil => simp
  | cons text rest ih =>
    rw [List.flatten_cons, List.mem_append, not_or] at h
    rw [List.map_cons, List.foldl_cons, add, takeWhile_text h.1]
    simp only [current, if_true, Nat.add_sub_cancel]
    rw [ih h.2]
    simp [List.append_assoc]

private theorem foldl_value {texts : List (List UInt8)} (h : 0 ∉ texts.flatten) {n : Nat} {line : Nat → HeaderLine} :
    (texts.map HeaderPart.value).foldl add ⟨n + 1, line, .value⟩ =
      ⟨n + 1, Function.update line n ((line n).1, (line n).2 ++ texts.flatten), .value⟩ := by
  induction texts generalizing line with
  | nil => simp
  | cons text rest ih =>
    rw [List.flatten_cons, List.mem_append, not_or] at h
    rw [List.map_cons, List.foldl_cons, add, takeWhile_text h.1]
    simp only [Nat.add_sub_cancel]
    rw [ih h.2]
    simp [List.append_assoc]

private theorem foldl_parts {d : Delivery} (h : d.Short) {l : HeaderLines} (hlast : l.last ≠ .field)
    (hnew : l.line l.count = ([], [])) :
    d.parts.foldl add l = ⟨l.count + 1, Function.update l.line l.count d.line, .value⟩ := by
  obtain ⟨text, rest, hname⟩ := List.exists_cons_of_ne_nil d.name_ne
  obtain ⟨text', rest', hvalue⟩ := List.exists_cons_of_ne_nil d.value_ne
  have hnameText := h.nameText
  have hvalueText := h.valueText
  simp only [Delivery.line, hname, hvalue, List.flatten_cons, List.mem_append, not_or] at hnameText hvalueText
  have hfirst : l.add (.field text) =
      ⟨l.count + 1, Function.update l.line l.count (text, []), .field⟩ := by
    rw [add, takeWhile_text hnameText.1]
    simp [current, hlast, hnew]
  have hnameDone : (d.name.map HeaderPart.field).foldl add l =
      ⟨l.count + 1, Function.update l.line l.count (d.name.flatten, []), .field⟩ := by
    rw [hname, List.map_cons, List.foldl_cons, hfirst, foldl_field hnameText.2]
    simp
  have hthen : add ⟨l.count + 1, Function.update l.line l.count (d.name.flatten, []), .field⟩ (.value text') =
      ⟨l.count + 1, Function.update l.line l.count (d.name.flatten, text'), .value⟩ := by
    rw [add, takeWhile_text hvalueText.1]
    simp
  rw [Delivery.parts, List.foldl_append, hnameDone, hvalue, List.map_cons, List.foldl_cons, hthen,
    foldl_value hvalueText.2]
  simp [Delivery.line, hvalue]

theorem foldl_deliveries {ds : List Delivery} (h : ∀ d ∈ ds, d.Short) {l : HeaderLines} (hlast : l.last ≠ .field)
    (hnew : ∀ i, l.count ≤ i → l.line i = ([], [])) :
    let after := (ds.flatMap Delivery.parts).foldl add l
    after.count = l.count + ds.length ∧
      ∀ i, after.line i = if i < l.count then l.line i else ((ds[i - l.count]?).map Delivery.line).getD ([], []) := by
  induction ds generalizing l with
  | nil =>
    refine ⟨rfl, fun i => ?_⟩
    split
    · rfl
    · rename_i hi
      exact hnew i (not_lt.mp hi)
  | cons d rest ih =>
    have hd := foldl_parts (h d List.mem_cons_self) hlast (hnew _ le_rfl)
    rw [List.flatMap_cons, List.foldl_append, hd]
    obtain ⟨hcount, hline⟩ := ih (fun x hx => h x (List.mem_cons_of_mem d hx))
      (l := ⟨l.count + 1, Function.update l.line l.count d.line, .value⟩) nofun fun i hi =>
        (Function.update_of_ne (Nat.ne_of_gt hi) _ _).trans (hnew i (Nat.le_of_succ_le hi))
    refine ⟨hcount.trans (by simp only [List.length_cons]; omega), fun i => ?_⟩
    rw [hline]
    rcases Nat.lt_trichotomy i l.count with hi | rfl | hi
    · rw [if_pos (Nat.lt_succ_of_lt hi), if_pos hi]
      exact Function.update_of_ne hi.ne _ _
    · simp
    · rw [if_neg (by simpa using hi), if_neg (by omega)]
      obtain ⟨k, rfl⟩ : ∃ k, i = l.count + k + 1 := ⟨i - l.count - 1, by omega⟩
      rw [show l.count + k + 1 - (l.count + 1) = k by omega, show l.count + k + 1 - l.count = k + 1 by omega,
        List.getElem?_cons_succ]

end HeaderLines

private theorem starts_deliveries (ds : List Delivery) (l : HeaderLines) : Starts (ds.flatMap Delivery.parts) l := by
  refine .inr fun part hpart => ?_
  cases ds with
  | nil => cases hpart
  | cons d rest =>
    obtain ⟨text, pieces, hname⟩ := List.exists_cons_of_ne_nil d.name_ne
    simp only [List.flatMap_cons, Delivery.parts, hname, List.map_cons, List.cons_append, List.head?_cons,
      Option.mem_some_iff] at hpart
    rw [← hpart]
    rfl

/-- However the names and values are cut up, the arrays end with them, line by line. -/
theorem headers_of_deliveries (ds : List Delivery) (hcount : ds.length ≤ TGX_MAX_HEADERS)
    (hshort : ∀ d ∈ ds, d.Short) (url : HttpParser) :
    ∃ parser, onHeaderParts (ds.flatMap Delivery.parts) { url with } = some (0, parser) ∧
      parser.numHeaders = ds.length ∧
      ∀ i (hi : i < ds.length), ∃ element, parser.headers[i]? = some element ∧ HoldsLine element ds[i].line := by
  obtain ⟨hlength, hline⟩ := HeaderLines.foldl_deliveries hshort (l := .empty) nofun fun _ _ => rfl
  replace hline : ∀ i, ((ds.flatMap Delivery.parts).foldl HeaderLines.add .empty).line i =
      ((ds[i]?).map Delivery.line).getD ([], []) := hline
  rw [HeaderLines.empty, Nat.zero_add] at hlength
  have hfit : ((ds.flatMap Delivery.parts).foldl HeaderLines.add .empty).Fit := by
    refine ⟨hlength.trans_le hcount, fun i hi => ?_⟩
    replace hi : i < ds.length := hi.trans_eq hlength
    have hd := hshort _ (List.getElem_mem hi)
    rw [hline, List.getElem?_eq_getElem hi]
    exact ⟨hd.name, hd.value⟩
  obtain ⟨parser, hrun, hholds, -⟩ :=
    (holdsLines_empty url).onHeaderParts (starts_deliveries ds .empty) hfit
  refine ⟨parser, hrun, hholds.numHeaders.trans hlength, fun i hi => ?_⟩
  have hlt : i < parser.headers.length := hholds.length ▸ hi.trans_le hcount
  have hheld := hholds.lines i _ (List.getElem?_eq_getElem hlt)
  rw [hline, List.getElem?_eq_getElem hi] at hheld
  exact ⟨_, List.getElem?_eq_getElem hlt, hheld⟩

/-- Three lines: a name in two pieces and a value with an empty piece in it, a whole line, and one in five pieces. -/
def requestLines : List Delivery :=
  [⟨[ascii "Ho", ascii "st"], [ascii "a", [], ascii ".b"], by decide, by decide⟩,
    ⟨[ascii "Content-Length"], [ascii "12"], by decide, by decide⟩,
    ⟨[ascii "Acc", ascii "ep", ascii "t"], [ascii "*", ascii "/*"], by decide, by decide⟩]

theorem headers_of_request_lines :
    ∃ parser, onHeaderParts (requestLines.flatMap Delivery.parts) {} = some (0, parser) ∧ parser.numHeaders = 3 ∧
      (∃ element, parser.headers[0]? = some element ∧ HoldsLine element (ascii "Host", ascii "a.b")) ∧
      (∃ element, parser.headers[1]? = some element ∧ HoldsLine element (ascii "Content-Length", ascii "12")) ∧
      ∃ element, parser.headers[2]? = some element ∧ HoldsLine element (ascii "Accept", ascii "*/*") := by
  have hshort : ∀ d ∈ requestLines, d.Short := by
    simp only [requestLines, List.forall_mem_cons]
    refine ⟨⟨?_, ?_, ?_, ?_⟩, ⟨?_, ?_, ?_, ?_⟩, ⟨?_, ?_, ?_, ?_⟩, by simp⟩ <;> decide
  obtain ⟨parser, hrun, hnum, hline⟩ := headers_of_deliveries requestLines (by decide) hshort {}
  exact ⟨parser, hrun, hnum, hline 0 (by decide), hline 1 (by decide), hline 2 (by decide)⟩

end TinyosGraphics.Http
