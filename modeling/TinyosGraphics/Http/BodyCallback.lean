import TinyosGraphics.Core.Connection

/-! The body of a request in `httpReqBody`, from the fragments in which `http_parser` delivers it. -/
namespace TinyosGraphics.Http
open Lib Core

/-- The branch of the callback that clears as many bytes of the old data as a pointer has. -/
def clearBody (data : Option Block) : Option Block :=
  data.bind fun block => if 8 ≤ block.size then some (block.write 0 (List.replicate 8 0)) else none

/-- `tgx_http_parser_on_body_cb`; `memory` says whether `calloc` succeeds. `none` where it uses a null pointer or
leaves a buffer. -/
def tgxHttpParserOnBodyCb (memory : Bool) (text : List UInt8) (d : Conn) : Option (Int × Conn) := do
  let req ← d.httpReqBody
  -- the size that is looked at is the one of the response
  let req : TgxString ←
    if toSizeT d.httpRespBody.size < text.length + 1 then
      some ⟨toInt32 (text.length + 1), if memory then some (.calloc (text.length + 1)) else none⟩
    else (clearBody req.data).map fun block => { req with data := some block }
  let data ← req.data
  let data ← data.strncpy text
  return (0, { d with httpReqBody := some { req with data := some data } })

abbrev Fragment := Bool × List UInt8

def onBody : List Fragment → Conn → Option (Int × Conn)
  | [], d => some (0, d)
  | (memory, text) :: rest, d =>
    (tgxHttpParserOnBodyCb memory text d).bind fun (ret, d) => if ret = 0 then onBody rest d else some (ret, d)

/-- A connection as `tgx_new_connection` hands it out, with a request read; `httpReqBody` may be null. -/
def freshConn (fd : Int) (httpReqBuf : TgxString) (httpReqBody : Bool) : Conn :=
  { newConn fd with
    httpReqBuf := httpReqBuf
    httpReqBody := if httpReqBody then some ⟨0, none⟩ else none }

/-- `httpReqBody` has the body as its text, and a size for it. -/
def HasBody (result : Option (Int × Conn)) (body : List UInt8) : Prop :=
  ∃ d req data, result = some (0, d) ∧ d.httpReqBody = some req ∧ req.data = some data ∧
    data.cString = body ∧ body.length < data.size ∧ (body.length + 1 : Int) ≤ req.size

/-- The fragments that come through: text, and all of it in the last one. -/
structure InOnePiece (fragments : List Fragment) : Prop where
  memory : ∀ f ∈ fragments, f.1 = true
  last : ∀ f ∈ fragments.dropLast, f.2 = []
  text : 0 ∉ fragments.flatMap Prod.snd
  short : (fragments.flatMap Prod.snd).length + 1 < 2 ^ 31

private theorem onBodyCb_eq {d : Conn} {req : TgxString} (hreq : d.httpReqBody = some req)
    (hresp : d.httpRespBody = ⟨0, none⟩)
    (text : List UInt8) :
    ∃ data : Block, data.size = text.length + 1 ∧ data.cString = text.takeWhile (· != 0) ∧
      tgxHttpParserOnBodyCb true text d =
        some (0, { d with httpReqBody := some ⟨toInt32 (text.length + 1), some data⟩ }) := by
  obtain ⟨data, hcopy, hsize, htext⟩ := Block.strncpy_calloc (Nat.le_succ text.length)
  refine ⟨data, hsize, htext, ?_⟩
  have hlt : toSizeT d.httpRespBody.size < text.length + 1 := by
    rw [hresp]
    exact Nat.succ_pos _
  simp only [tgxHttpParserOnBodyCb, hreq, if_pos hlt, if_true, Option.bind_eq_bind, Option.bind_some, hcopy]
  rfl

private theorem onBodyCb_none {d : Conn} (hresp : d.httpRespBody = ⟨0, none⟩) (text : List UInt8) :
    tgxHttpParserOnBodyCb false text d = none := by
  have hlt : toSizeT d.httpRespBody.size < text.length + 1 := by
    rw [hresp]
    exact Nat.succ_pos _
  cases hreq : d.httpReqBody <;> simp [tgxHttpParserOnBodyCb, hreq, hlt]

private theorem onBody_eq {fragments : List Fragment} {last : Fragment}
    (hmemory : ∀ f ∈ fragments ++ [last], f.1 = true)
    {d : Conn} (hreq : d.httpReqBody.isSome = true) (hresp : d.httpRespBody = ⟨0, none⟩) :
    ∃ data : Block, data.size = last.2.length + 1 ∧ data.cString = last.2.takeWhile (· != 0) ∧
      onBody (fragments ++ [last]) d =
        some (0, { d with httpReqBody := some ⟨toInt32 (last.2.length + 1), some data⟩ }) := by
  induction fragments generalizing d with
  | nil =>
    obtain ⟨memory, text⟩ := last
    obtain rfl : memory = true := hmemory _ List.mem_cons_self
    obtain ⟨req, hreq⟩ := Option.isSome_iff_exists.mp hreq
    obtain ⟨data, hsize, htext, hcb⟩ := onBodyCb_eq hreq hresp text
    refine ⟨data, hsize, htext, ?_⟩
    rw [List.nil_append, onBody, hcb]
    rfl
  | cons f rest ih =>
    obtain ⟨memory, text⟩ := f
    obtain rfl : memory = true := hmemory _ List.mem_cons_self
    obtain ⟨req, hreq⟩ := Option.isSome_iff_exists.mp hreq
    obtain ⟨data, -, -, hcb⟩ := onBodyCb_eq hreq hresp text
    rw [List.cons_append, onBody, hcb]
    exact ih (fun g hg => hmemory g (List.mem_cons_of_mem _ hg)) rfl hresp

private theorem onBody_none {fragments : List Fragment} (hmemory : ∃ f ∈ fragments, f.1 = false)
    {d : Conn} (hreq : d.httpReqBody.isSome = true) (hresp : d.httpRespBody = ⟨0, none⟩) :
    onBody fragments d = none := by
  induction fragments generalizing d with
  | nil => simp at hmemory
  | cons f rest ih =>
    obtain ⟨memory, text⟩ := f
    cases memory with
    | false => rw [onBody, onBodyCb_none hresp, Option.bind_none]
    | true =>
      obtain ⟨req, hreq⟩ := Option.isSome_iff_exists.mp hreq
      obtain ⟨data, -, -, hcb⟩ := onBodyCb_eq hreq hresp text
      obtain ⟨g, hg, hfalse⟩ := hmemory
      have hrest : g ∈ rest := (List.mem_cons.mp hg).resolve_left fun heq => by simp [heq] at hfalse
      rw [onBody, hcb]
      exact ih ⟨g, hrest, hfalse⟩ rfl hresp

private theorem onBody_null {first : Fragment} {rest : List Fragment} {d : Conn} (hreq : d.httpReqBody = none) :
    onBody (first :: rest) d = none := by
  rw [onBody, tgxHttpParserOnBodyCb, hreq]
  rfl

private theorem takeWhile_eq_append_iff {before text : List UInt8} :
    text.takeWhile (· != 0) = before ++ text ↔ before = [] ∧ 0 ∉ text := by
  constructor
  · intro h
    have hlen := (List.takeWhile_prefix (· != 0)).length_le.trans_eq' (congrArg List.length h)
    obtain rfl : before = [] := by
      rw [List.length_append] at hlen
      exact List.length_eq_zero_iff.mp (by omega)
    refine ⟨rfl, fun h0 => ?_⟩
    have := List.takeWhile_eq_self_iff.mp h 0 h0
    simp at this
  · rintro ⟨rfl, h0⟩
    exact List.takeWhile_eq_self_iff.mpr fun x hx => bne_iff_ne.mpr fun heq => h0 (heq ▸ hx)

section
variable {fd : Int} {httpReqBuf : TgxString} {fragments : List Fragment} {last : Fragment}

private theorem body_append : (fragments ++ [last]).flatMap Prod.snd = fragments.flatMap Prod.snd ++ last.2 := by
  rw [List.flatMap_append, List.flatMap_singleton]

private theorem inOnePiece_of_hasBody
    (h : HasBody (onBody (fragments ++ [last]) (freshConn fd httpReqBuf true))
      ((fragments ++ [last]).flatMap Prod.snd)) :
    InOnePiece (fragments ++ [last]) := by
  have hresp : (freshConn fd httpReqBuf true).httpRespBody = ⟨0, none⟩ := rfl
  obtain ⟨d, req, data, hrun, hreq, hdata, htext, -, hsize⟩ := h
  have hmemory : ∀ f ∈ fragments ++ [last], f.1 = true := by
    intro f hf
    by_contra hfalse
    rw [onBody_none ⟨f, hf, Bool.not_eq_true _ ▸ hfalse⟩ rfl hresp] at hrun
    cases hrun
  obtain ⟨data', -, htext', hend⟩ := onBody_eq hmemory rfl hresp
  rw [hend] at hrun
  obtain rfl := (Prod.mk.inj (Option.some.inj hrun)).2
  obtain rfl := Option.some.inj hreq
  obtain rfl := Option.some.inj hdata
  rw [htext', body_append, takeWhile_eq_append_iff] at htext
  have hshort : last.2.length + 1 < 2 ^ 31 := by
    have := (toInt32_bounds (last.2.length + 1)).2
    rw [body_append, htext.1, List.nil_append] at hsize
    simp only at hsize
    omega
  refine ⟨hmemory, ?_, ?_, ?_⟩
  · rw [List.dropLast_concat]
    exact fun f hf => List.eq_nil_iff_forall_not_mem.mpr fun x hx =>
      List.not_mem_nil (htext.1 ▸ List.mem_flatMap.mpr ⟨f, hf, hx⟩)
  · rw [body_append, htext.1]
    exact htext.2
  · rwa [body_append, htext.1]

private theorem InOnePiece.hasBody (h : InOnePiece (fragments ++ [last])) :
    HasBody (onBody (fragments ++ [last]) (freshConn fd httpReqBuf true)) ((fragments ++ [last]).flatMap Prod.snd) := by
  have hlast := h.last
  rw [List.dropLast_concat] at hlast
  have hbefore : fragments.flatMap Prod.snd = [] := List.flatMap_eq_nil_iff.mpr hlast
  have hshort := h.short
  have hnul := h.text
  rw [body_append, hbefore, List.nil_append] at hshort hnul
  obtain ⟨data, hsize, htext, hend⟩ := onBody_eq h.memory rfl
    (show (freshConn fd httpReqBuf true).httpRespBody = ⟨0, none⟩ from rfl)
  refine ⟨_, _, data, hend, rfl, rfl, ?_, ?_, ?_⟩
  · rw [htext, body_append, takeWhile_eq_append_iff]
    exact ⟨hbefore, hnul⟩
  · rw [body_append, hbefore, List.nil_append, hsize]
    exact Nat.lt_succ_self _
  · rw [body_append, hbefore, List.nil_append]
    dsimp only
    rw [toInt32_of_bounds (by omega) (by omega)]

end

/-- The body is there exactly when it came in one piece. -/
theorem hasBody_iff (fd : Int) (httpReqBuf : TgxString) (httpReqBody : Bool) (first : Fragment) (rest : List Fragment) :
    HasBody (onBody (first :: rest) (freshConn fd httpReqBuf httpReqBody)) ((first :: rest).flatMap Prod.snd) ↔
      httpReqBody = true ∧ InOnePiece (first :: rest) := by
  obtain ⟨fragments, last, hsplit⟩ : ∃ fragments last, first :: rest = fragments ++ [last] :=
    ⟨_, _, (List.dropLast_append_getLast (List.cons_ne_nil first rest)).symm⟩
  cases httpReqBody with
  | false =>
    refine iff_of_false ?_ (by simp)
    rintro ⟨d, req, data, hrun, -⟩
    rw [onBody_null rfl] at hrun
    cases hrun
  | true =>
    rw [hsplit]
    exact ⟨fun h => ⟨rfl, inOnePiece_of_hasBody h⟩, fun h => h.2.hasBody⟩

/-- Of two chunks only the second one is left. -/
theorem two_chunks :
    ((onBody [(true, ascii "ab"), (true, ascii "cd")] (freshConn 5 ⟨0, none⟩ true)).bind fun result =>
        result.2.httpReqBody.bind TgxString.text) = some (ascii "cd") ∧
      ¬ HasBody (onBody [(true, ascii "ab"), (true, ascii "cd")] (freshConn 5 ⟨0, none⟩ true)) (ascii "abcd") := by
  constructor
  · have hmemory : ∀ f ∈ [(true, ascii "ab")] ++ [(true, ascii "cd")], f.1 = true := by simp
    obtain ⟨data, -, htext, hend⟩ := onBody_eq hmemory (d := freshConn 5 ⟨0, none⟩ true) rfl rfl
    rw [List.singleton_append] at hend
    rw [hend]
    exact congrArg some htext
  intro h
  have hpiece := ((hasBody_iff 5 ⟨0, none⟩ true (true, ascii "ab") [(true, ascii "cd")]).mp h).2
  exact absurd (hpiece.last (true, ascii "ab") (by decide)) (by decide)

end TinyosGraphics.Http
