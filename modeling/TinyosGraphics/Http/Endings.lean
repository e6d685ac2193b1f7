import TinyosGraphics.Http.UrlCallback

/-! The endings that `tgx_http_parser_on_url_cb` looks for anywhere in a path, and the rules for the last
component that they stand for. -/
namespace TinyosGraphics.Http
open Lib Core

/-- The part of a path behind its last `/`. -/
def lastComponent (path : List UInt8) : List UInt8 :=
  path.rtakeWhile (· != 47)

/-- The part of a path up to its last `/`. -/
def directories (path : List UInt8) : List UInt8 :=
  path.rdropWhile (· != 47)

private theorem directories_append (path : List UInt8) : directories path ++ lastComponent path = path :=
  List.rdropWhile_append_rtakeWhile

private theorem lastComponent_suffix (path : List UInt8) : lastComponent path <:+ path :=
  List.rtakeWhile_suffix _ _

private theorem slash_not_mem_lastComponent (path : List UInt8) : 47 ∉ lastComponent path := fun h =>
  absurd (List.mem_rtakeWhile_imp h) (by simp)

private theorem slash_mem_drop {path : List UInt8} {i : Nat} (h : i < (directories path).length) :
    47 ∈ (directories path).drop i := by
  have hne : directories path ≠ [] := List.ne_nil_of_length_pos (Nat.zero_lt_of_lt h)
  have hlast : (directories path).getLast hne = 47 := by
    have hnot := List.rdropWhile_last_not (· != 47) path hne
    rwa [bne_iff_ne, not_not] at hnot
  rw [← List.dropLast_append_getLast hne, hlast] at h ⊢
  rw [List.length_append, List.length_singleton] at h
  rw [List.drop_append_of_le_length (by omega)]
  exact List.mem_append_right _ List.mem_cons_self

private theorem first_occurrence {path needle : List UInt8} (hne : needle ≠ []) (hslash : 47 ∉ needle) {i : Nat}
    (h : strstr path needle = some i) :
    (path.drop i).contains 47 = true ↔ needle <:+: directories path := by
  obtain ⟨hp, hi, hfirst⟩ := strstr_eq_some.mp h
  have hsplit := directories_append path
  constructor
  · intro hmem
    have hlt : i < (directories path).length := by
      by_contra hge
      rw [List.contains_iff_mem, ← hsplit, List.drop_append, List.drop_eq_nil_of_le (not_lt.mp hge),
        List.nil_append] at hmem
      exact slash_not_mem_lastComponent path (List.mem_of_mem_drop hmem)
    rw [← hsplit, List.drop_append_of_le_length hlt.le] at hp
    rcases List.prefix_or_prefix_of_prefix hp (List.prefix_append _ _) with hin | hover
    · exact hin.isInfix.trans (List.drop_suffix i _).isInfix
    · exact absurd (hover.subset (slash_mem_drop hlt)) hslash
  · rintro ⟨before, rest, hin⟩
    have hle : i ≤ before.length := by
      by_contra hlt
      refine hfirst before.length (not_le.mp hlt) ?_
      rw [← hsplit, ← hin, List.append_assoc, List.append_assoc, List.drop_left]
      exact List.prefix_append needle _
    have hlt : i < (directories path).length := by
      have hpos := List.length_pos_iff.mpr hne
      rw [← hin]
      simp only [List.length_append]
      omega
    rw [List.contains_iff_mem, ← hsplit, List.drop_append_of_le_length hlt.le]
    exact List.mem_append_left _ (slash_mem_drop hlt)

/-- The endings of scripts, in the order in which they are looked for. -/
def scripts : List String :=
  [".php", ".aspx", ".jsp"]

/-- The ending that decides: the first one that the path contains. -/
def firstScript (path : List UInt8) : Option String :=
  scripts.find? fun ending => (strstr path (ascii ending)).isSome

private theorem unsupported_eq (path : List UInt8) :
    unsupported path = ((firstScript path).bind fun ending =>
      (strstr path (ascii ending)).map fun p => !(path.drop p).contains 47).getD false := by
  unfold unsupported firstScript scripts
  cases hphp : strstr path (ascii ".php") with
  | some p => simp [hphp]
  | none =>
    cases haspx : strstr path (ascii ".aspx") with
    | some p => simp [hphp, haspx]
    | none => cases hjsp : strstr path (ascii ".jsp") <;> simp [hphp, haspx, hjsp]

private theorem firstScript_some {path : List UInt8} {ending : String} (h : firstScript path = some ending) :
    ending ∈ scripts ∧ ascii ending <:+: path := by
  have hfound := List.find?_some h
  exact ⟨List.mem_of_find?_eq_some h, strstr_isSome.mp hfound⟩

private theorem script_ne_nil {ending : String} (h : ending ∈ scripts) : ascii ending ≠ [] ∧ 47 ∉ ascii ending := by
  have hall : ∀ ending ∈ scripts, ascii ending ≠ [] ∧ 47 ∉ ascii ending := by decide
  exact hall ending h

private theorem unsupported_iff (path : List UInt8) :
    unsupported path = true ↔ ∃ ending, firstScript path = some ending ∧ ¬ ascii ending <:+: directories path := by
  rw [unsupported_eq]
  cases hfirst : firstScript path with
  | none => simp
  | some ending =>
    obtain ⟨hmem, hin⟩ := firstScript_some hfirst
    obtain ⟨hne, hslash⟩ := script_ne_nil hmem
    obtain ⟨p, hp⟩ := Option.isSome_iff_exists.mp (strstr_isSome.mpr hin)
    rw [Option.bind_some, hp, Option.map_some, Option.getD_some, Bool.not_eq_true', ← Bool.not_eq_true,
      first_occurrence hne hslash hp]
    exact ⟨fun h => ⟨ending, rfl, h⟩, fun ⟨_, heq, h⟩ => Option.some.inj heq ▸ h⟩

private theorem infix_lastComponent {path needle : List UInt8} (hslash : 47 ∉ needle) (h : needle <:+: path)
    (hdir : ¬ needle <:+: directories path) : needle <:+: lastComponent path := by
  obtain ⟨i, hi⟩ := Option.isSome_iff_exists.mp (strstr_isSome.mpr h)
  obtain ⟨hp, -, -⟩ := strstr_eq_some.mp hi
  have hne : needle ≠ [] := fun hnil => hdir (hnil ▸ List.nil_infix)
  have hnot := mt (first_occurrence hne hslash hi).mp hdir
  have hge : (directories path).length ≤ i := by
    by_contra hlt
    refine hnot ?_
    rw [List.contains_iff_mem, ← directories_append path, List.drop_append_of_le_length (not_le.mp hlt).le]
    exact List.mem_append_left _ (slash_mem_drop (not_le.mp hlt))
  rw [← directories_append path, List.drop_append, List.drop_eq_nil_of_le hge, List.nil_append] at hp
  exact hp.isInfix.trans (List.drop_suffix _ _).isInfix

/-- The callback answers 400 without a path. -/
def AnswersBadRequest (parser : HttpParser) (result : Option (Int × HttpParser)) : Prop :=
  ∃ url, result = some (0, url) ∧ url.httpStatus = .s400 ∧ url.path = parser.path

private theorem answersBadRequest_iff {method target : List UInt8} (hm : method = ascii "GET" ∨ method = ascii "POST")
    (sys : Surroundings) (parser : HttpParser) :
    AnswersBadRequest parser (tgxHttpParserOnUrlCb sys method target parser) ↔
      sys.path = true ∧ unsupported (cutSlashes (cutQuery target)) = true := by
  constructor
  · rintro ⟨url, hurl, hstatus, -⟩
    by_contra hnot
    cases hmem : sys.path with
    | false =>
      simp only [tgxHttpParserOnUrlCb, if_pos hm, hmem, Bool.not_false, if_true] at hurl
      obtain rfl := (Prod.mk.inj (Option.some.inj hurl)).2
      cases hstatus
    | true =>
      have href : ¬ Refused method target := fun h =>
        h.elim (fun hbad => hbad hm) fun hsup => hnot ⟨hmem, hsup⟩
      rcases url_cases href hmem hurl with ⟨-, -, h404, -⟩ | ⟨file, -, -, -, h200, -⟩ | ⟨hret, -⟩
      · rw [h404] at hstatus
        cases hstatus
      · rw [h200] at hstatus
        cases hstatus
      · cases hret
  · rintro ⟨hmem, hsup⟩
    simp only [tgxHttpParserOnUrlCb, if_pos hm, hmem, hsup, Bool.not_true, Bool.false_eq_true, if_false, if_true]
    exact ⟨_, rfl, rfl, rfl⟩

/-- The last component contains the ending of a script. -/
def IsScript (path : List UInt8) : Prop :=
  ∃ ending ∈ scripts, ascii ending <:+: lastComponent path

/-- The answer is the one for the last component exactly when that is no script, or there is memory and the
ending that decides is in no directory. -/
theorem answers_scripts_iff {method target : List UInt8} (hm : method = ascii "GET" ∨ method = ascii "POST")
    (sys : Surroundings) (parser : HttpParser) :
    (AnswersBadRequest parser (tgxHttpParserOnUrlCb sys method target parser) ↔
        IsScript (cutSlashes (cutQuery target))) ↔
      (IsScript (cutSlashes (cutQuery target)) →
        sys.path = true ∧ ∀ ending, firstScript (cutSlashes (cutQuery target)) = some ending →
          ¬ ascii ending <:+: directories (cutSlashes (cutQuery target))) := by
  rw [answersBadRequest_iff hm, unsupported_iff]
  generalize cutSlashes (cutQuery target) = path
  have hscript : (∃ ending, firstScript path = some ending ∧ ¬ ascii ending <:+: directories path) →
      IsScript path := by
    rintro ⟨ending, hfirst, hdir⟩
    obtain ⟨hmem, hin⟩ := firstScript_some hfirst
    exact ⟨ending, hmem, infix_lastComponent (script_ne_nil hmem).2 hin hdir⟩
  have hfound : IsScript path → ∃ ending, firstScript path = some ending := by
    rintro ⟨ending, hmem, hin⟩
    have hpath : ascii ending <:+: path := hin.trans (lastComponent_suffix path).isInfix
    exact Option.isSome_iff_exists.mp (List.find?_isSome.mpr ⟨ending, hmem, strstr_isSome.mpr hpath⟩)
  constructor
  · intro h his
    obtain ⟨hmem, ending, hfirst, hdir⟩ := h.mpr his
    exact ⟨hmem, fun e he => Option.some.inj (hfirst.symm.trans he) ▸ hdir⟩
  · intro h
    refine ⟨fun ⟨_, hbad⟩ => hscript hbad, fun his => ?_⟩
    obtain ⟨hmem, hdir⟩ := h his
    obtain ⟨ending, hfirst⟩ := hfound his
    exact ⟨hmem, ending, hfirst, hdir ending hfirst⟩

theorem answers_script :
    AnswersBadRequest {} (tgxHttpParserOnUrlCb (.all .other) (ascii "GET") (ascii "/a/b.jsp?x") {}) ↔
      IsScript (cutSlashes (cutQuery (ascii "/a/b.jsp?x"))) :=
  (answers_scripts_iff (.inl rfl) (.all .other) {}).mpr fun _ => ⟨rfl, by decide⟩

theorem serves_script :
    accepts (ascii "/a.php/b.php") = true ∧ IsScript (cutSlashes (cutQuery (ascii "/a.php/b.php"))) ∧
      ¬ AnswersBadRequest {} (tgxHttpParserOnUrlCb (.all .other) (ascii "GET") (ascii "/a.php/b.php") {}) := by
  refine ⟨by decide, ⟨".php", by decide, by decide⟩, fun h => ?_⟩
  exact absurd ((answersBadRequest_iff (.inl rfl) (.all .other) {}).mp h).2 (by decide)

/-- The text from the last `.` of the last component on. -/
def extension (path : List UInt8) : List UInt8 :=
  if 46 ∈ lastComponent path then 46 :: (lastComponent path).rtakeWhile (· != 46) else []

/-- The types with their endings, in the order in which they are looked for. -/
def mimeTypes : List (MimeType × List String) :=
  [(.html, [".html", ".htm"]), (.jpeg, [".jpeg"]), (.jpg, [".jpg"]), (.png, [".png"]), (.gif, [".gif"]),
    (.ico, [".ico"]), (.javascript, [".js"]), (.css, [".css"])]

/-- One of the endings is contained in the path. -/
def hasEnding (path : List UInt8) (row : MimeType × List String) : Bool :=
  row.2.any fun ending => (strstr path (ascii ending)).isSome

/-- The type of the file's own extension. -/
def ownType (path : List UInt8) : MimeType :=
  ((mimeTypes.find? fun row => row.2.any fun ending => ascii ending == extension path).map Prod.fst).getD .plain

private theorem tgxMimeType_eq (path : List UInt8) :
    tgxMimeType path = ((mimeTypes.find? (hasEnding path)).map Prod.fst).getD .plain := by
  simp only [tgxMimeType, mimeTypes, List.find?_cons, List.find?_nil, hasEnding, List.any_cons, List.any_nil,
    Bool.or_false]
  repeat' split
  all_goals simp_all

/-- Two tests along a list of different values, the second one weaker: their first hits have the same value
exactly when nothing in front of the first one's value passes the second one. -/
private theorem find?_value_eq_iff {α β : Type} [DecidableEq α] {rows : List (α × β)} {strong weak : α × β → Bool}
    (hweak : ∀ row, strong row = true → weak row = true) (hnodup : (rows.map Prod.fst).Nodup) {default : α}
    (hdefault : default ∉ rows.map Prod.fst) :
    ((rows.find? weak).map Prod.fst).getD default = ((rows.find? strong).map Prod.fst).getD default ↔
      ∀ row ∈ rows.takeWhile fun row => row.1 ≠ ((rows.find? strong).map Prod.fst).getD default,
        weak row = false := by
  induction rows with
  | nil => simp
  | cons row rows ih =>
    rw [List.map_cons, List.nodup_cons] at hnodup
    rw [List.map_cons, List.mem_cons, not_or] at hdefault
    cases hstrong : strong row with
    | true => simp [hstrong, hweak row hstrong]
    | false =>
      have hne : row.1 ≠ ((rows.find? strong).map Prod.fst).getD default := by
        cases hfind : rows.find? strong with
        | none => exact fun heq => hdefault.1 heq.symm
        | some found =>
          intro heq
          exact hnodup.1 (List.mem_map.mpr ⟨found, List.mem_of_find?_eq_some hfind, heq.symm⟩)
      cases hw : weak row with
      | true => simp [hstrong, hw, hne]
      | false => simpa [hstrong, hw, hne] using ih hnodup.2 hdefault.2

private theorem cons_rtakeWhile_suffix {x : UInt8} {text : List UInt8} (h : x ∈ text) :
    x :: text.rtakeWhile (· != x) <:+ text := by
  have hne : text.rdropWhile (· != x) ≠ [] := fun hnil => by
    have := List.rdropWhile_eq_nil_iff.mp hnil x h
    simp at this
  have hlast := List.rdropWhile_last_not (· != x) text hne
  rw [bne_iff_ne, not_not] at hlast
  refine ⟨(text.rdropWhile (· != x)).dropLast, ?_⟩
  calc (text.rdropWhile (· != x)).dropLast ++ x :: text.rtakeWhile (· != x)
      = (text.rdropWhile (· != x)).dropLast ++ [(text.rdropWhile (· != x)).getLast hne] ++
          text.rtakeWhile (· != x) := by rw [hlast, List.append_assoc, List.singleton_append]
    _ = text.rdropWhile (· != x) ++ text.rtakeWhile (· != x) := by rw [List.dropLast_append_getLast]
    _ = text := List.rdropWhile_append_rtakeWhile

private theorem extension_infix (path : List UInt8) : extension path <:+: path := by
  rw [extension]
  split
  · rename_i hdot
    exact ((cons_rtakeWhile_suffix hdot).trans (lastComponent_suffix path)).isInfix
  · exact List.nil_infix

/-- The type that is set is the one of the extension exactly when no ending that is looked for earlier is contained
in the path. -/
private theorem tgxMimeType_eq_ownType_iff (path : List UInt8) :
    tgxMimeType path = ownType path ↔
      ∀ row ∈ mimeTypes.takeWhile fun row => row.1 ≠ ownType path, hasEnding path row = false := by
  have hweak : ∀ row : MimeType × List String,
      (row.2.any fun ending => ascii ending == extension path) = true → hasEnding path row = true := by
    intro row hrow
    obtain ⟨ending, hmem, heq⟩ := List.any_eq_true.mp hrow
    refine List.any_eq_true.mpr ⟨ending, hmem, strstr_isSome.mpr ?_⟩
    rw [eq_of_beq heq]
    exact extension_infix path
  rw [tgxMimeType_eq, ownType, find?_value_eq_iff hweak (by decide) (by decide)]

/-- A file that is served gets the type of its own extension. -/
def GetsOwnType (sys : Surroundings) (result : Option (Int × HttpParser)) : Prop :=
  ∀ url, result = some (0, url) → url.httpStatus = .s200 → sys.stat url.path = some .other →
    url.mimeType = ownType url.path

theorem getsOwnType_iff (sys : Surroundings) (method target : List UInt8) (parser : HttpParser) :
    GetsOwnType sys (tgxHttpParserOnUrlCb sys method target parser) ↔
      (¬ Refused method target → sys.path = true →
        ∀ file, Serves sys (ascii "." ++ cutSlashes (cutQuery target)) file → sys.stat file = some .other →
          ∀ row ∈ mimeTypes.takeWhile fun row => row.1 ≠ ownType file, hasEnding file row = false) := by
  constructor
  · intro h href hmem file hserves hstat
    rw [← tgxMimeType_eq_ownType_iff]
    exact h _ (url_serves href hmem parser hserves) rfl hstat
  · intro h url hurl hstatus hstat
    by_cases href : Refused method target ∨ sys.path = false
    · obtain ⟨url', hurl', -, hbad⟩ := url_refused sys href parser
      obtain rfl := (Prod.mk.inj (Option.some.inj (hurl'.symm.trans hurl))).2
      rcases hbad with hbad | hbad <;> rw [hbad] at hstatus <;> cases hstatus
    rw [not_or, Bool.not_eq_false] at href
    rcases url_cases href.1 href.2 hurl with ⟨-, -, h404, -⟩ | ⟨file, hserves, -, rfl, -, hmime⟩ | ⟨hret, -⟩
    · rw [h404] at hstatus
      cases hstatus
    · rw [hmime, tgxMimeType_eq_ownType_iff]
      exact h href.1 href.2 _ hserves hstat
    · cases hret

theorem json_is_javascript :
    accepts (ascii "/a.json") = true ∧
      (tgxHttpParserOnUrlCb (.all .other) (ascii "GET") (ascii "/a.json") {}).map
        (fun result => (result.2.httpStatus, result.2.mimeType)) = some (.s200, .javascript) ∧
      ownType (ascii "./a.json") = .plain ∧
      ¬ GetsOwnType (.all .other) (tgxHttpParserOnUrlCb (.all .other) (ascii "GET") (ascii "/a.json") {}) := by
  refine ⟨by decide, by decide, by decide, fun h => ?_⟩
  have href : ¬ Refused (ascii "GET") (ascii "/a.json") := fun h => h.elim (fun hbad => hbad (.inl rfl)) (by decide)
  have hnone := (getsOwnType_iff _ _ _ _).mp h href rfl (ascii "./a.json") ⟨by decide, .inl ⟨rfl, by decide⟩⟩ rfl
    (.javascript, [".js"]) (by decide)
  exact absurd hnone (by decide)

end TinyosGraphics.Http
