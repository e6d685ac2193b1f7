import TinyosGraphics.Http.UrlCallback
import TinyosGraphics.Lib.Program

/-! The loops with which `tgx_http_parser_on_url_cb` cleans its copy of the request target, byte by byte, and the text
that they leave. A result of `none` is an access outside the copy, or a loop that goes on after `fuel` turns. -/
namespace TinyosGraphics.Http
open Lib

/-- A turn of `while ((ch = strchr(path, '?')))`. -/
def queryTurn (path : List UInt8) : Option (Turn (List UInt8)) := do
  match ← strchr path 63 with
  | some ch => return .again (path.set ch 0)
  | none => return .leave path

/-- A turn of `while ((ch = strrchr(path, '/')))`, with `path` as 0. -/
def slashTurn (path : List UInt8) : Option (Turn (List UInt8)) := do
  match ← strrchr path 47 with
  | some ch =>
    if (ch : Int) = (← strlen path) - 1 ∧ ch ≠ 0 then return .again (path.set ch 0) else return .leave path
  | none => return .leave path

def cleanLoops (fuel : Nat) (path : List UInt8) : Option (List UInt8) := do
  whileLoop slashTurn fuel (← whileLoop queryTurn fuel path)

/-- The copy of `length` bytes of `text` and its cleaning. -/
def cleanPath (fuel : Nat) (text : List UInt8) (length : Nat) : Option (List UInt8) := do
  cleanLoops fuel (← snprintf (List.replicate (length + 3) 0) (length + 1) text)

def cleaned (target : List UInt8) : List UInt8 :=
  let path := target.takeWhile (· != 63)
  if path ≠ [] ∧ ∀ b ∈ path, b = 47 then [47] else path.rdropWhile (· == 47)

section
variable {text rest : List UInt8} {b : UInt8}

private theorem cutSlashes_slash (hne : text ≠ []) : cutSlashes (text ++ [47]) = cutSlashes text := by
  cases text with
  | nil => exact absurd rfl hne
  | cons b text =>
    show b :: (text ++ [47]).rdropWhile (· == 47) = b :: text.rdropWhile (· == 47)
    rw [List.rdropWhile_concat_pos _ _ _ (by simp)]

private theorem cutSlashes_other (hb : b ≠ 47) : cutSlashes (text ++ [b]) = text ++ [b] := by
  cases text with
  | nil => rfl
  | cons c text =>
    show c :: (text ++ [b]).rdropWhile (· == 47) = c :: (text ++ [b])
    rw [List.rdropWhile_concat_neg _ _ _ (by simpa using hb)]

private theorem cutSlashes_begins (text : List UInt8) : cutSlashes text <+: text := by
  cases text with
  | nil => exact List.prefix_refl _
  | cons b text => exact (List.prefix_cons_inj b).mpr (List.rdropWhile_prefix _ _)

private theorem cutSlashes_cases (text : List UInt8) :
    cutSlashes text = text ∨ ∃ before, before ≠ [] ∧ text = before ++ [47] := by
  induction text using List.reverseRecOn with
  | nil => exact .inl rfl
  | append_singleton before b =>
    by_cases hb : b = 47
    · subst hb
      cases before with
      | nil => exact .inl rfl
      | cons c before => exact .inr ⟨c :: before, List.cons_ne_nil _ _, rfl⟩
    · exact .inl (cutSlashes_other hb)

private theorem cutSlashes_idem (text : List UInt8) : cutSlashes (cutSlashes text) = cutSlashes text := by
  cases text with
  | nil => rfl
  | cons b text => exact congrArg (b :: ·) (List.rdropWhile_idempotent _ _)

/-- The path that the model of the whole callback goes on with is the cleaned target. -/
private theorem cutSlashes_cutQuery (target : List UInt8) : cutSlashes (cutQuery target) = cleaned target := by
  show cutSlashes (cutQuery target) =
    if cutQuery target ≠ [] ∧ ∀ b ∈ cutQuery target, b = 47 then [47] else (cutQuery target).rdropWhile (· == 47)
  induction cutQuery target using List.reverseRecOn with
  | nil => simp [cutSlashes]
  | append_singleton before b ih =>
    by_cases hb : b = 47
    · subst hb
      by_cases hne : before = []
      · subst hne
        rfl
      · rw [cutSlashes_slash hne, ih, List.rdropWhile_concat_pos _ _ _ (by simp)]
        simp [hne, or_imp]
    · rw [cutSlashes_other hb, List.rdropWhile_concat_neg _ _ _ (by simpa using hb), if_neg]
      exact fun hall => hb (hall.2 b (by simp))

private theorem cutQuery_not_mem (target : List UInt8) : 63 ∉ cutQuery target := by
  intro hmem
  have hne := List.mem_takeWhile_imp hmem
  simp at hne

private theorem cutQuery_of_not_mem (h : 63 ∉ text) : cutQuery text = text := by
  refine List.takeWhile_eq_self_iff.mpr fun b hb => ?_
  have hne : b ≠ 63 := fun heq => h (heq ▸ hb)
  simpa using hne

def textLength (path : List UInt8) : Nat :=
  (path.takeWhile (· != 0)).length

private theorem textLength_text (h : ∀ x ∈ text, x ≠ 0) (rest : List UInt8) :
    textLength (text ++ 0 :: rest) = text.length := by
  rw [textLength, List.takeWhile_append_of_pos (by simpa using h)]
  simp

private theorem queryTurn_again (h : ∀ x ∈ text, x ≠ 0) (hquery : 63 ∉ text) (rest : List UInt8) :
    queryTurn (text ++ 63 :: rest) = some (.again (text ++ 0 :: rest)) := by
  rw [queryTurn, strchr_first h hquery]
  simp

private theorem queryTurn_leave (h : ∀ x ∈ text, x ≠ 0) (hquery : 63 ∉ text) (rest : List UInt8) :
    queryTurn (text ++ 0 :: rest) = some (.leave (text ++ 0 :: rest)) := by
  rw [queryTurn, strchr_none h hquery (by decide)]
  rfl

private theorem slashTurn_again (h : ∀ x ∈ text, x ≠ 0) (hne : text ≠ []) (rest : List UInt8) :
    slashTurn (text ++ 47 :: 0 :: rest) = some (.again (text ++ 0 :: 0 :: rest)) := by
  rw [slashTurn, strrchr_last h (by decide)]
  simp [strlen_concat h (show (47 : UInt8) ≠ 0 by decide), hne]

private theorem slashTurn_leave (h : ∀ x ∈ text, x ≠ 0) (hkeep : cutSlashes text = text) (rest : List UInt8) :
    slashTurn (text ++ 0 :: rest) = some (.leave (text ++ 0 :: rest)) := by
  cases text using List.reverseRecOn with
  | nil =>
    rw [List.nil_append, slashTurn, strrchr_nil]
    rfl
  | append_singleton before b =>
    have hbefore : ∀ x ∈ before, x ≠ 0 := fun x hx => h x (by simp [hx])
    have hlen := strlen_concat hbefore (h b (by simp)) rest
    rw [List.append_assoc, List.singleton_append]
    by_cases hb : b = 47
    · subst hb
      have hnil : before = [] := by
        by_contra hne
        have hle := (cutSlashes_begins before).length_le
        rw [← cutSlashes_slash hne, hkeep, List.length_append, List.length_singleton] at hle
        omega
      subst hnil
      rw [List.nil_append] at hlen
      rw [slashTurn, strrchr_last hbefore (by decide)]
      simp [hlen]
    · obtain ⟨p, hp, hlt⟩ := strrchr_before hbefore (h b (by simp)) hb rest
      rw [slashTurn, hp]
      cases p with
      | none => rfl
      | some i =>
        have hi : i < before.length := hlt i rfl
        have hne : ¬ ((i : Int) = ((before.length + 1 : Nat) : Int) - 1 ∧ i ≠ 0) := by omega
        simp only [Option.bind_eq_bind, Option.bind_some, hlen, if_neg hne]
        rfl

/-- Each turn finds the text as `cut` leaves it, or shortens it to one of which `cut` makes the same. -/
def Cuts (turn : List UInt8 → Option (Turn (List UInt8))) (cut : List UInt8 → List UInt8) : Prop :=
  ∀ text rest, (∀ x ∈ text, x ≠ 0) →
    (cut text = text ∧ turn (text ++ 0 :: rest) = some (.leave (text ++ 0 :: rest))) ∨
      ∃ before rest', turn (text ++ 0 :: rest) = some (.again (before ++ 0 :: rest')) ∧ before <+: text ∧
        before.length < text.length ∧ cut before = cut text

/-- The copy holds a text of which `cut` makes `goal`. -/
def CutsTo (cut : List UInt8 → List UInt8) (goal path : List UInt8) : Prop :=
  ∃ text rest, path = text ++ 0 :: rest ∧ (∀ x ∈ text, x ≠ 0) ∧ cut text = goal

theorem Cuts.turn {turn : List UInt8 → Option (Turn (List UInt8))} {cut : List UInt8 → List UInt8}
    (hcuts : Cuts turn cut) {goal path : List UInt8} (h : CutsTo cut goal path) :
    (∃ path', turn path = some (.again path') ∧ CutsTo cut goal path' ∧ textLength path' < textLength path) ∨
      ∃ path', turn path = some (.leave path') ∧ ∃ rest, path' = goal ++ 0 :: rest := by
  obtain ⟨text, rest, rfl, hnul, rfl⟩ := h
  obtain ⟨hkeep, hleave⟩ | ⟨before, rest', hagain, hbegins, hlt, hsame⟩ := hcuts text rest hnul
  · exact .inr ⟨_, hleave, rest, by rw [hkeep]⟩
  · have hbefore : ∀ x ∈ before, x ≠ 0 := fun x hx => hnul x (hbegins.subset hx)
    refine .inl ⟨_, hagain, ⟨before, rest', rfl, hbefore, hsame⟩, ?_⟩
    rwa [textLength_text hbefore, textLength_text hnul]

theorem Cuts.loop {turn : List UInt8 → Option (Turn (List UInt8))} {cut : List UInt8 → List UInt8}
    (hcuts : Cuts turn cut) (h : ∀ x ∈ text, x ≠ 0) (rest : List UInt8) :
    ∃ rest', ∀ fuel, text.length < fuel → whileLoop turn fuel (text ++ 0 :: rest) = some (cut text ++ 0 :: rest') := by
  obtain ⟨_, ⟨rest', rfl⟩, hloop⟩ := whileLoop_total (CutsTo cut (cut text))
    (fun path => ∃ rest', path = cut text ++ 0 :: rest') textLength (fun _ hpath => hcuts.turn hpath)
    ⟨text, rest, rfl, h, rfl⟩
  rw [textLength_text h] at hloop
  exact ⟨rest', hloop⟩

private theorem cuts_query : Cuts queryTurn cutQuery := by
  intro text rest h
  by_cases hquery : 63 ∈ text
  · obtain ⟨before, after, rfl, hfirst⟩ := List.eq_append_cons_of_mem hquery
    have hbefore : ∀ x ∈ before, x ≠ 0 := fun x hx => h x (by simp [hx])
    have hcut : cutQuery (before ++ 63 :: after) = before := by
      have hall : ∀ x ∈ before, (x != 63) = true := List.takeWhile_eq_self_iff.mp (cutQuery_of_not_mem hfirst)
      rw [cutQuery, List.takeWhile_append_of_pos hall]
      simp
    refine .inr ⟨before, after ++ 0 :: rest, ?_, List.prefix_append _ _, by simp, ?_⟩
    · rw [List.append_assoc, List.cons_append]
      exact queryTurn_again hbefore hfirst _
    · rw [hcut, cutQuery_of_not_mem hfirst]
  · exact .inl ⟨cutQuery_of_not_mem hquery, queryTurn_leave h hquery rest⟩

private theorem cuts_slashes : Cuts slashTurn cutSlashes := by
  intro text rest h
  obtain hkeep | ⟨before, hne, rfl⟩ := cutSlashes_cases text
  · exact .inl ⟨hkeep, slashTurn_leave h hkeep rest⟩
  · have hbefore : ∀ x ∈ before, x ≠ 0 := fun x hx => h x (by simp [hx])
    refine .inr ⟨before, 0 :: rest, ?_, List.prefix_append _ _, by simp, (cutSlashes_slash hne).symm⟩
    rw [List.append_assoc, List.singleton_append]
    exact slashTurn_again hbefore hne rest

private theorem cleaned_begins (target : List UInt8) : cleaned target <+: target := by
  rw [← cutSlashes_cutQuery]
  exact (cutSlashes_begins _).trans (List.takeWhile_prefix _)

private theorem cleaned_not_mem (target : List UInt8) : 63 ∉ cleaned target := by
  rw [← cutSlashes_cutQuery]
  exact fun hmem => cutQuery_not_mem target ((cutSlashes_begins _).subset hmem)

private theorem cleaned_idem (target : List UInt8) : cleaned (cleaned target) = cleaned target := by
  have hquery := cutQuery_of_not_mem (cleaned_not_mem target)
  rw [← cutSlashes_cutQuery, hquery, ← cutSlashes_cutQuery, cutSlashes_idem]

private theorem cleanLoops_text (h : ∀ x ∈ text, x ≠ 0) (rest : List UInt8) :
    ∃ rest', ∀ fuel, text.length < fuel → cleanLoops fuel (text ++ 0 :: rest) = some (cleaned text ++ 0 :: rest') := by
  obtain ⟨rest₁, hquery⟩ := cuts_query.loop h rest
  have hbegins : cutQuery text <+: text := List.takeWhile_prefix _
  obtain ⟨rest₂, hslashes⟩ := cuts_slashes.loop (fun x hx => h x (hbegins.subset hx)) rest₁
  refine ⟨rest₂, fun fuel hfuel => ?_⟩
  rw [cleanLoops, hquery fuel hfuel, ← cutSlashes_cutQuery]
  exact hslashes fuel (hbegins.length_le.trans_lt hfuel)

private theorem cleanLoops_again (h : ∀ x ∈ cleaned text, x ≠ 0) (rest : List UInt8) {fuel : Nat} (hfuel : 0 < fuel) :
    cleanLoops fuel (cleaned text ++ 0 :: rest) = some (cleaned text ++ 0 :: rest) := by
  have hkeep : cutSlashes (cleaned text) = cleaned text := by
    rw [← cutSlashes_cutQuery, cutSlashes_idem]
  have hquery := whileLoop_leave (queryTurn_leave h (cleaned_not_mem text) rest) hfuel
  have hslashes := whileLoop_leave (slashTurn_leave h hkeep rest) hfuel
  rw [cleanLoops, hquery]
  exact hslashes

/-- The copy of a target without NULs is cut before its first `?`, and loses all `/` at its end but the first byte.
Cleaned once more it stays the same. -/
theorem target_cleaned (target more : List UInt8) (h : ∀ x ∈ target, x ≠ 0) :
    ∃ path rest, path = cleaned target ++ 0 :: rest ∧
      (∀ fuel, target.length < fuel → cleanPath fuel (target ++ more) target.length = some path) ∧
      63 ∉ cleaned target ∧ cleaned target <+: target ∧
      (∀ fuel, 0 < fuel → cleanLoops fuel path = some path) ∧ cleaned (cleaned target) = cleaned target := by
  have hcopy : snprintf (List.replicate (target.length + 3) 0) (target.length + 1) (target ++ more) = some _ :=
    snprintf_take h (by simp)
  obtain ⟨rest, hloops⟩ := cleanLoops_text h ((List.replicate (target.length + 3) 0).drop (target.length + 1))
  refine ⟨_, rest, rfl, fun fuel hfuel => ?_, cleaned_not_mem target, cleaned_begins target, fun fuel hfuel => ?_,
    cleaned_idem target⟩
  · rw [cleanPath, hcopy]
    exact hloops fuel hfuel
  · exact cleanLoops_again (fun x hx => h x ((cleaned_begins target).subset hx)) rest hfuel

theorem target_cleaned_mixture : ∃ path rest, path = ascii "//a" ++ 0 :: rest ∧
    ∀ fuel, 8 < fuel → cleanPath fuel (ascii "//a//?/?" ++ ascii " HTTP/1.1") 8 = some path := by
  obtain ⟨path, rest, hpath, hclean, -⟩ := target_cleaned (ascii "//a//?/?") (ascii " HTTP/1.1") (by decide)
  have htext : cleaned (ascii "//a//?/?") = ascii "//a" := by decide
  exact ⟨path, rest, htext ▸ hpath, hclean⟩

end
end TinyosGraphics.Http
