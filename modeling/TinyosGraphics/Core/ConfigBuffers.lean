import TinyosGraphics.Core.Settings

/-! `tgx_scan_config_file` and `tgx_trim` on any file at all: whether they stay inside `buf`, `key` and `value`. -/
namespace TinyosGraphics.ScanConfig
open Lib

/-- `tgx_trim` where it looks at the `len` characters only, and its answer fits `key` and `value`. -/
def tgxTrimWithin : Trim := fun mem start len => do
  let (ret, answer) ← tgxTrim ((mem.drop start).take len.toNat) 0 len
  let answer ← strcpy TGX_SCAN_CONFIG_FILE_MAX_WLENGTH answer
  return (ret, answer)

/-- Every line is shorter than `key` and `value`, with its line feed if it has one. -/
def Fits : List (List UInt8) → Prop
  | [] => True
  | [last] => last.length < 512
  | body :: lines => body.length + 1 < 512 ∧ Fits lines

/-- `tgx_analyze_configfile` as the scan sees it. A value that overruns `err_page.e_404` ends what can be said about the
scan; it is taken for a call that fails. -/
def analyzeWithin (tmpnam : Nat → List UInt8) : Analyze State := fun s key value =>
  some ((tgxAnalyzeConfigfile tmpnam s key value).getD (-1, s))

/-- The scan stays inside its buffers, and it returns -1 if a line of the file does not fit. -/
def Safe (file : List UInt8) : Prop :=
  ∀ tmpnam, Names tmpnam → ∀ s, ∃ ret s',
    readBytes tgxTrimWithin (analyzeWithin tmpnam) file zeros [] s = some (ret, s') ∧
      (¬ Fits (file.splitOn 10) → ret = -1)

/-- A port that is no number up to 65535. -/
def Refused (key value : List UInt8) : Prop :=
  startsWith key (ascii "port") = true ∧ (value.all isDigit = false ∨ 65535 < atoi value)

/-- The scan does not go on behind this line: the value is refused, or it overruns `err_page.e_404`. -/
def Stops (key value : List UInt8) : Prop :=
  Refused key value ∨ startsWith key (ascii "err_page 404") = true ∧ 256 ≤ value.length

instance (key value : List UInt8) : Decidable (Refused key value) :=
  inferInstanceAs (Decidable (_ ∧ _))

instance (key value : List UInt8) : Decidable (Stops key value) :=
  inferInstanceAs (Decidable (_ ∨ _))

/-- The lines fit, and no key or value of them is all blank, up to the first line that is rejected or stops the scan.
From a NUL on the file has to fit `buf`. -/
def Sound : List (List UInt8) → Prop
  | [] => True
  | [last] => last.length < 512
  | body :: lines =>
    if 0 ∈ body then ([10].intercalate (body :: lines)).length ≤ 1024 ∧ Fits (body :: lines)
    else body.length + 1 < 512 ∧
      match kind body with
      | .blank => Sound lines
      | .entry key value => Stops key value ∨ Sound lines
      | .rejected => True
      | .allBlank => False

private theorem analyzePort_fst (tcycle : TgxCycle) (key value : List UInt8) :
    (analyzePort tcycle key value).1 = if Refused key value then -1 else 0 := by
  by_cases hport : startsWith key (ascii "port") = true
  swap
  · rw [analyzePort, if_neg hport, if_neg fun h => hport h.1]
  by_cases hdigits : value.all isDigit = true
  swap
  · rw [analyzePort, if_pos hport, if_neg hdigits, if_pos ⟨hport, .inl (Bool.eq_false_iff.mpr hdigits)⟩]
  rw [analyzePort, if_pos hport, if_pos hdigits]
  by_cases hrange : 65535 < atoi value
  · rw [if_pos (show Refused key value from ⟨hport, .inr hrange⟩)]
    exact congrArg Prod.fst (if_pos hrange)
  · have hgood : ¬ Refused key value := fun h => h.2.elim (fun hno => by simp [hdigits] at hno) hrange
    rw [if_neg hgood]
    exact congrArg Prod.fst (if_neg hrange)

private theorem copyIf_fits (key start : List UInt8) {value : List UInt8} (h : value.length < 512) (old : List UInt8) :
    ∃ copy, copyIf key start 1024 value old = some copy := by
  rw [copyIf]
  split
  · exact ⟨value, if_pos (by omega)⟩
  · exact ⟨old, rfl⟩

private theorem analyzeWithin_eq {tmpnam : Nat → List UInt8} (hn : Names tmpnam) (s : State) (key : List UInt8)
    {value : List UInt8} (h : value.length < 512) :
    ∃ s', analyzeWithin tmpnam s key value = some (if Stops key value then -1 else 0, s') := by
  have hport := analyzePort_fst s.tcycle key value
  rw [analyzeWithin, tgxAnalyzeConfigfile]
  generalize analyzePort s.tcycle key value = result at hport ⊢
  obtain ⟨ret, tcycle⟩ := result
  dsimp only at hport ⊢
  by_cases hrefused : Refused key value
  · rw [if_pos hrefused] at hport
    rw [if_pos (show Stops key value from .inl hrefused), if_pos (by omega)]
    exact ⟨_, rfl⟩
  rw [if_neg hrefused] at hport
  obtain ⟨root, hroot⟩ := copyIf_fits key (ascii "root") h tcycle.srvRoot
  obtain ⟨lock, hlock⟩ := copyIf_fits key (ascii "lock") h tcycle.lockFile
  obtain ⟨log, hlog⟩ := copyIf_fits key (ascii "log") h tcycle.logFile
  have htmp : strcpy 256 (tmpnam s.tmps) = some (tmpnam s.tmps) := by
    have := hn s.tmps
    exact if_pos (by omega)
  simp only [hport, lt_self_iff_false, if_false, hroot, hlock, hlog, htmp, Option.bind_eq_bind, Option.bind_some]
  by_cases herr : startsWith key (ascii "err_page 404") = true
  · by_cases hlen : value.length < 256
    · have hgoes : ¬ Stops key value := not_or.mpr ⟨hrefused, fun hstop => absurd hstop.2 (by omega)⟩
      rw [if_pos herr, if_neg hgoes, strcpy, if_pos hlen]
      exact ⟨_, rfl⟩
    · rw [if_pos herr, if_pos (show Stops key value from .inr ⟨herr, by omega⟩), strcpy, if_neg hlen]
      exact ⟨_, rfl⟩
  · have hgoes : ¬ Stops key value := not_or.mpr ⟨hrefused, fun hstop => herr hstop.1⟩
    rw [if_neg herr, if_neg hgoes]
    exact ⟨_, rfl⟩

private theorem entry_value_length {body key value : List UInt8} (h : kind body = .entry key value) :
    value.length ≤ body.length := by
  obtain ⟨-, hnone⟩ | ⟨k, v, rfl, hkey, -⟩ := strstr_equals_cases body
  · rw [kind, hnone] at h
    dsimp only at h
    split at h <;> cases h
  · rw [kind_equals hkey] at h
    have hstrip : value = strip v := by
      split at h <;> try cases h
      split at h <;> try cases h
      split at h <;> try cases h
      split at h <;> cases h
      rfl
    have hle : (strip v).length ≤ v.length :=
      ((List.rdropWhile_prefix _ _).length_le).trans (List.dropWhile_suffix _).length_le
    rw [hstrip, List.length_append, List.length_cons]
    omega

private theorem tgxTrimWithin_text (front rest text : List UInt8) :
    tgxTrimWithin (front ++ text ++ rest) front.length text.length =
      (tgxTrim text 0 text.length).bind fun (ret, answer) =>
        (strcpy TGX_SCAN_CONFIG_FILE_MAX_WLENGTH answer).map fun answer => (ret, answer) := by
  have htext : ((front ++ text ++ rest).drop front.length).take text.length = text := by
    rw [List.append_assoc, List.drop_left, List.take_left]
  rw [tgxTrimWithin, Int.toNat_natCast, htext]
  refine Option.bind_congr fun trimmed _ => ?_
  exact Option.map_eq_bind.symm

private theorem length_strip_le (text : List UInt8) : (strip text).length ≤ text.length :=
  ((List.rdropWhile_prefix _ _).length_le).trans (List.dropWhile_suffix _).length_le

private theorem trims_tgxTrimWithin : Trims tgxTrimWithin where
  short front rest text h := by
    have htrim : tgxTrim text 0 text.length = some (-1, []) := by
      rw [tgxTrim, if_pos (by omega)]
    rw [tgxTrimWithin_text, htrim]
    rfl
  word front rest text h hlen hword := by
    have htrim := tgxTrim_strip [] [] h hword
    rw [List.nil_append, List.append_nil, List.length_nil] at htrim
    have hfits := (length_strip_le text).trans_lt hlen
    rw [tgxTrimWithin_text, htrim, Option.bind_some]
    dsimp only
    rw [strcpy, if_pos hfits]
    rfl

private theorem tgxTrim_blank {text : List UInt8} (h : 2 ≤ text.length) (hblank : text.all isBlank = true) :
    tgxTrim text 0 text.length = none := by
  have hscan : scan isBlank text 0 = none := by
    rw [scan_eq, if_pos (List.dropWhile_eq_nil_iff.mpr (List.all_eq_true.mp hblank))]
  rw [tgxTrim, if_neg (by omega), List.drop_zero, hscan]
  rfl

private theorem tgxTrimWithin_blank (front rest : List UInt8) {text : List UInt8} (h : 2 ≤ text.length)
    (hblank : text.all isBlank = true) : tgxTrimWithin (front ++ text ++ rest) front.length text.length = none := by
  rw [tgxTrimWithin_text, tgxTrim_blank h hblank]
  rfl

private theorem tgxTrim_of_within {mem : List UInt8} {start : Nat} {len : Int} {result : Int × List UInt8}
    (h : tgxTrimWithin mem start len = some result) : tgxTrim mem start len = some result := by
  obtain ⟨⟨ret, answer⟩, htrim, hcopy⟩ := Option.bind_eq_some_iff.mp h
  obtain ⟨copy, hcopy, hresult⟩ := Option.bind_eq_some_iff.mp hcopy
  rw [strcpy] at hcopy
  split at hcopy
  swap
  · cases hcopy
  cases hcopy
  cases hresult
  by_cases hshort : len ≤ 1
  · rw [tgxTrim, if_pos hshort] at htrim ⊢
    exact htrim
  by_cases hlen : ((mem.drop start).take len.toNat).length = len.toNat
  · obtain ⟨text, htext⟩ : ∃ text, (mem.drop start).take len.toNat = text := ⟨_, rfl⟩
    rw [htext] at hlen htrim
    have hstart : start ≤ mem.length := by
      rw [← htext, List.length_take, List.length_drop] at hlen
      omega
    have hmem : mem = mem.take start ++ text ++ (mem.drop start).drop len.toNat := by
      rw [← htext, List.append_assoc, List.take_append_drop, List.take_append_drop]
    have hfront : (mem.take start).length = start := List.length_take_of_le hstart
    obtain rfl : len = text.length := by omega
    by_cases hblank : text.all isBlank = true
    · rw [tgxTrim_blank (by omega) hblank] at htrim
      cases htrim
    · have hword : ∃ b ∈ text, isBlank b = false := by simpa using hblank
      have hinside := tgxTrim_strip [] [] (by omega) hword
      have hthere := tgxTrim_strip (mem.take start) ((mem.drop start).drop (text.length : Int).toNat) (by omega) hword
      rw [List.nil_append, List.append_nil, List.length_nil] at hinside
      rw [← hmem, hfront] at hthere
      exact hthere.trans (hinside.symm.trans htrim)
  · -- the memory ends in front of the last character
    have hback : scanBack isBlank ((mem.drop start).take len.toNat) (0 + len.toNat - 1) = none := by
      have hle := (mem.drop start).length_take_le len.toNat
      obtain ⟨p, hp⟩ : ∃ p, 0 + len.toNat - 1 = p + 1 := ⟨len.toNat - 2, by omega⟩
      rw [hp, scanBack, List.getElem?_eq_none (by omega)]
      rfl
    rw [tgxTrim, if_neg hshort, hback] at htrim
    obtain ⟨pStart, -, hnone⟩ := Option.bind_eq_some_iff.mp htrim
    cases hnone

section
variable {σ : Type} {analyze : Analyze σ} {stale : List UInt8}

private theorem stepLine_of_within {line : List UInt8} {s : σ} {result : Step σ}
    (h : stepLine tgxTrimWithin analyze stale line s = some result) :
    stepLine tgxTrim analyze stale line s = some result := by
  rw [stepLine] at h ⊢
  split at h
  · cases h
  rename_i hlen
  rw [if_neg hlen]
  dsimp only at h ⊢
  split at h
  · cases h
  rename_i hnul
  rw [if_neg hnul]
  generalize line ++ stale.drop line.length = mem at h ⊢
  generalize strstr (mem.takeWhile (· != 0)) (ascii "=") = equals at h ⊢
  generalize strstr (mem.takeWhile (· != 0)) (ascii "\n") = lineFeed at h ⊢
  cases equals with
  | none => exact h
  | some eq =>
  cases lineFeed with
  | none => cases h
  | some lf =>
  obtain ⟨keyTrim, hkey, h⟩ := Option.bind_eq_some_iff.mp h
  refine Option.bind_eq_some_iff.mpr ⟨keyTrim, tgxTrim_of_within hkey, ?_⟩
  split at h
  · rename_i hret
    rw [if_pos hret]
    exact h
  rename_i hret
  rw [if_neg hret]
  obtain ⟨valueTrim, hvalue, h⟩ := Option.bind_eq_some_iff.mp h
  exact Option.bind_eq_some_iff.mpr ⟨valueTrim, tgxTrim_of_within hvalue, h⟩

/-- A scan that stays inside the characters that `tgx_trim` is given is the scan of the program. -/
private theorem readBytes_of_within {file buf : List UInt8} {s : σ} {result : Int × σ}
    (h : readBytes tgxTrimWithin analyze file stale buf s = some result) :
    readBytes tgxTrim analyze file stale buf s = some result := by
  induction file generalizing stale buf s with
  | nil => exact h
  | cons b file ih =>
    rw [readBytes] at h ⊢
    split at h
    swap
    · cases h
    rename_i hroom
    rw [if_pos hroom]
    dsimp only at h ⊢
    split at h
    · cases h
    rename_i hfull
    rw [if_neg hfull]
    split at h
    swap
    · rename_i hline
      rw [if_neg hline]
      exact ih h
    rename_i hline
    rw [if_pos hline]
    cases hstep : stepLine tgxTrimWithin analyze stale ((buf ++ [b]).takeWhile (· != 0)) s with
    | none =>
      rw [hstep] at h
      cases h
    | some step =>
      rw [hstep] at h
      rw [stepLine_of_within hstep]
      cases step with
      | blank stale => exact ih h
      | next s => exact ih h
      | err s => exact h

/-- Taking a call that overruns something for one that fails changes only how the scan ends there. -/
private theorem stepLine_getD {line : List UInt8} {s : σ} {result : Step σ}
    (h : stepLine tgxTrim (fun s key value => some ((analyze s key value).getD (-1, s))) stale line s = some result) :
    stepLine tgxTrim analyze stale line s = some result ∨
      stepLine tgxTrim analyze stale line s = none ∧ result = .err s := by
  rw [stepLine] at h ⊢
  split at h
  · cases h
  rename_i hlen
  rw [if_neg hlen]
  dsimp only at h ⊢
  split at h
  · cases h
  rename_i hnul
  rw [if_neg hnul]
  generalize line ++ stale.drop line.length = mem at h ⊢
  generalize strstr (mem.takeWhile (· != 0)) (ascii "=") = equals at h ⊢
  generalize strstr (mem.takeWhile (· != 0)) (ascii "\n") = lineFeed at h ⊢
  cases equals with
  | none => exact .inl h
  | some eq =>
  cases lineFeed with
  | none => cases h
  | some lf =>
  obtain ⟨keyTrim, hkey, h⟩ := Option.bind_eq_some_iff.mp h
  dsimp only
  rw [hkey, Option.bind_eq_bind, Option.bind_some]
  split at h
  · rename_i hret
    rw [if_pos hret]
    exact .inl h
  rename_i hret
  rw [if_neg hret]
  obtain ⟨valueTrim, hvalue, h⟩ := Option.bind_eq_some_iff.mp h
  rw [hvalue, Option.bind_eq_bind, Option.bind_some]
  split at h
  · rename_i hret
    rw [if_pos hret]
    exact .inl h
  rename_i hret
  rw [if_neg hret]
  cases hcall : analyze s keyTrim.2 valueTrim.2 with
  | some answer =>
    rw [hcall] at h
    exact .inl h
  | none =>
    rw [hcall] at h
    exact .inr ⟨rfl, (Option.some.inj h).symm⟩

private theorem readBytes_getD {file buf : List UInt8} {s : σ} {result : Int × σ}
    (h : readBytes tgxTrim (fun s key value => some ((analyze s key value).getD (-1, s))) file stale buf s =
      some result) :
    readBytes tgxTrim analyze file stale buf s = some result ∨
      readBytes tgxTrim analyze file stale buf s = none ∧ result.1 = -1 := by
  induction file generalizing stale buf s with
  | nil => exact .inl h
  | cons b file ih =>
    rw [readBytes] at h ⊢
    split at h
    swap
    · cases h
    rename_i hroom
    rw [if_pos hroom]
    dsimp only at h ⊢
    split at h
    · cases h
    rename_i hfull
    rw [if_neg hfull]
    split at h
    swap
    · rename_i hline
      rw [if_neg hline]
      exact ih h
    rename_i hline
    rw [if_pos hline]
    split at h
    · cases h
    all_goals rename_i hstep
    · obtain hsame | ⟨-, herr⟩ := stepLine_getD hstep
      · rw [hsame]
        exact ih h
      · cases herr
    · obtain hsame | ⟨-, herr⟩ := stepLine_getD hstep
      · rw [hsame]
        exact ih h
      · cases herr
    · obtain hsame | ⟨hnone, -⟩ := stepLine_getD hstep
      · rw [hsame]
        exact .inl h
      · rw [hnone]
        obtain rfl := Option.some.inj h
        exact .inr ⟨rfl, rfl⟩

private theorem stepLine_allBlank (hstale : Stale stale) (s : σ) {body : List UInt8}
    (hbody : ∀ b ∈ body, b ≠ 0 ∧ b ≠ 10)
    (hlen : body.length + 1 < 512) (hkind : kind body = .allBlank) :
    stepLine tgxTrimWithin analyze stale (body ++ [10]) s = none := by
  obtain ⟨-, hnone⟩ | ⟨key, value, rfl, hkey, -⟩ := strstr_equals_cases body
  · rw [kind, hnone] at hkind
    dsimp only at hkind
    split at hkind <;> cases hkind
  · obtain ⟨front, rest, rest', hstep⟩ :=
      @stepLine_equals σ tgxTrimWithin analyze stale hstale s key value hbody hlen hkey
    simp only [List.length_append, List.length_cons] at hlen
    rw [kind_equals hkey] at hkind
    rw [hstep]
    split at hkind
    · cases hkind
    rename_i hlong
    split at hkind
    · rename_i hblank
      rw [tgxTrimWithin_blank [] rest (by omega) hblank]
      rfl
    rename_i hword
    split at hkind
    · cases hkind
    rename_i hlong'
    split at hkind
    · rename_i hblank
      have hword : ∃ b ∈ key, isBlank b = false := by simpa using hword
      rw [trims_tgxTrimWithin.word [] rest key (by omega) (by rw [TGX_SCAN_CONFIG_FILE_MAX_WLENGTH]; omega) hword,
        Option.bind_some, tgxTrimWithin_blank front rest' (by omega) hblank]
      rfl
    · cases hkind

end

private theorem file_induction {P : List UInt8 → Prop} (last : ∀ file, 10 ∉ file → P file)
    (line : ∀ body rest, 10 ∉ body → P rest → P (body ++ 10 :: rest)) (file : List UInt8) : P file := by
  induction hlen : file.length using Nat.strong_induction_on generalizing file with
  | _ n ih =>
    by_cases h : 10 ∈ file
    · obtain ⟨body, rest, rfl, hbody⟩ := List.eq_append_cons_of_mem h
      rw [List.length_append, List.length_cons] at hlen
      exact line body rest hbody (ih rest.length (by omega) rest rfl)
    · exact last file h

private theorem fits_last {file : List UInt8} (h : 10 ∉ file) : Fits (file.splitOn 10) ↔ file.length < 512 := by
  rw [List.splitOn_eq_singleton h, Fits]

private theorem sound_last {file : List UInt8} (h : 10 ∉ file) : Sound (file.splitOn 10) ↔ file.length < 512 := by
  rw [List.splitOn_eq_singleton h, Sound]

private theorem fits_line {body : List UInt8} (h : 10 ∉ body) (rest : List UInt8) :
    Fits ((body ++ 10 :: rest).splitOn 10) ↔ body.length + 1 < 512 ∧ Fits (rest.splitOn 10) := by
  obtain ⟨line, lines, hlines⟩ := List.exists_cons_of_ne_nil (List.splitOn_ne_nil 10 rest)
  rw [List.splitOn_append_cons_self_of_not_mem h, hlines, Fits]
  exact List.cons_ne_nil _ _

private theorem sound_line {body : List UInt8} (h : 10 ∉ body) (rest : List UInt8) :
    Sound ((body ++ 10 :: rest).splitOn 10) ↔
      if 0 ∈ body then (body ++ 10 :: rest).length ≤ 1024 ∧ Fits ((body ++ 10 :: rest).splitOn 10)
      else body.length + 1 < 512 ∧
        match kind body with
        | .blank => Sound (rest.splitOn 10)
        | .entry key value => Stops key value ∨ Sound (rest.splitOn 10)
        | .rejected => True
        | .allBlank => False := by
  have hwhole : [10].intercalate ((body ++ 10 :: rest).splitOn 10) = body ++ 10 :: rest := List.intercalate_splitOn 10
  obtain ⟨line, lines, hlines⟩ := List.exists_cons_of_ne_nil (List.splitOn_ne_nil 10 rest)
  rw [List.splitOn_append_cons_self_of_not_mem h, hlines] at hwhole ⊢
  rw [Sound, hwhole]
  exact List.cons_ne_nil _ _

section
variable {σ : Type} {trim : Trim} {analyze : Analyze σ} {stale : List UInt8} (s : σ)

private theorem readBytes_last {file : List UInt8} (h : 10 ∉ file) :
    (file.length < 512 → readBytes trim analyze file stale [] s = some (0, s)) ∧
      ∀ ret s', readBytes trim analyze file stale [] s = some (ret, s') → ret = 0 := by
  have hlf : ∀ b ∈ file, b ≠ 10 := fun b hb h10 => h (h10 ▸ hb)
  obtain ⟨n, hn, hread⟩ : ∃ n, 512 ≤ n ∧ readBytes trim analyze file stale [] s =
      if file.length < n then some (0, s) else none := by
    by_cases hnul : 0 ∈ file
    · have hread := @readBytes_of_nul σ trim analyze stale s file [] hlf hnul
      rw [List.append_nil] at hread
      exact ⟨1025, by omega, by rw [hread]; simp only [Nat.lt_succ_iff]⟩
    · exact ⟨1024, by omega, readBytes_end s fun b hb => ⟨fun h0 => hnul (h0 ▸ hb), hlf b hb⟩⟩
  rw [hread]
  refine ⟨fun hlen => if_pos (by omega), fun ret s' h => ?_⟩
  split at h
  · cases h
    rfl
  · cases h

end

section
variable {tmpnam : Nat → List UInt8} (hn : Names tmpnam)
include hn

private theorem sound_of_readBytes (file : List UInt8) {stale : List UInt8} (hstale : Stale stale) {ret : Int}
    {s s' : State}
    (hread : readBytes tgxTrimWithin (analyzeWithin tmpnam) file stale [] s = some (ret, s'))
    (hret : ¬ Fits (file.splitOn 10) → ret = -1) : Sound (file.splitOn 10) := by
  induction file using file_induction generalizing stale s with
  | last file hlf =>
    rw [sound_last hlf]
    by_contra hlong
    have hzero := (readBytes_last s hlf).2 ret s' hread
    have hminus := hret ((fits_last hlf).not.mpr hlong)
    omega
  | line body rest hbody ih =>
    have hlf : ∀ b ∈ body, b ≠ 10 := fun b hb h10 => hbody (h10 ▸ hb)
    rw [sound_line hbody]
    split
    · rename_i hnul
      rw [readBytes_of_nul s (10 :: rest) hlf hnul] at hread
      split at hread
      · rename_i hroom
        cases hread
        exact ⟨hroom, by_contra fun hlong => absurd (hret hlong) (by decide)⟩
      · cases hread
    rename_i hnul
    have hchars : ∀ b ∈ body, b ≠ 0 ∧ b ≠ 10 := fun b hb => ⟨fun h0 => hnul (h0 ▸ hb), hlf b hb⟩
    obtain ⟨hlong, hshort⟩ := @readBytes_row State tgxTrimWithin (analyzeWithin tmpnam) stale hstale s
      trims_tgxTrimWithin body rest hchars
    by_cases hlen : body.length + 1 < 512
    swap
    · cases (hlong (by omega)).symm.trans hread
    have hrest : ¬ Fits (rest.splitOn 10) → ret = -1 := fun h => hret fun hfits => h ((fits_line hbody rest).mp hfits).2
    obtain ⟨hblank, -, hentry⟩ := hshort hlen
    refine ⟨hlen, ?_⟩
    cases hkind : kind body with
    | blank =>
      obtain ⟨stale', hstale', hstep⟩ := hblank hkind
      exact ih hstale' (hstep.symm.trans hread) hrest
    | entry key value =>
      have hvalue := entry_value_length hkind
      obtain ⟨next, hcall⟩ := analyzeWithin_eq hn s key (show value.length < 512 by omega)
      rw [hentry key value hkind, hcall, Option.bind_some] at hread
      refine or_iff_not_imp_left.mpr fun hstop => ?_
      simp only [if_neg hstop, lt_self_iff_false, if_false] at hread
      exact ih stale_zeros hread hrest
    | rejected => trivial
    | allBlank =>
      rw [readBytes_line s rest hchars, stepLine_allBlank hstale s hchars hlen hkind] at hread
      split at hread <;> cases hread

end

theorem Safe.sound {file : List UInt8} (h : Safe file) : Sound (file.splitOn 10) := by
  have hn : Names fun _ => [] := fun _ => Nat.zero_lt_succ 19
  obtain ⟨ret, s', hread, hret⟩ := h _ hn ⟨⟨0, [], [], [], []⟩, 0⟩
  exact sound_of_readBytes hn file stale_zeros hread hret

/-- What is scanned inside the buffers is scanned so by the program, up to a call that overruns `err_page.e_404`. -/
theorem tgxScanConfigFile_of_within {tmpnam : Nat → List UInt8} {tcycle : TgxCycle} {file : List UInt8}
    {result : Int × State}
    (h : readBytes tgxTrimWithin (analyzeWithin tmpnam) file zeros [] ⟨tcycle, 0⟩ = some result) :
    tgxScanConfigFile tmpnam tcycle file = some result ∨
      tgxScanConfigFile tmpnam tcycle file = none ∧ result.1 = -1 := by
  rw [tgxScanConfigFile, scanLoop_eq_readBytes]
  exact readBytes_getD (readBytes_of_within h)

/-- Behind a port that is out of range a line may be anything: `port = 70000`, and then `  =ab`. -/
example : Sound ((ascii "port = 70000\n  =ab\n").splitOn 10) := by
  rw [show ascii "port = 70000\n  =ab\n" = ascii "port = 70000" ++ 10 :: ascii "  =ab\n" from rfl,
    sound_line (by decide), if_neg (by decide),
    show kind (ascii "port = 70000") = .entry (ascii "port") (ascii "70000") by decide]
  exact ⟨by decide, .inl (by decide +kernel)⟩

end TinyosGraphics.ScanConfig
