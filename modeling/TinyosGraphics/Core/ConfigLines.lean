import Mathlib.Data.List.DropRight
import TinyosGraphics.Core.ScanConfig

/-! `tgx_scan_config_file` over any `tgx_analyze_configfile`: how it reads the lines of a file, and what becomes of
each. -/
namespace TinyosGraphics.ScanConfig
open Lib

/-- A function in the place of `tgx_trim`. -/
abbrev Trim := List UInt8 → Nat → Int → Option (Int × List UInt8)

/-- A function in the place of `tgx_analyze_configfile`. -/
abbrev Analyze (σ : Type) := σ → List UInt8 → List UInt8 → Option (Int × σ)

/-- What becomes of a line, with the settings of any kind. -/
inductive Step (σ : Type)
  | blank (stale : List UInt8)
  | next (s : σ)
  | err (s : σ)

section
variable {σ : Type} (trim : Trim) (analyze : Analyze σ)

/-- The body of the `if` that has found a line feed. -/
def stepLine (stale line : List UInt8) (s : σ) : Option (Step σ) :=
  if line.length > TGX_SCAN_CONFIG_FILE_MAX_WLENGTH then none
  else
    let mem := line ++ stale.drop line.length
    if !mem.contains 0 then none
    else
      let str := mem.takeWhile (· != 0)
      match strstr str (ascii "="), strstr str (ascii "\n") with
      | none, _ => if (line.takeWhile (· != 10)).all isBlank then some (.blank mem) else some (.err s)
      | some _, none => none
      | some eq, some lf => do
        let (ret, key) ← trim mem 0 eq
        if ret < 0 then return .err s
        let (ret, value) ← trim mem (eq + 1) (lf - (eq + 1 : Nat))
        if ret < 0 then return .err s
        let (ret, s) ← analyze s key value
        if ret < 0 then return .err s
        return .next s

def readBytes : List UInt8 → List UInt8 → List UInt8 → σ → Option (Int × σ)
  | [], _, _, s => some (0, s)
  | b :: file, stale, buf, s =>
    if buf.length < TGX_SCAN_CONFIG_FILE_MAX_LENGTH then
      let buf := buf ++ [b]
      if buf.length = TGX_SCAN_CONFIG_FILE_MAX_LENGTH ∧ !buf.contains 0 then none
      else
        let line := buf.takeWhile (· != 0)
        if line.contains 10 then
          match stepLine trim analyze stale line s with
          | none => none
          | some (.blank stale) => readBytes file stale [] s
          | some (.next s) => readBytes file zeros [] s
          | some (.err s) => some (-1, s)
        else readBytes file stale buf s
    else none

end

/-- A line, with the settings that the program has. -/
def LineResult.step : LineResult → Step State
  | .blank stale => .blank stale
  | .next s => .next s
  | .err s => .err s

private theorem stepLine_eq_scanLine (tmpnam : Nat → List UInt8) (stale line : List UInt8) (s : State) :
    stepLine tgxTrim (tgxAnalyzeConfigfile tmpnam) stale line s =
      (scanLine tmpnam stale line s).map LineResult.step := by
  unfold stepLine scanLine
  dsimp only
  split
  · rfl
  split
  · rfl
  generalize line ++ stale.drop line.length = mem
  generalize strstr (mem.takeWhile (· != 0)) (ascii "=") = equals
  generalize strstr (mem.takeWhile (· != 0)) (ascii "\n") = lineFeed
  cases equals with
  | none =>
    dsimp only
    split <;> rfl
  | some eq =>
  cases lineFeed with
  | none => rfl
  | some lf =>
  dsimp only
  cases tgxTrim mem 0 eq with
  | none => rfl
  | some keyTrim =>
    dsimp only [Option.bind_eq_bind, Option.bind_some]
    split
    · rfl
    cases tgxTrim mem (eq + 1) (lf - (eq + 1 : Nat)) with
    | none => rfl
    | some valueTrim =>
      dsimp only [Option.bind_some]
      split
      · rfl
      cases tgxAnalyzeConfigfile tmpnam s keyTrim.2 valueTrim.2 with
      | none => rfl
      | some result =>
        dsimp only [Option.bind_some]
        split <;> rfl

/-- `tgx_scan_config_file` with `tgx_analyze_configfile` as it is. -/
theorem scanLoop_eq_readBytes (tmpnam : Nat → List UInt8) (file stale buf : List UInt8) (s : State) :
    scanLoop tmpnam file stale buf s = readBytes tgxTrim (tgxAnalyzeConfigfile tmpnam) file stale buf s := by
  induction file generalizing stale buf s with
  | nil => rfl
  | cons b file ih =>
    rw [scanLoop, readBytes]
    dsimp only
    split
    · split
      · rfl
      · split
        · rw [stepLine_eq_scanLine]
          cases scanLine tmpnam stale ((buf ++ [b]).takeWhile (· != 0)) s with
          | none => rfl
          | some result =>
            cases result with
            | blank stale => exact ih _ _ _
            | next s => exact ih _ _ _
            | err s => rfl
        · exact ih _ _ _
    · rfl

private theorem contains_false {b : UInt8} {text : List UInt8} (h : b ∉ text) : text.contains b = false := by
  rwa [List.contains_eq_mem, decide_eq_false_iff_not]

private theorem zero_not_mem_line {body : List UInt8} (hbody : ∀ b ∈ body, b ≠ 0 ∧ b ≠ 10) : 0 ∉ body ++ [10] := by
  intro h
  rcases List.mem_append.mp h with h | h
  · exact (hbody 0 h).1 rfl
  · cases List.mem_singleton.mp h

private theorem ne_zero_of_mem_line {body : List UInt8} (hbody : ∀ b ∈ body, b ≠ 0 ∧ b ≠ 10) :
    ∀ b ∈ body ++ [10], (b != 0) = true :=
  fun _ hb => bne_iff_ne.mpr (ne_of_mem_of_not_mem hb (zero_not_mem_line hbody))

section
variable {σ : Type} {trim : Trim} {analyze : Analyze σ} {stale : List UInt8} (s : σ)

private theorem readBytes_reads {buf xs : List UInt8} (file : List UInt8) (hxs : ∀ b ∈ xs, b ≠ 0 ∧ b ≠ 10)
    (hbuf : ∀ b ∈ buf, b ≠ 0 ∧ b ≠ 10) (hlen : buf.length < 1024) :
    readBytes trim analyze (xs ++ file) stale buf s =
      if (buf ++ xs).length < 1024 then readBytes trim analyze file stale (buf ++ xs) s else none := by
  induction xs generalizing buf with
  | nil => simp [hlen]
  | cons b xs ih =>
    have hbuf' : ∀ x ∈ buf ++ [b], x ≠ 0 ∧ x ≠ 10 := by
      intro x hx
      rcases List.mem_append.mp hx with hx | hx
      · exact hbuf x hx
      · rw [List.mem_singleton.mp hx]
        exact hxs b (by simp)
    have hnul : (buf ++ [b]).contains 0 = false := contains_false fun h => (hbuf' 0 h).1 rfl
    have hline : ((buf ++ [b]).takeWhile (· != 0)).contains 10 = false :=
      contains_false fun h => (hbuf' 10 ((List.takeWhile_prefix _).subset h)).2 rfl
    rw [List.cons_append, readBytes, if_pos (show _ < TGX_SCAN_CONFIG_FILE_MAX_LENGTH from hlen)]
    simp only [hnul, hline, Bool.not_false, and_true, Bool.false_eq_true, if_false]
    split
    · rename_i hfull
      rw [if_neg]
      simp only [TGX_SCAN_CONFIG_FILE_MAX_LENGTH, List.length_append, List.length_cons, List.length_nil]
        at hfull ⊢
      omega
    · rename_i hroom
      rw [ih (fun x hx => hxs x (by simp [hx])) hbuf' (by
        simp only [TGX_SCAN_CONFIG_FILE_MAX_LENGTH, List.length_append, List.length_singleton] at hroom ⊢
        omega)]
      simp

/-- A line is read to its line feed, unless `buf` is full by then. -/
theorem readBytes_line {body : List UInt8} (file : List UInt8) (hbody : ∀ b ∈ body, b ≠ 0 ∧ b ≠ 10) :
    readBytes trim analyze (body ++ 10 :: file) stale [] s =
      if body.length + 1 < 1024 then
        match stepLine trim analyze stale (body ++ [10]) s with
        | none => none
        | some (.blank stale) => readBytes trim analyze file stale [] s
        | some (.next s) => readBytes trim analyze file zeros [] s
        | some (.err s) => some (-1, s)
      else none := by
  have hlen : (body ++ [10]).length = body.length + 1 := List.length_append
  have hnone : (body ++ [10]).contains 0 = false := contains_false (zero_not_mem_line hbody)
  have hlf : (body ++ [10]).contains 10 = true := by simp
  rw [readBytes_reads s _ hbody (List.forall_mem_nil _) (by simp), List.nil_append]
  by_cases hfits : body.length + 1 < 1024
  · rw [if_pos (by omega), if_pos hfits, readBytes, if_pos (by rw [TGX_SCAN_CONFIG_FILE_MAX_LENGTH]; omega)]
    rw [if_neg (by rw [TGX_SCAN_CONFIG_FILE_MAX_LENGTH]; omega),
      List.takeWhile_eq_self_iff.mpr (ne_zero_of_mem_line hbody),
      if_pos hlf]
  · rw [if_neg hfits]
    split
    · rw [readBytes, if_pos (by simpa only [TGX_SCAN_CONFIG_FILE_MAX_LENGTH]),
        if_pos ⟨by rw [TGX_SCAN_CONFIG_FILE_MAX_LENGTH]; omega, by rw [hnone]; rfl⟩]
    · rfl

/-- What stands behind the last line feed is read to the end of the file, if it fits `buf`. -/
theorem readBytes_end {last : List UInt8} (hlast : ∀ b ∈ last, b ≠ 0 ∧ b ≠ 10) :
    readBytes trim analyze last stale [] s = if last.length < 1024 then some (0, s) else none := by
  have hread := @readBytes_reads σ trim analyze stale s [] last [] hlast (List.forall_mem_nil _) (by simp)
  rwa [List.append_nil, List.nil_append] at hread

private theorem readBytes_buffer {front more : List UInt8} (file : List UInt8) (hfront : 10 ∉ front)
    (hlen : (front ++ 0 :: more).length ≤ 1024) :
    readBytes trim analyze file stale (front ++ 0 :: more) s =
      if (front ++ 0 :: more ++ file).length ≤ 1024 then some (0, s) else none := by
  induction file generalizing more with
  | nil => rw [readBytes, List.append_nil, if_pos hlen]
  | cons b file ih =>
    have hbuf : front ++ 0 :: more ++ [b] = front ++ 0 :: (more ++ [b]) := by simp
    have hnul : (front ++ 0 :: (more ++ [b])).contains 0 = true := by simp
    have hline : ((front ++ 0 :: (more ++ [b])).takeWhile (· != 0)).contains 10 = false := by
      refine contains_false ?_
      rw [List.takeWhile_append, List.takeWhile_cons_of_neg (by decide), List.append_nil]
      split
      · exact hfront
      · exact fun h => hfront ((List.takeWhile_prefix _).subset h)
    have hstep : readBytes trim analyze (b :: file) stale (front ++ 0 :: more) s =
        if (front ++ 0 :: more).length < 1024 then
          readBytes trim analyze file stale (front ++ 0 :: (more ++ [b])) s
        else none := by
      rw [readBytes]
      simp only [hbuf, hnul, hline, Bool.not_true, Bool.false_eq_true, and_false, if_false,
        TGX_SCAN_CONFIG_FILE_MAX_LENGTH]
    rw [hstep]
    split
    · rename_i hroom
      rw [ih (by rw [← hbuf, List.length_append, List.length_singleton]; omega), ← hbuf, List.append_assoc _ [b],
        List.singleton_append]
    · rename_i hfull
      rw [if_neg (by rw [List.length_append, List.length_cons]; omega)]

private theorem readBytes_nul {front : List UInt8} (more : List UInt8) (hfront : ∀ b ∈ front, b ≠ 0 ∧ b ≠ 10) :
    readBytes trim analyze (front ++ 0 :: more) stale [] s =
      if (front ++ 0 :: more).length ≤ 1024 then some (0, s) else none := by
  have hnul : (front ++ [0]).contains 0 = true := by simp
  have hline : ((front ++ [0]).takeWhile (· != 0)).contains 10 = false := by
    refine contains_false fun h => ?_
    rcases List.mem_append.mp ((List.takeWhile_prefix _).subset h) with h | h
    · exact (hfront 10 h).2 rfl
    · cases List.mem_singleton.mp h
  rw [readBytes_reads s _ hfront (List.forall_mem_nil _) (by simp), List.nil_append]
  split
  · rename_i hroom
    rw [readBytes]
    simp only [hnul, hline, Bool.not_true, Bool.false_eq_true, and_false, if_false]
    rw [if_pos (show _ < TGX_SCAN_CONFIG_FILE_MAX_LENGTH from hroom),
      readBytes_buffer s more (fun h => (hfront 10 h).2 rfl) (by simpa using hroom)]
    simp
  · rename_i hfull
    rw [if_neg (by rw [List.length_append, List.length_cons]; omega)]

theorem readBytes_of_nul {body : List UInt8} (more : List UInt8) (hlf : ∀ b ∈ body, b ≠ 10) (hnul : 0 ∈ body) :
    readBytes trim analyze (body ++ more) stale [] s = if (body ++ more).length ≤ 1024 then some (0, s) else none := by
  obtain ⟨front, behind, rfl, hfront⟩ := List.eq_append_cons_of_mem hnul
  have hchars : ∀ b ∈ front, b ≠ 0 ∧ b ≠ 10 := fun b hb =>
    ⟨fun h0 => hfront (h0 ▸ hb), hlf b (List.mem_append_left _ hb)⟩
  rw [List.append_assoc, List.cons_append]
  exact readBytes_nul s _ hchars

end

theorem blank_chars {b : UInt8} (h : isBlank b = true) : b ≠ 0 ∧ b ≠ 10 ∧ b ≠ 61 := by
  rcases (Bool.or_eq_true _ _).mp h with h | h
  · rw [eq_of_beq h]
    decide
  · rw [eq_of_beq h]
    decide

/-- A word between blanks is what `tgx_trim` answers, unless there is just one byte to trim. -/
private theorem tgxTrim_word (front rest : List UInt8) {lead word trail : List UInt8}
    (hlead : ∀ b ∈ lead, isBlank b = true)
    (htrail : ∀ b ∈ trail, isBlank b = true) (hne : word ≠ []) (hhead : ∀ b ∈ word.head?, isBlank b = false)
    (hlast : ∀ b ∈ word.getLast?, isBlank b = false) (hlen : 2 ≤ (lead ++ word ++ trail).length) :
    tgxTrim (front ++ (lead ++ word ++ trail) ++ rest) front.length (lead ++ word ++ trail).length =
      some (0, word) := by
  have hscan : scan isBlank ((front ++ (lead ++ word ++ trail) ++ rest).drop front.length) front.length =
      some (front.length + lead.length) := by
    obtain ⟨b, bs, rfl⟩ := List.exists_cons_of_ne_nil hne
    rw [List.append_assoc, List.drop_left, List.append_assoc, List.append_assoc, List.cons_append]
    exact scan_append hlead (hhead b rfl) _ _
  have hback : scanBack isBlank (front ++ (lead ++ word ++ trail) ++ rest)
      (front.length + (lead ++ word ++ trail).length - 1) = some (front.length + lead.length + word.length - 1) := by
    obtain ⟨ws, b, rfl⟩ := (List.eq_nil_or_concat word).resolve_left hne
    rw [List.concat_eq_append] at hlast ⊢
    have hmem : front ++ (lead ++ (ws ++ [b]) ++ trail) ++ rest = (front ++ lead ++ ws) ++ b :: trail ++ rest := by
      simp
    have hfrom : front.length + (lead ++ (ws ++ [b]) ++ trail).length - 1 =
        (front ++ lead ++ ws).length + trail.length := by
      simp only [List.length_append, List.length_singleton]
      omega
    rw [hmem, hfrom, scanBack_append htrail (hlast b (by simp))]
    simp only [List.length_append, List.length_singleton, Option.some.injEq]
    omega
  have hpos : 0 < word.length := List.length_pos_iff.mpr hne
  have hdrop : (front ++ (lead ++ word ++ trail) ++ rest).drop (front.length + lead.length) =
      word ++ (trail ++ rest) := by
    rw [← List.length_append]
    have : front ++ (lead ++ word ++ trail) ++ rest = (front ++ lead) ++ (word ++ (trail ++ rest)) := by simp
    rw [this, List.drop_left]
  rw [tgxTrim, if_neg (by omega), hscan, Int.toNat_natCast, hback]
  simp only [Option.bind_eq_bind, Option.bind_some, hdrop]
  rw [show front.length + lead.length + word.length - 1 + 1 - (front.length + lead.length) = word.length by omega,
    List.take_left]
  rfl

def strip (text : List UInt8) : List UInt8 :=
  (text.dropWhile isBlank).rdropWhile isBlank

/-- What `tgx_trim` does to `len` characters, as long as they are not all blank. -/
structure Trims (trim : Trim) : Prop where
  short : ∀ (front rest text : List UInt8), text.length ≤ 1 →
    trim (front ++ text ++ rest) front.length text.length = some (-1, [])
  word : ∀ (front rest text : List UInt8), 2 ≤ text.length → text.length < TGX_SCAN_CONFIG_FILE_MAX_WLENGTH →
    (∃ b ∈ text, isBlank b = false) → trim (front ++ text ++ rest) front.length text.length = some (0, strip text)

private theorem not_all_blank {text : List UInt8} : ¬ text.all isBlank = true ↔ ∃ b ∈ text, isBlank b = false := by
  simp

private theorem exists_strip {text : List UInt8} (h : ∃ b ∈ text, isBlank b = false) :
    ∃ lead trail, text = lead ++ strip text ++ trail ∧ (∀ b ∈ lead, isBlank b = true) ∧
      (∀ b ∈ trail, isBlank b = true) ∧ strip text ≠ [] ∧ (∀ b ∈ (strip text).head?, isBlank b = false) ∧
      ∀ b ∈ (strip text).getLast?, isBlank b = false := by
  obtain ⟨x, hx, hxb⟩ := h
  have hxdrop : x ∈ text.dropWhile isBlank := by
    rw [← List.takeWhile_append_dropWhile (p := isBlank) (l := text), List.mem_append] at hx
    refine hx.resolve_left fun hx => ?_
    rw [List.mem_takeWhile_imp hx] at hxb
    cases hxb
  have hne : strip text ≠ [] := by
    rw [strip, Ne, List.rdropWhile_eq_nil_iff]
    intro hall
    rw [hall x hxdrop] at hxb
    cases hxb
  refine ⟨text.takeWhile isBlank, (text.dropWhile isBlank).rtakeWhile isBlank, ?_, ?_, ?_, hne, ?_, ?_⟩
  · rw [List.append_assoc, strip, List.rdropWhile_append_rtakeWhile, List.takeWhile_append_dropWhile]
  · exact fun b hb => List.mem_takeWhile_imp hb
  · exact fun b hb => List.mem_rtakeWhile_imp hb
  · intro b hb
    obtain ⟨rest, hrest⟩ : strip text <+: text.dropWhile isBlank := List.rdropWhile_prefix isBlank _
    have hhead := List.head?_dropWhile_not isBlank text
    rw [← hrest, List.head?_append_of_ne_nil _ hne, show (strip text).head? = some b from hb] at hhead
    exact hhead
  · intro b hb
    have hlast : ¬ isBlank ((strip text).getLast hne) = true := List.rdropWhile_last_not isBlank _ hne
    rw [List.getLast?_eq_getLast_of_ne_nil hne, Option.mem_some_iff] at hb
    subst hb
    simpa using hlast

theorem tgxTrim_strip (front rest : List UInt8) {text : List UInt8} (h : 2 ≤ text.length)
    (hword : ∃ b ∈ text, isBlank b = false) :
    tgxTrim (front ++ text ++ rest) front.length text.length = some (0, strip text) := by
  obtain ⟨lead, trail, heq, hlead, htrail, hne, hhead, hlast⟩ := exists_strip hword
  have hlen : 2 ≤ (lead ++ strip text ++ trail).length := heq ▸ h
  have htrim := tgxTrim_word front rest hlead htrail hne hhead hlast hlen
  rwa [← heq] at htrim

/-- A word between blanks is what is left of them. -/
theorem strip_word {lead word trail : List UInt8} (hlead : ∀ b ∈ lead, isBlank b = true)
    (htrail : ∀ b ∈ trail, isBlank b = true) (hne : word ≠ []) (hhead : ∀ b ∈ word.head?, isBlank b = false)
    (hlast : ∀ b ∈ word.getLast?, isBlank b = false) (hlen : 2 ≤ (lead ++ word ++ trail).length) :
    ¬ (lead ++ word ++ trail).all isBlank = true ∧ strip (lead ++ word ++ trail) = word := by
  have hword : ∃ b ∈ lead ++ word ++ trail, isBlank b = false := by
    obtain ⟨b, bs, rfl⟩ := List.exists_cons_of_ne_nil hne
    exact ⟨b, by simp, hhead b rfl⟩
  have htrim := tgxTrim_word [] [] hlead htrail hne hhead hlast hlen
  rw [tgxTrim_strip [] [] hlen hword, Option.some.injEq, Prod.mk.injEq] at htrim
  exact ⟨not_all_blank.mpr hword, htrim.2⟩

theorem trims_tgxTrim : Trims tgxTrim where
  short front rest text h := by
    rw [tgxTrim, if_pos (by omega)]
  word front rest _ h _ hword := tgxTrim_strip front rest h hword

inductive Kind
  | blank
  | entry (key value : List UInt8)
  | rejected
  /-- the key or the value is more than one blank, and nothing else -/
  | allBlank
  deriving DecidableEq

/-- The kind of a line, from what is in front of its first `=` and behind it. -/
def kind (body : List UInt8) : Kind :=
  match strstr body (ascii "=") with
  | none => if body.all isBlank then .blank else .rejected
  | some eq =>
    let key := body.take eq
    let value := body.drop (eq + 1)
    if key.length ≤ 1 then .rejected
    else if key.all isBlank then .allBlank
    else if value.length ≤ 1 then .rejected
    else if value.all isBlank then .allBlank
    else .entry (strip key) (strip value)

theorem strstr_equals_cases (body : List UInt8) :
    (61 ∉ body ∧ strstr body (ascii "=") = none) ∨
      ∃ key value, body = key ++ 61 :: value ∧ 61 ∉ key ∧ strstr body (ascii "=") = some key.length := by
  by_cases h : 61 ∈ body
  · obtain ⟨key, value, rfl, hkey⟩ := List.eq_append_cons_of_mem h
    exact .inr ⟨key, value, rfl, hkey, strstr_singleton hkey value⟩
  · exact .inl ⟨h, strstr_singleton_none h⟩

theorem kind_equals {key : List UInt8} (h : 61 ∉ key) (value : List UInt8) :
    kind (key ++ 61 :: value) =
      if key.length ≤ 1 then .rejected
      else if key.all isBlank then .allBlank
      else if value.length ≤ 1 then .rejected
      else if value.all isBlank then .allBlank
      else .entry (strip key) (strip value) := by
  have hequals : strstr (key ++ 61 :: value) (ascii "=") = some key.length := strstr_singleton h value
  have hdrop : (key ++ 61 :: value).drop (key.length + 1) = value := by simp
  simp only [kind, hequals, List.take_left, hdrop]

/-- What `key` and `value` hold in front of a line: no `=`, and a NUL at the end. -/
structure Stale (stale : List UInt8) : Prop where
  length : stale.length = TGX_SCAN_CONFIG_FILE_MAX_WLENGTH
  last : stale.getLast? = some 0
  equals : 61 ∉ stale

theorem stale_zeros : Stale zeros where
  length := List.length_replicate
  last := by
    rw [zeros, List.getLast?_replicate]
    rfl
  equals h := absurd (List.eq_of_mem_replicate h) (by decide)

/-- Behind a line that ends within `key` and `value` they still end with a NUL. -/
private theorem zero_mem_drop {stale : List UInt8} (hstale : Stale stale) {n : Nat} (h : n < 512) :
    0 ∈ stale.drop n := by
  refine List.mem_of_getLast? ?_
  rw [List.getLast?_drop, if_neg (by rw [hstale.length, TGX_SCAN_CONFIG_FILE_MAX_WLENGTH]; omega), hstale.last]

private theorem contains_zero {stale : List UInt8} (hstale : Stale stale) {n : Nat} (h : n < 512) (line : List UInt8) :
    (line ++ stale.drop n).contains 0 = true := by
  rw [List.contains_eq_mem, decide_eq_true_eq]
  exact List.mem_append_right _ (zero_mem_drop hstale h)

private theorem stale_blank {stale line : List UInt8} (hstale : Stale stale) (h : line.length < 512)
    (hline : 61 ∉ line) :
    Stale (line ++ stale.drop line.length) where
  length := by
    rw [List.length_append, List.length_drop, hstale.length, TGX_SCAN_CONFIG_FILE_MAX_WLENGTH]
    omega
  last := by
    rw [List.getLast?_append_of_ne_nil _ (List.ne_nil_of_mem (zero_mem_drop hstale h)), List.getLast?_drop,
      if_neg (by rw [hstale.length, TGX_SCAN_CONFIG_FILE_MAX_WLENGTH]; omega), hstale.last]
  equals hmem := (List.mem_append.mp hmem).elim hline fun hmem => hstale.equals (List.mem_of_mem_drop hmem)

section
variable {σ : Type} {trim : Trim} {analyze : Analyze σ} {stale : List UInt8} (hstale : Stale stale) (s : σ)
include hstale

private theorem stepLine_plain {body : List UInt8} (hbody : ∀ b ∈ body, b ≠ 0 ∧ b ≠ 10) (hlen : body.length + 1 < 512)
    (h : 61 ∉ body) :
    stepLine trim analyze stale (body ++ [10]) s =
      if body.all isBlank then some (.blank ((body ++ [10]) ++ stale.drop (body.length + 1)))
      else some (.err s) := by
  have hnul : ((body ++ [10]) ++ stale.drop (body.length + 1)).contains 0 = true := contains_zero hstale hlen _
  have hequals : strstr (((body ++ [10]) ++ stale.drop (body.length + 1)).takeWhile (· != 0)) (ascii "=") = none := by
    refine strstr_singleton_none fun hmem => ?_
    have hmem := (List.takeWhile_prefix _).subset hmem
    rw [List.mem_append, List.mem_append, List.mem_singleton] at hmem
    rcases hmem with (hmem | hmem) | hmem
    · exact h hmem
    · cases hmem
    · exact hstale.equals (List.mem_of_mem_drop hmem)
  have htake : (body ++ [10]).takeWhile (· != 10) = body := by
    rw [List.takeWhile_append_of_pos (by simpa using fun b hb => (hbody b hb).2)]
    simp
  have hline : (body ++ [10]).length = body.length + 1 := List.length_append
  rw [stepLine, hline, if_neg (by rw [TGX_SCAN_CONFIG_FILE_MAX_WLENGTH]; omega)]
  simp only [hnul, hequals, htake, Bool.not_true, Bool.false_eq_true, if_false]

/-- A line with an `=` is trimmed in front of it and behind it. -/
theorem stepLine_equals {key value : List UInt8} (hbody : ∀ b ∈ key ++ 61 :: value, b ≠ 0 ∧ b ≠ 10)
    (hlen : (key ++ 61 :: value).length + 1 < 512) (h : 61 ∉ key) :
    ∃ front rest rest', stepLine trim analyze stale (key ++ 61 :: value ++ [10]) s =
      (trim ([] ++ key ++ rest) ([] : List UInt8).length key.length).bind fun (ret, k) =>
        if ret < 0 then some (.err s)
        else (trim (front ++ value ++ rest') front.length value.length).bind fun (ret, v) =>
          if ret < 0 then some (.err s)
          else (analyze s k v).map fun (ret, s) => if ret < 0 then .err s else .next s := by
  refine ⟨key ++ [61], 61 :: value ++ [10] ++ stale.drop ((key ++ 61 :: value).length + 1),
    [10] ++ stale.drop ((key ++ 61 :: value).length + 1), ?_⟩
  have hkey : [] ++ key ++ (61 :: value ++ [10] ++ stale.drop ((key ++ 61 :: value).length + 1)) =
      (key ++ 61 :: value ++ [10]) ++ stale.drop ((key ++ 61 :: value).length + 1) := by simp
  have hvalue : key ++ [61] ++ value ++ ([10] ++ stale.drop ((key ++ 61 :: value).length + 1)) =
      (key ++ 61 :: value ++ [10]) ++ stale.drop ((key ++ 61 :: value).length + 1) := by simp
  have hfront : (key ++ [61]).length = key.length + 1 := List.length_append
  rw [hkey, hvalue, hfront, List.length_nil]
  have hnul : ((key ++ 61 :: value ++ [10]) ++ stale.drop ((key ++ 61 :: value).length + 1)).contains 0 = true :=
    contains_zero hstale hlen _
  obtain ⟨behind, hbehind⟩ : ∃ behind, ((key ++ 61 :: value ++ [10]) ++
      stale.drop ((key ++ 61 :: value).length + 1)).takeWhile (· != 0) = key ++ 61 :: value ++ 10 :: behind := by
    refine ⟨(stale.drop ((key ++ 61 :: value).length + 1)).takeWhile (· != 0), ?_⟩
    rw [List.takeWhile_append_of_pos (ne_zero_of_mem_line hbody), List.append_assoc, List.singleton_append]
  have hequals : strstr (key ++ 61 :: value ++ 10 :: behind) (ascii "=") = some key.length := by
    rw [List.append_assoc]
    exact strstr_singleton h _
  have hlf : strstr (key ++ 61 :: value ++ 10 :: behind) (ascii "\n") = some (key ++ 61 :: value).length :=
    strstr_singleton (fun hmem => (hbody 10 hmem).2 rfl) _
  have hline : (key ++ 61 :: value ++ [10]).length = (key ++ 61 :: value).length + 1 := List.length_append
  have hvlen : ((key ++ 61 :: value).length : Int) - (key.length + 1 : Nat) = value.length := by
    simp only [List.length_append, List.length_cons]
    omega
  rw [stepLine, hline, if_neg (by rw [TGX_SCAN_CONFIG_FILE_MAX_WLENGTH]; omega)]
  simp only [hnul, hbehind, hequals, hlf, hvlen, Bool.not_true, Bool.false_eq_true, if_false]
  rw [Option.bind_eq_bind]
  refine Option.bind_congr fun keyTrim _ => ?_
  split
  · rfl
  rw [Option.bind_eq_bind]
  refine Option.bind_congr fun valueTrim _ => ?_
  split
  · rfl
  rw [Option.map_eq_bind]
  refine Option.bind_congr fun result _ => ?_
  split
  · simp_all
  · simp_all

private theorem stepLine_kind (ht : Trims trim) {body : List UInt8} (hbody : ∀ b ∈ body, b ≠ 0 ∧ b ≠ 10)
    (hlen : body.length + 1 < 512) :
    (kind body = .blank →
      ∃ stale', Stale stale' ∧ stepLine trim analyze stale (body ++ [10]) s = some (.blank stale')) ∧
      (kind body = .rejected → stepLine trim analyze stale (body ++ [10]) s = some (.err s)) ∧
      ∀ k v, kind body = .entry k v → stepLine trim analyze stale (body ++ [10]) s =
        (analyze s k v).map fun (ret, s) => if ret < 0 then .err s else .next s := by
  obtain ⟨hmem, hnone⟩ | ⟨key, value, rfl, hkey, -⟩ := strstr_equals_cases body
  · rw [stepLine_plain hstale s hbody hlen hmem, kind, hnone]
    have hblank : Stale ((body ++ [10]) ++ stale.drop (body.length + 1)) := by
      have hline : (body ++ [10]).length = body.length + 1 := List.length_append
      rw [← hline]
      refine stale_blank hstale (by omega) fun h => ?_
      rcases List.mem_append.mp h with h | h
      · exact hmem h
      · cases List.mem_singleton.mp h
    cases body.all isBlank
    · simp
    · exact ⟨fun _ => ⟨_, hblank, rfl⟩, by simp, by simp⟩
  · obtain ⟨front, rest, rest', hstep⟩ := @stepLine_equals σ trim analyze stale hstale s key value hbody hlen hkey
    simp only [List.length_append, List.length_cons] at hlen
    rw [hstep, kind_equals hkey]
    split
    · rename_i hshort
      rw [ht.short [] rest key hshort]
      simp
    split
    · simp
    rename_i hlong hkeyWord
    rw [ht.word [] rest key (by omega) (by rw [TGX_SCAN_CONFIG_FILE_MAX_WLENGTH]; omega) (not_all_blank.mp hkeyWord)]
    split
    · rename_i hshort
      rw [Option.bind_some, ht.short front rest' value hshort]
      simp
    split
    · simp
    rename_i hlong' hvalueWord
    rw [Option.bind_some, ht.word front rest' value (by omega) (by rw [TGX_SCAN_CONFIG_FILE_MAX_WLENGTH]; omega)
      (not_all_blank.mp hvalueWord)]
    simp

private theorem stepLine_long {body : List UInt8} (hbody : ∀ b ∈ body, b ≠ 0 ∧ b ≠ 10) (hlen : 512 ≤ body.length + 1) :
    stepLine trim analyze stale (body ++ [10]) s = none := by
  have hline : (body ++ [10]).length = body.length + 1 := List.length_append
  rw [stepLine, hline]
  split
  · rfl
  · rename_i hle
    rw [TGX_SCAN_CONFIG_FILE_MAX_WLENGTH] at hle
    have hdrop : stale.drop (body.length + 1) = [] :=
      List.drop_eq_nil_of_le (by rw [hstale.length, TGX_SCAN_CONFIG_FILE_MAX_WLENGTH]; omega)
    simp only [hdrop, List.append_nil, contains_false (zero_not_mem_line hbody), Bool.not_false, if_true]

/-- What the program does with a line, unless its key or its value is all blank. -/
theorem readBytes_row (ht : Trims trim) {body : List UInt8} (file : List UInt8) (hbody : ∀ b ∈ body, b ≠ 0 ∧ b ≠ 10) :
    (512 ≤ body.length + 1 → readBytes trim analyze (body ++ 10 :: file) stale [] s = none) ∧
      (body.length + 1 < 512 →
        (kind body = .blank → ∃ stale', Stale stale' ∧
          readBytes trim analyze (body ++ 10 :: file) stale [] s = readBytes trim analyze file stale' [] s) ∧
        (kind body = .rejected → readBytes trim analyze (body ++ 10 :: file) stale [] s = some (-1, s)) ∧
        ∀ k v, kind body = .entry k v → readBytes trim analyze (body ++ 10 :: file) stale [] s =
          (analyze s k v).bind fun (ret, s) =>
            if ret < 0 then some (-1, s) else readBytes trim analyze file zeros [] s) := by
  rw [readBytes_line s file hbody]
  refine ⟨fun hlong => ?_, fun hlen => ?_⟩
  · rw [stepLine_long hstale s hbody hlong]
    split <;> rfl
  · obtain ⟨hblank, hrejected, hentry⟩ := @stepLine_kind σ trim analyze stale hstale s ht body hbody hlen
    rw [if_pos (by omega)]
    refine ⟨fun h => ?_, fun h => ?_, fun k v h => ?_⟩
    · obtain ⟨stale', hstale', hstep⟩ := hblank h
      exact ⟨stale', hstale', by rw [hstep]⟩
    · rw [hrejected h]
    · rw [hentry k v h]
      cases analyze s k v with
      | none => rfl
      | some result =>
        by_cases hret : result.1 < 0
        · simp only [Option.map_some, Option.bind_some, if_pos hret]
        · simp only [Option.map_some, Option.bind_some, if_neg hret]

end

end TinyosGraphics.ScanConfig
