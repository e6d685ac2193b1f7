import TinyosGraphics.Core.ConfigLines

/-! Which lines of a configuration text `tgx_scan_config_file` hands on, whatever is done with them, and as which keys
and values. -/
namespace TinyosGraphics.ScanConfig
open Lib

structure Entry where
  key : List UInt8
  value : List UInt8
  key_chars : ∀ b ∈ key, b ≠ 10 ∧ b ≠ 61
  value_chars : ∀ b ∈ value, b ≠ 10
  key_word : ∃ b ∈ key, isBlank b = false
  value_word : ∃ b ∈ value, isBlank b = false

inductive Row
  | blank (text : List UInt8) (h : ∀ b ∈ text, isBlank b = true)
  | entry (e : Entry)

namespace Row

def body : Row → List UInt8
  | blank text _ => text
  | entry e => e.key ++ 61 :: e.value

def pair? : Row → Option (List UInt8 × List UInt8)
  | blank _ _ => none
  | entry e => some (strip e.key, strip e.value)

/-- The line is shorter than `key` and `value`, and neither its key nor its value is a single byte. -/
def Fits : Row → Prop
  | blank text _ => text.length + 1 < 512
  | entry e => 0 ∉ e.key ++ 61 :: e.value ∧ (e.key ++ 61 :: e.value).length + 1 < 512 ∧
      2 ≤ e.key.length ∧ 2 ≤ e.value.length

/-- Nothing is lost if the line has no line feed. -/
def Idle : Row → Prop
  | blank text _ => text.length < 1024
  | entry _ => False

end Row

/-- Lines, and what stands behind the last line feed. -/
structure Text where
  rows : List Row
  last : Row

def Text.bytes (t : Text) : List UInt8 :=
  t.rows.flatMap (fun r => r.body ++ [10]) ++ t.last.body

/-- The keys and values of all lines, in order. -/
def Text.pairs (t : Text) : List (List UInt8 × List UInt8) :=
  (t.rows ++ [t.last]).filterMap Row.pair?

section
variable {σ : Type} (analyze : σ → List UInt8 → List UInt8 → Int × σ)

def callEach : σ → List (List UInt8 × List UInt8) → Int × σ
  | s, [] => (0, s)
  | s, (key, value) :: pairs =>
    let (ret, s) := analyze s key value
    if ret < 0 then (-1, s) else callEach s pairs

end

/-- Whatever the calls do, they are those of the text's pairs, and the scan returns 0 unless one of them fails. -/
def Text.CallsEach (t : Text) : Prop :=
  ∀ (σ : Type) (analyze : σ → List UInt8 → List UInt8 → Int × σ) (s : σ),
    readBytes tgxTrim (fun s key value => some (analyze s key value)) t.bytes zeros [] s =
      some (callEach analyze s t.pairs)

private theorem blank_body {text : List UInt8} (h : ∀ b ∈ text, isBlank b = true) : ∀ b ∈ text, b ≠ 0 ∧ b ≠ 10 :=
  fun b hb => ⟨(blank_chars (h b hb)).1, (blank_chars (h b hb)).2.1⟩

private theorem kind_blank {text : List UInt8} (h : ∀ b ∈ text, isBlank b = true) : kind text = .blank := by
  have hequals : strstr text (ascii "=") = none := strstr_singleton_none fun hmem => (blank_chars (h 61 hmem)).2.2 rfl
  simp only [kind, hequals, List.all_eq_true.mpr h, if_true]

private theorem Entry.body_lf (e : Entry) : ∀ b ∈ e.key ++ 61 :: e.value, b ≠ 10 := by
  intro b hb
  rcases List.mem_append.mp hb with hb | hb
  · exact (e.key_chars b hb).1
  · rcases List.mem_cons.mp hb with rfl | hb
    · decide
    · exact e.value_chars b hb

theorem Entry.body_chars (e : Entry) (h : 0 ∉ e.key ++ 61 :: e.value) :
    ∀ b ∈ e.key ++ 61 :: e.value, b ≠ 0 ∧ b ≠ 10 :=
  fun b hb => ⟨fun h0 => h (h0 ▸ hb), e.body_lf b hb⟩

theorem Entry.kind_body (e : Entry) :
    kind (e.key ++ 61 :: e.value) =
      if e.key.length ≤ 1 ∨ e.value.length ≤ 1 then .rejected else .entry (strip e.key) (strip e.value) := by
  have hword : ∀ {text : List UInt8}, (∃ b ∈ text, isBlank b = false) → text.all isBlank = false := by
    intro text h
    simpa using h
  rw [kind_equals fun h => (e.key_chars 61 h).2 rfl, hword e.key_word, hword e.value_word]
  by_cases hkey : e.key.length ≤ 1
  · simp [hkey]
  · simp [hkey]

private theorem filterMap_blank (text : List UInt8) (h : ∀ b ∈ text, isBlank b = true) (rows : List Row) :
    (Row.blank text h :: rows).filterMap Row.pair? = rows.filterMap Row.pair? :=
  rfl

private theorem filterMap_entry (e : Entry) (rows : List Row) :
    (Row.entry e :: rows).filterMap Row.pair? = (strip e.key, strip e.value) :: rows.filterMap Row.pair? :=
  rfl

section
variable {σ : Type} (analyze : σ → List UInt8 → List UInt8 → Int × σ)

/-- Lines that fit are all handed on, whatever a blank line has left in `key` and `value`. -/
private theorem readBytes_rows {rows : List Row} {last : Row} (hrows : ∀ r ∈ rows, r.Fits) (hlast : last.Idle)
    {stale : List UInt8} (hstale : Stale stale) (s : σ) :
    readBytes tgxTrim (fun s key value => some (analyze s key value))
      (rows.flatMap (fun r => r.body ++ [10]) ++ last.body) stale [] s =
      some (callEach analyze s ((rows ++ [last]).filterMap Row.pair?)) := by
  induction rows generalizing stale s with
  | nil =>
    cases last with
    | entry e => exact hlast.elim
    | blank text h =>
      rw [List.flatMap_nil, List.nil_append]
      exact (readBytes_end s (blank_body h)).trans (if_pos hlast)
  | cons r rows ih =>
    have hfits := hrows r List.mem_cons_self
    have hrest := fun r hr => hrows r (List.mem_cons_of_mem _ hr)
    rw [List.flatMap_cons, List.append_assoc, List.append_assoc, List.singleton_append]
    cases r with
    | blank text h =>
      obtain ⟨stale', hstale', hstep⟩ :=
        ((readBytes_row hstale s trims_tgxTrim _ (blank_body h)).2 hfits).1 (kind_blank h)
      exact hstep.trans (ih hrest hstale' s)
    | entry e =>
      obtain ⟨hnul, hlen, hkey, hvalue⟩ := hfits
      have hkind := e.kind_body
      rw [if_neg (by omega)] at hkind
      refine (((readBytes_row hstale s trims_tgxTrim _ (e.body_chars hnul)).2 hlen).2.2 _ _ hkind).trans ?_
      rw [Option.bind_some, List.cons_append, filterMap_entry, callEach]
      dsimp only
      split
      · rfl
      · exact ih hrest stale_zeros _

end

def log (calls : List (List UInt8 × List UInt8)) (key value : List UInt8) :
    Int × List (List UInt8 × List UInt8) :=
  (0, calls ++ [(key, value)])

private theorem callEach_log (calls pairs : List (List UInt8 × List UInt8)) :
    callEach log calls pairs = (0, calls ++ pairs) := by
  induction pairs generalizing calls with
  | nil => simp [callEach]
  | cons pair pairs ih => simp [callEach, log, ih]

private theorem Entry.not_called (e : Entry) {σ : Type} {trim : Trim} {analyze : Analyze σ} {stale file : List UInt8}
    (h : 0 ∈ e.key ++ 61 :: e.value ∨ file = []) (s : σ) :
    readBytes trim analyze (e.key ++ 61 :: e.value ++ file) stale [] s = none ∨
      readBytes trim analyze (e.key ++ 61 :: e.value ++ file) stale [] s = some (0, s) := by
  by_cases hnul : 0 ∈ e.key ++ 61 :: e.value
  · rw [readBytes_of_nul s file e.body_lf hnul]
    split
    · exact .inr rfl
    · exact .inl rfl
  · obtain rfl := h.resolve_left hnul
    rw [List.append_nil, readBytes_end s (e.body_chars hnul)]
    split
    · exact .inr rfl
    · exact .inl rfl

private theorem fits_of_log {rows : List Row} {last : Row} {stale : List UInt8} (hstale : Stale stale)
    (calls : List (List UInt8 × List UInt8))
    (h : readBytes tgxTrim (fun s key value => some (log s key value))
      (rows.flatMap (fun r => r.body ++ [10]) ++ last.body) stale [] calls =
      some (0, calls ++ (rows ++ [last]).filterMap Row.pair?)) :
    (∀ r ∈ rows, r.Fits) ∧ last.Idle := by
  induction rows generalizing stale calls with
  | nil =>
    rw [List.flatMap_nil, List.nil_append] at h
    refine ⟨List.forall_mem_nil _, ?_⟩
    cases last with
    | blank text hblank =>
      rw [Row.body, readBytes_end calls (blank_body hblank)] at h
      by_contra hlong
      rw [Row.Idle] at hlong
      rw [if_neg hlong] at h
      cases h
    | entry e =>
      rw [List.nil_append, filterMap_entry, ← List.append_nil (Row.body _), Row.body] at h
      rcases e.not_called (.inr rfl) calls with hcall | hcall
      · rw [hcall] at h
        cases h
      · rw [hcall] at h
        simp at h
  | cons r rows ih =>
    rw [List.flatMap_cons, List.append_assoc, List.append_assoc, List.singleton_append, List.cons_append] at h
    rw [List.forall_mem_cons, and_assoc]
    cases r with
    | blank text hblank =>
      rw [filterMap_blank] at h
      obtain ⟨hlong, hshort⟩ := readBytes_row hstale calls trims_tgxTrim _ (blank_body hblank)
      by_cases hlen : text.length + 1 < 512
      · obtain ⟨stale', hstale', hstep⟩ := (hshort hlen).1 (kind_blank hblank)
        exact ⟨hlen, ih hstale' calls (hstep.symm.trans h)⟩
      · cases (hlong (by omega)).symm.trans h
    | entry e =>
      rw [filterMap_entry] at h
      by_cases hnul : 0 ∈ e.key ++ 61 :: e.value
      · rcases e.not_called (.inl hnul) calls with hcall | hcall
        · cases hcall.symm.trans h
        · have hcalls := (Prod.mk.inj (Option.some.inj (hcall.symm.trans h))).2
          simp at hcalls
      obtain ⟨hlong, hshort⟩ := readBytes_row hstale calls trims_tgxTrim _ (e.body_chars hnul)
      by_cases hlen : (e.key ++ 61 :: e.value).length + 1 < 512
      · have hkind := e.kind_body
        by_cases hone : e.key.length ≤ 1 ∨ e.value.length ≤ 1
        · rw [if_pos hone] at hkind
          cases ((hshort hlen).2.1 hkind).symm.trans h
        · rw [if_neg hone] at hkind
          have hstep := ((hshort hlen).2.2 _ _ hkind).symm.trans h
          refine ⟨⟨hnul, hlen, by omega, by omega⟩, ih stale_zeros (calls ++ [(strip e.key, strip e.value)]) ?_⟩
          rw [List.append_assoc, List.singleton_append]
          exact hstep
      · cases (hlong (by omega)).symm.trans h

private theorem Text.CallsEach.fits {t : Text} (h : t.CallsEach) : (∀ r ∈ t.rows, r.Fits) ∧ t.last.Idle := by
  have hlog := h (List (List UInt8 × List UInt8)) log []
  rw [callEach_log] at hlog
  exact fits_of_log stale_zeros [] hlog

/-- The pairs of a text are handed on, whatever is done with them, exactly when its lines fit and the last one
has its line feed or is blank. -/
theorem callsEach_iff (t : Text) : t.CallsEach ↔ (∀ r ∈ t.rows, r.Fits) ∧ t.last.Idle :=
  ⟨Text.CallsEach.fits, fun h _ analyze s => readBytes_rows analyze h.1 h.2 stale_zeros s⟩

/-- A key or a value of one character is refused: `a=b`. -/
theorem oneCharacter_refused : ¬ ∀ t : Text, (∀ r ∈ t.rows ++ [t.last], r.body.length < 511) → t.CallsEach := by
  intro hall
  have hcalls := hall ⟨[.entry ⟨[97], [98], by decide, by decide, by decide, by decide⟩], .blank [] (by decide)⟩
    (by decide)
  obtain ⟨-, -, hkey, -⟩ := hcalls.fits.1 _ List.mem_cons_self
  exact absurd hkey (by decide)

end TinyosGraphics.ScanConfig
