import TinyosGraphics.Core.ConfigLines

/-! What the lines of a configuration file set. -/
namespace TinyosGraphics.ScanConfig
open Lib

inductive Key
  | port
  | root
  | lock
  | log
  | errPage404
  deriving DecidableEq

def Key.text : Key → List UInt8
  | .port => ascii "port"
  | .root => ascii "root"
  | .lock => ascii "lock"
  | .log => ascii "log"
  | .errPage404 => ascii "err_page 404"

def TgxCycle.get (tcycle : TgxCycle) : Key → Int ⊕ List UInt8
  | .port => .inl tcycle.port
  | .root => .inr tcycle.srvRoot
  | .lock => .inr tcycle.lockFile
  | .log => .inr tcycle.logFile
  | .errPage404 => .inr tcycle.e404

/-- A line `key = value`, with blanks around both; a port is a number up to 65535. -/
structure Line where
  key : Key
  value : List UInt8
  before : List UInt8
  behind : List UInt8
  lead : List UInt8
  trail : List UInt8
  blanks : ∀ b ∈ before ++ behind ++ lead ++ trail, isBlank b = true
  value_ne : value ≠ []
  chars : ∀ b ∈ value, b ≠ 0 ∧ b ≠ 10
  head : ∀ b ∈ value.head?, isBlank b = false
  last : ∀ b ∈ value.getLast?, isBlank b = false
  port : key = .port → value.all isDigit = true ∧ digitsValue value ≤ 65535

namespace Line

def body (l : Line) : List UInt8 :=
  l.before ++ l.key.text ++ l.behind ++ 61 :: (l.lead ++ l.value ++ l.trail)

def bytes (l : Line) : List UInt8 :=
  l.body ++ [10]

def setting (l : Line) : Int ⊕ List UInt8 :=
  match l.key with
  | .port => .inl (digitsValue l.value)
  | _ => .inr l.value

/-- The line fits the buffers, and what stands behind the `=` is longer than `tgx_trim` refuses. -/
def Fits (l : Line) : Prop :=
  l.bytes.length < 512 ∧ 2 ≤ (l.lead ++ l.value ++ l.trail).length ∧
    (l.key = .errPage404 → l.value.length < 256)

variable (l : Line)

theorem key_chars (k : Key) : ∀ b ∈ k.text, b ≠ 0 ∧ b ≠ 10 ∧ b ≠ 61 := by
  cases k <;> decide

private theorem key_ends (k : Key) : k.text ≠ [] ∧ (∀ b ∈ k.text.head?, isBlank b = false) ∧
    ∀ b ∈ k.text.getLast?, isBlank b = false := by
  cases k <;> decide

theorem body_chars : ∀ b ∈ l.body, b ≠ 0 ∧ b ≠ 10 := by
  intro b hb
  have hblanks := l.blanks b
  simp only [List.mem_append] at hblanks
  simp only [body, List.mem_append, List.mem_cons] at hb
  rcases hb with ((hb | hb) | hb) | rfl | (hb | hb) | hb
  · exact ⟨(blank_chars (hblanks (by simp [hb]))).1, (blank_chars (hblanks (by simp [hb]))).2.1⟩
  · exact ⟨(key_chars _ b hb).1, (key_chars _ b hb).2.1⟩
  · exact ⟨(blank_chars (hblanks (by simp [hb]))).1, (blank_chars (hblanks (by simp [hb]))).2.1⟩
  · decide
  · exact ⟨(blank_chars (hblanks (by simp [hb]))).1, (blank_chars (hblanks (by simp [hb]))).2.1⟩
  · exact l.chars b hb
  · exact ⟨(blank_chars (hblanks (by simp [hb]))).1, (blank_chars (hblanks (by simp [hb]))).2.1⟩

/-- The line in front of its `=`, and behind it. -/
def keyPart : List UInt8 :=
  l.before ++ l.key.text ++ l.behind

def valuePart : List UInt8 :=
  l.lead ++ l.value ++ l.trail

private theorem body_eq : l.body = l.keyPart ++ 61 :: l.valuePart := by
  simp [body, keyPart, valuePart]

private theorem keyPart_length : 2 ≤ l.keyPart.length := by
  have hklen : 3 ≤ l.key.text.length := by
    cases l.key <;> decide
  simp only [keyPart, List.length_append]
  omega

private theorem equals_not_mem_keyPart : 61 ∉ l.keyPart := by
  intro hmem
  have hblanks := l.blanks 61
  simp only [keyPart, List.mem_append] at hmem hblanks
  rcases hmem with (hmem | hmem) | hmem
  · exact (blank_chars (hblanks (by simp [hmem]))).2.2 rfl
  · exact (key_chars _ 61 hmem).2.2 rfl
  · exact (blank_chars (hblanks (by simp [hmem]))).2.2 rfl

private theorem strip_keyPart : ¬ l.keyPart.all isBlank = true ∧ strip l.keyPart = l.key.text := by
  have hblanks := l.blanks
  simp only [List.mem_append] at hblanks
  obtain ⟨hne, hhead, hlast⟩ := key_ends l.key
  exact strip_word (fun b hb => hblanks b (by simp [hb])) (fun b hb => hblanks b (by simp [hb])) hne hhead hlast
    l.keyPart_length

private theorem strip_valuePart (h : 2 ≤ l.valuePart.length) :
    ¬ l.valuePart.all isBlank = true ∧ strip l.valuePart = l.value := by
  have hblanks := l.blanks
  simp only [List.mem_append] at hblanks
  exact strip_word (fun b hb => hblanks b (by simp [hb])) (fun b hb => hblanks b (by simp [hb])) l.value_ne l.head
    l.last h

theorem kind_body : kind l.body = if l.valuePart.length ≤ 1 then .rejected else .entry l.key.text l.value := by
  obtain ⟨hkey, hkeyStrip⟩ := l.strip_keyPart
  rw [l.body_eq, kind_equals l.equals_not_mem_keyPart, if_neg (Nat.not_le.mpr l.keyPart_length), if_neg hkey]
  by_cases hshort : l.valuePart.length ≤ 1
  · rw [if_pos hshort, if_pos hshort]
  · obtain ⟨hvalue, hvalueStrip⟩ := l.strip_valuePart (Nat.lt_of_not_le hshort)
    rw [if_neg hshort, if_neg hshort, if_neg hvalue, hkeyStrip, hvalueStrip]

end Line

/-- The settings behind a line that fits: every key but one takes the error page with it. -/
def State.apply (tmpnam : Nat → List UInt8) (s : State) (l : Line) : State :=
  match l.key with
  | .port => ⟨{ s.tcycle with port := digitsValue l.value, e404 := tmpnam s.tmps }, s.tmps + 1⟩
  | .root => ⟨{ s.tcycle with srvRoot := l.value, e404 := tmpnam s.tmps }, s.tmps + 1⟩
  | .lock => ⟨{ s.tcycle with lockFile := l.value, e404 := tmpnam s.tmps }, s.tmps + 1⟩
  | .log => ⟨{ s.tcycle with logFile := l.value, e404 := tmpnam s.tmps }, s.tmps + 1⟩
  | .errPage404 => { s with tcycle := { s.tcycle with e404 := l.value } }

/-- `tmpnam` returns names shorter than `L_tmpnam`. -/
def Names (tmpnam : Nat → List UInt8) : Prop :=
  ∀ n, (tmpnam n).length < 20

private theorem startsWith_key (k k' : Key) : startsWith k.text k'.text = decide (k = k') := by
  cases k <;> cases k' <;> decide

section
variable {tmpnam : Nat → List UInt8} (s : State) (l : Line)

private theorem analyzePort_line (tcycle : TgxCycle) :
    analyzePort tcycle l.key.text l.value =
      (0, if l.key = .port then { tcycle with port := digitsValue l.value } else tcycle) := by
  have hkey := startsWith_key l.key .port
  rw [show Key.text .port = ascii "port" from rfl] at hkey
  by_cases hport : l.key = .port
  · obtain ⟨hdigits, hle⟩ := l.port hport
    have hatoi : atoi l.value = digitsValue l.value := by
      have hread := atoi_digits (List.forall_mem_nil _) (List.all_eq_true.mp hdigits) l.value_ne
        (show ∀ b ∈ [].head?, isDigit b = false by simp) (by omega)
      simpa using hread
    have hrange : ¬ (digitsValue l.value : Int) > 65535 := by omega
    rw [analyzePort, hkey]
    simp only [hport, decide_true, if_true, hdigits, hatoi, if_neg hrange]
  · simp [analyzePort, hkey, hport]

private theorem copyIf_key {k : Key} (k' : Key) {start : List UInt8} (h : start = k'.text) (size : Nat)
    (value old : List UInt8) :
    copyIf k.text start size value old = if k = k' then strcpy size value else some old := by
  simp [copyIf, h, startsWith_key]

private theorem tgxAnalyzeConfigfile_line (hn : Names tmpnam) (hshort : l.value.length < 512) :
    tgxAnalyzeConfigfile tmpnam s l.key.text l.value =
      if l.key = .errPage404 ∧ 256 ≤ l.value.length then none else some (0, s.apply tmpnam l) := by
  have htmp : strcpy 256 (tmpnam s.tmps) = some (tmpnam s.tmps) := by
    have := hn s.tmps
    rw [strcpy, if_pos (by omega)]
  have hcopy : strcpy 1024 l.value = some l.value := by
    rw [strcpy, if_pos (by omega)]
  have herr := startsWith_key l.key .errPage404
  rw [show Key.errPage404.text = ascii "err_page 404" from rfl] at herr
  have hroot : ∀ old, copyIf l.key.text (ascii "root") 1024 l.value old =
      if l.key = .root then some l.value else some old := fun old =>
    hcopy ▸ copyIf_key .root (show ascii "root" = Key.text .root from rfl) 1024 l.value old
  have hlock : ∀ old, copyIf l.key.text (ascii "lock") 1024 l.value old =
      if l.key = .lock then some l.value else some old := fun old =>
    hcopy ▸ copyIf_key .lock (show ascii "lock" = Key.text .lock from rfl) 1024 l.value old
  have hlog : ∀ old, copyIf l.key.text (ascii "log") 1024 l.value old =
      if l.key = .log then some l.value else some old := fun old =>
    hcopy ▸ copyIf_key .log (show ascii "log" = Key.text .log from rfl) 1024 l.value old
  rw [tgxAnalyzeConfigfile, analyzePort_line]
  simp only [hroot, hlock, hlog, herr, lt_self_iff_false, if_false, State.apply]
  cases l.key with
  | errPage404 =>
    by_cases hlen : l.value.length < 256
    · simp [strcpy, hlen]
    · simp [strcpy, hlen, Nat.le_of_not_lt hlen]
  | port => simp [htmp]
  | root => simp [htmp]
  | lock => simp [htmp]
  | log => simp [htmp]

private theorem scanLoop_body (hn : Names tmpnam) (file : List UInt8) :
    scanLoop tmpnam (l.bytes ++ file) zeros [] s =
      if 512 ≤ l.bytes.length then none
      else if l.valuePart.length ≤ 1 then some (-1, s)
      else if l.key = .errPage404 ∧ 256 ≤ l.value.length then none
      else scanLoop tmpnam file zeros [] (s.apply tmpnam l) := by
  have hlen : l.bytes.length = l.body.length + 1 := List.length_append
  have hbytes : l.bytes ++ file = l.body ++ 10 :: file := by simp [Line.bytes]
  obtain ⟨hlong, hrow⟩ := @readBytes_row State tgxTrim (tgxAnalyzeConfigfile tmpnam) zeros stale_zeros s trims_tgxTrim
    l.body file l.body_chars
  rw [scanLoop_eq_readBytes, scanLoop_eq_readBytes, hbytes, hlen]
  by_cases hbuf : 512 ≤ l.body.length + 1
  · rw [if_pos hbuf, hlong hbuf]
  obtain ⟨-, hrejected, hentry⟩ := hrow (Nat.lt_of_not_le hbuf)
  rw [if_neg hbuf]
  by_cases hshort : l.valuePart.length ≤ 1
  · rw [if_pos hshort, hrejected (by rw [l.kind_body, if_pos hshort])]
  have hvalue : l.value.length < 512 := by
    simp only [Line.body, List.length_append, List.length_cons] at hbuf
    omega
  rw [if_neg hshort, hentry _ _ (by rw [l.kind_body, if_neg hshort]), tgxAnalyzeConfigfile_line s l hn hvalue]
  by_cases herr : l.key = .errPage404 ∧ 256 ≤ l.value.length
  · rw [if_pos herr, if_pos herr, Option.bind_none]
  · rw [if_neg herr, if_neg herr, Option.bind_some]
    rfl

private theorem scanLoop_line (hn : Names tmpnam) (file : List UInt8) :
    (l.Fits → scanLoop tmpnam (l.bytes ++ file) zeros [] s = scanLoop tmpnam file zeros [] (s.apply tmpnam l)) ∧
      (¬ l.Fits → ∀ s', scanLoop tmpnam (l.bytes ++ file) zeros [] s ≠ some (0, s')) := by
  rw [scanLoop_body s l hn]
  constructor
  · rintro ⟨hlen, htwo, herr⟩
    have herr' : ¬ (l.key = .errPage404 ∧ 256 ≤ l.value.length) := fun ⟨hkey, hle⟩ =>
      absurd (herr hkey) (Nat.not_lt.mpr hle)
    have hshort : ¬ l.valuePart.length ≤ 1 := Nat.not_le.mpr htwo
    rw [if_neg (Nat.not_le.mpr hlen), if_neg hshort, if_neg herr']
  · intro hnot s' hs'
    split at hs'
    · cases hs'
    rename_i hlen
    split at hs'
    · cases hs'
    rename_i hshort
    split at hs'
    · cases hs'
    rename_i herr
    exact hnot ⟨Nat.lt_of_not_le hlen, Nat.lt_of_not_le hshort,
      fun hkey => Nat.lt_of_not_le fun hle => herr ⟨hkey, hle⟩⟩

end

section
variable {tmpnam : Nat → List UInt8}

private theorem scanLoop_lines (hn : Names tmpnam) (L : List Line) (s : State) :
    ((∀ l ∈ L, l.Fits) → scanLoop tmpnam (L.flatMap Line.bytes) zeros [] s = some (0, L.foldl (.apply tmpnam) s)) ∧
      ((∃ l ∈ L, ¬ l.Fits) → ∀ s', scanLoop tmpnam (L.flatMap Line.bytes) zeros [] s ≠ some (0, s')) := by
  induction L generalizing s with
  | nil => simp [scanLoop]
  | cons l L ih =>
    obtain ⟨hfits, hnot⟩ := scanLoop_line s l hn (L.flatMap Line.bytes)
    rw [List.flatMap_cons]
    constructor
    · intro hall
      rw [hfits (hall l (by simp)), (ih _).1 fun x hx => hall x (by simp [hx])]
      rfl
    · rintro ⟨x, hx, hxnot⟩
      by_cases hl : l.Fits
      · rw [hfits hl]
        refine (ih _).2 ⟨x, ?_, hxnot⟩
        rcases List.mem_cons.mp hx with rfl | hx
        · exact absurd hl hxnot
        · exact hx
      · exact hnot hl

private theorem get_apply (s : State) (l : Line) (k : Key) :
    (s.apply tmpnam l).tcycle.get k =
      if l.key = k then l.setting else if k = .errPage404 then .inr (tmpnam s.tmps) else s.tcycle.get k := by
  rcases hk : l.key <;> cases k <;> simp [State.apply, TgxCycle.get, Line.setting, hk]

/-- A key that no other key's line disturbs has its given value at the end, or its first one. -/
private theorem get_foldl {k : Key} (hk : k ≠ .errPage404) (L : List Line) (hL : (L.map Line.key).Nodup) (s : State) :
    (∀ l ∈ L, l.key = k → (L.foldl (.apply tmpnam) s).tcycle.get k = l.setting) ∧
      ((∀ l ∈ L, l.key ≠ k) → (L.foldl (.apply tmpnam) s).tcycle.get k = s.tcycle.get k) := by
  induction L generalizing s with
  | nil => simp
  | cons l L ih =>
    rw [List.map_cons, List.nodup_cons] at hL
    obtain ⟨hgiven, hkept⟩ := ih hL.2 (s.apply tmpnam l)
    rw [List.foldl_cons]
    constructor
    · intro x hx hxk
      rcases List.mem_cons.mp hx with rfl | hx
      · rw [hkept fun y hy hyk => hL.1 (List.mem_map.mpr ⟨y, hy, hyk.trans hxk.symm⟩), get_apply, if_pos hxk]
      · exact hgiven x hx hxk
    · intro hnone
      rw [hkept fun y hy => hnone y (by simp [hy]), get_apply, if_neg (hnone l (by simp)), if_neg hk]

end

/-- Whatever names `tmpnam` returns, the scan succeeds, every setting in the file has its given value at the
end, and every other one the value it had. -/
def Obeys (L : List Line) (tcycle : TgxCycle) : Prop :=
  ∀ tmpnam, Names tmpnam → ∃ s, tgxScanConfigFile tmpnam tcycle (L.flatMap Line.bytes) = some (0, s) ∧
    (∀ l ∈ L, s.tcycle.get l.key = l.setting) ∧ ∀ k, (∀ l ∈ L, l.key ≠ k) → s.tcycle.get k = tcycle.get k

/-- A file obeys exactly when its lines fit and the last of them, if there is one, gives the error page. -/
theorem obeys_iff (L : List Line) (hL : (L.map Line.key).Nodup) (tcycle : TgxCycle) :
    Obeys L tcycle ↔ (∀ l ∈ L, l.Fits) ∧ ∀ l ∈ L.getLast?, l.key = .errPage404 := by
  have hnames : ∀ name : List UInt8, name.length < 20 → Names fun _ => name := fun _ h _ => h
  constructor
  · intro hobeys
    have hfits : ∀ l ∈ L, l.Fits := by
      by_contra hnot
      push Not at hnot
      obtain ⟨s, hs, -⟩ := hobeys _ (hnames [] (by decide))
      exact (scanLoop_lines (hnames [] (by decide)) L _).2 hnot s hs
    refine ⟨hfits, fun l hl => ?_⟩
    obtain ⟨front, rfl⟩ := List.getLast?_eq_some_iff.mp hl
    by_contra hkey
    -- the error page is then what tmpnam returned last, though its value is settled without tmpnam
    have hname : ∀ name : List UInt8, name.length < 20 →
        (∀ x ∈ front ++ [l], x.key = .errPage404 → x.setting = .inr name) ∧
          ((∀ x ∈ front ++ [l], x.key ≠ .errPage404) → tcycle.get .errPage404 = .inr name) := by
      intro name hlen
      obtain ⟨s, hs, hgiven, hkept⟩ := hobeys _ (hnames name hlen)
      rw [tgxScanConfigFile, (scanLoop_lines (hnames name hlen) _ _).1 hfits] at hs
      obtain rfl := (Prod.mk.inj (Option.some.inj hs)).2
      have hlast : ((front ++ [l]).foldl (State.apply fun _ => name) ⟨tcycle, 0⟩).tcycle.get .errPage404 =
          .inr name := by
        rw [List.foldl_append, List.foldl_cons, List.foldl_nil, get_apply, if_neg hkey, if_pos rfl]
      exact ⟨fun x hx hxk => by rw [← hgiven x hx, hxk, hlast], fun hnone => by rw [← hkept _ hnone, hlast]⟩
    have h₁ := hname [47] (by decide)
    have h₂ := hname [48] (by decide)
    by_cases hgiven : ∃ x ∈ front ++ [l], x.key = .errPage404
    · obtain ⟨x, hx, hxk⟩ := hgiven
      exact absurd ((h₁.1 x hx hxk).symm.trans (h₂.1 x hx hxk)) (by decide)
    · push Not at hgiven
      exact absurd ((h₁.2 hgiven).symm.trans (h₂.2 hgiven)) (by decide)
  · rintro ⟨hfits, hlast⟩ tmpnam hn
    refine ⟨_, (scanLoop_lines hn L _).1 hfits, fun l hl => ?_, fun k hk => ?_⟩
    · by_cases herr : l.key = .errPage404
      · obtain ⟨front, last, rfl⟩ := (List.eq_nil_or_concat L).resolve_left (List.ne_nil_of_mem hl)
        rw [List.concat_eq_append] at *
        have hkey : last.key = .errPage404 := hlast last (by simp)
        obtain rfl : l = last := List.inj_on_of_nodup_map hL hl (by simp) (herr.trans hkey.symm)
        rw [List.foldl_append, List.foldl_cons, List.foldl_nil, get_apply, if_pos rfl]
      · exact (get_foldl herr L hL _).1 l hl rfl
    · by_cases herr : k = .errPage404
      · subst herr
        obtain rfl | ⟨front, last, rfl⟩ := List.eq_nil_or_concat L
        · rfl
        · rw [List.concat_eq_append] at *
          exact absurd (hlast last (by simp)) (hk last (by simp))
      · exact (get_foldl herr L hL _).2 hk

def Line.plain (key : Key) (value : List UInt8) (value_ne : value ≠ []) (chars : ∀ b ∈ value, b ≠ 0 ∧ b ≠ 10)
    (head : ∀ b ∈ value.head?, isBlank b = false) (last : ∀ b ∈ value.getLast?, isBlank b = false)
    (port : key = .port → value.all isDigit = true ∧ digitsValue value ≤ 65535) : Line :=
  ⟨key, value, [], [], [32], [], by decide, value_ne, chars, head, last, port⟩

/-- `port = 9090` -/
def portLine : Line :=
  .plain .port (ascii "9090") (by decide) (by decide) (by decide) (by decide) (by decide)

/-- `err_page 404 = 404.htm` -/
def errLine : Line :=
  .plain .errPage404 (ascii "404.htm") (by decide) (by decide) (by decide) (by decide) (by decide)

theorem obeys_in_order : Obeys [portLine, errLine] ⟨0, [], [], [], []⟩ :=
  (obeys_iff [portLine, errLine] (by decide) _).mpr
    ⟨by simp [Line.Fits]; decide, by decide⟩

/-- With the two lines in the other order the error page is a file that `tmpnam` names. -/
theorem order_matters :
    ¬ ∀ (L : List Line) (tcycle : TgxCycle), (L.map Line.key).Nodup → Obeys L tcycle := by
  intro hall
  have hlen : (ascii "/tmp/file0").length < 20 := by decide
  have hn : Names fun _ => ascii "/tmp/file0" := fun _ => hlen
  obtain ⟨s, hs, hgiven, -⟩ := hall [errLine, portLine] ⟨0, [], [], [], []⟩ (by decide) _ hn
  have hfits : ∀ l ∈ [errLine, portLine], l.Fits := by
    simp [Line.Fits]
    decide
  rw [tgxScanConfigFile, (scanLoop_lines hn _ _).1 hfits] at hs
  obtain rfl := (Prod.mk.inj (Option.some.inj hs)).2
  exact absurd (hgiven errLine (by simp)) (by decide)

/-- Whatever the settings are and whatever names `tmpnam` returns, a string of digits given for the port
is taken exactly when it denotes a number up to 65535, and the port is that number. -/
def PortObeys (d : List UInt8) : Prop :=
  ∀ tmpnam, Names tmpnam → ∀ s, ∃ ret s', tgxAnalyzeConfigfile tmpnam s (ascii "port") d = some (ret, s') ∧
    (ret = 0 ↔ digitsValue d ≤ 65535) ∧ (ret = 0 → s'.tcycle.port = digitsValue d)

private theorem atoi_allDigits {d : List UInt8} (hdigits : d.all isDigit = true) (hne : d ≠ []) :
    atoi d = toInt32 (min (digitsValue d) (2 ^ 63 - 1)) := by
  have hread := strtol_digits (List.forall_mem_nil _) (List.all_eq_true.mp hdigits) hne
    (show ∀ b ∈ [].head?, isDigit b = false by simp)
  rw [List.nil_append, List.append_nil] at hread
  rw [atoi, hread]

private theorem tgxAnalyzeConfigfile_port {tmpnam : Nat → List UInt8} (hn : Names tmpnam) (s : State) {d : List UInt8}
    (hdigits : d.all isDigit = true) :
    tgxAnalyzeConfigfile tmpnam s (ascii "port") d =
      some (if 65535 < atoi d then (-1, ⟨{ s.tcycle with port := atoi d }, s.tmps⟩)
        else (0, ⟨{ s.tcycle with port := atoi d, e404 := tmpnam s.tmps }, s.tmps + 1⟩)) := by
  have htmp : strcpy 256 (tmpnam s.tmps) = some (tmpnam s.tmps) := by
    have := hn s.tmps
    rw [strcpy, if_pos (by omega)]
  have hcopy : ∀ k : Key, k ≠ .port → ∀ old, copyIf (ascii "port") k.text 1024 d old = some old := by
    intro k hk old
    have hother := startsWith_key .port k
    rw [decide_eq_false (Ne.symm hk)] at hother
    exact if_neg (by rw [show ascii "port" = Key.text .port from rfl, hother]; decide)
  have herr : startsWith (ascii "port") (ascii "err_page 404") = false := startsWith_key .port .errPage404
  have hself : startsWith (ascii "port") (ascii "port") = true := startsWith_key .port .port
  have hroot := hcopy .root (by decide)
  have hlock := hcopy .lock (by decide)
  have hlog := hcopy .log (by decide)
  simp only [Key.text] at hroot hlock hlog
  rw [tgxAnalyzeConfigfile, analyzePort, if_pos hself, if_pos hdigits]
  by_cases hrange : 65535 < atoi d
  · simp [hrange]
  · simp [hrange, hroot, hlock, hlog, herr, htmp]

private theorem portObeys_atoi {d : List UInt8} (hdigits : d.all isDigit = true) :
    PortObeys d ↔ (¬ 65535 < atoi d ↔ digitsValue d ≤ 65535) ∧ (¬ 65535 < atoi d → atoi d = digitsValue d) := by
  have hn : Names fun _ => [] := fun _ => show 0 < 20 by decide
  constructor
  · intro h
    obtain ⟨ret, s', hrun, hrange, hport⟩ := h _ hn ⟨⟨0, [], [], [], []⟩, 0⟩
    rw [tgxAnalyzeConfigfile_port hn _ hdigits] at hrun
    split at hrun <;> obtain ⟨rfl, rfl⟩ := Prod.mk.inj (Option.some.inj hrun)
    · rename_i hlarge
      refine ⟨?_, fun hsmall => absurd hlarge hsmall⟩
      rw [← hrange]
      simp [hlarge]
    · rename_i hsmall
      refine ⟨?_, fun _ => hport rfl⟩
      rw [← hrange]
      simp [hsmall]
  · rintro ⟨hrange, hport⟩ tmpnam hn s
    rw [tgxAnalyzeConfigfile_port hn s hdigits]
    by_cases hlarge : 65535 < atoi d
    · refine ⟨_, _, congrArg some (if_pos hlarge), ?_, ?_⟩
      · rw [← hrange]
        simp [hlarge]
      · intro h
        cases h
    · refine ⟨_, _, congrArg some (if_neg hlarge), ?_, fun _ => hport hlarge⟩
      rw [← hrange]
      simp [hlarge]

/-- The conversion wraps round: apart from the numbers up to 65535, a string is treated as it should be
only where what is left of it is refused too. -/
theorem portObeys_iff (d : List UInt8) (hdigits : d.all isDigit = true) (hne : d ≠ []) :
    PortObeys d ↔ digitsValue d ≤ 65535 ∨
      digitsValue d < 2 ^ 63 ∧ 65535 < digitsValue d % 2 ^ 32 ∧ digitsValue d % 2 ^ 32 < 2 ^ 31 := by
  rw [portObeys_atoi hdigits, atoi_allDigits hdigits hne]
  generalize digitsValue d = n
  by_cases hlarge : n < 2 ^ 63
  · have hmin : (min (n : Int) (2 ^ 63 - 1)) = n := by omega
    rw [hmin, toInt32, Int.bmod_def]
    split <;> omega
  · -- the largest `long` is left as -1
    have hmin : (min (n : Int) (2 ^ 63 - 1)) = 2 ^ 63 - 1 := by omega
    have hwrap : toInt32 (2 ^ 63 - 1) = -1 := by decide
    rw [hmin, hwrap]
    omega

theorem portObeys_eighty : PortObeys (ascii "8080") :=
  (portObeys_iff (ascii "8080") (by decide) (by decide)).mpr (.inl (by decide))

/-- 2^32 is taken for port 0. -/
theorem wrapped_port :
    ¬ ∀ d : List UInt8, d.all isDigit = true → d ≠ [] → PortObeys d := by
  intro h
  have hn : Names fun _ => [] := fun _ => show 0 < 20 by decide
  obtain ⟨ret, s', hrun, hrange, -⟩ :=
    h (ascii "4294967296") (by decide) (by decide) _ hn ⟨⟨0, [], [], [], []⟩, 0⟩
  have hvalue : digitsValue (ascii "4294967296") = 4294967296 := by decide
  rw [tgxAnalyzeConfigfile_port hn _ (by decide), if_neg (by decide +kernel)] at hrun
  obtain ⟨rfl, -⟩ := Prod.mk.inj (Option.some.inj hrun)
  rw [hvalue] at hrange
  exact absurd (hrange.mp rfl) (by decide)

end TinyosGraphics.ScanConfig
