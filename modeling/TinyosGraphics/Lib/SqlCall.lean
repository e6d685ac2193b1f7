import TinyosGraphics.Lib.CString

/-! SQL statements that call a procedure with literals as arguments: how a text is read in MySQL's
default mode, how such a statement is written, and which strings come back when they are written
without escaping. -/
namespace TinyosGraphics.Lib.Sql

inductive Literal
  | text (value : List UInt8)
  | int (value : Int)
  deriving DecidableEq

inductive Token
  | word (name : List UInt8)
  | number (value : Nat)
  | text (value : List UInt8)
  | symbol (c : UInt8)
  deriving DecidableEq

/-- What a backslash and the byte behind it stand for. -/
def unescape (c : UInt8) : List UInt8 :=
  if c = 48 then [0]
  else if c = 98 then [8]
  else if c = 110 then [10]
  else if c = 114 then [13]
  else if c = 116 then [9]
  else if c = 90 then [26]
  else if c = 37 ∨ c = 95 then [92, c]
  else [c]

/-- A string behind its opening quote `q`: its value, and what follows the closing quote. -/
def quoted (q : UInt8) : List UInt8 → Option (List UInt8 × List UInt8)
  | [] => none
  | [b] => if b = q then some ([], []) else none
  | b :: c :: rest =>
    if b = 92 then (quoted q rest).map fun r => (unescape c ++ r.1, r.2)
    else if b = q then
      -- a doubled quote is one of the string
      if c = q then (quoted q rest).map fun r => (q :: r.1, r.2) else some ([], c :: rest)
    else (quoted q (c :: rest)).map fun r => (b :: r.1, r.2)

def isWordChar (b : UInt8) : Bool :=
  (65 ≤ b && b ≤ 90) || (97 ≤ b && b ≤ 122) || isDigit b || b == 95 || b == 36 || 128 ≤ b

def joinText (value : List UInt8) : List Token → List Token
  | .text next :: tokens => .text (value ++ next) :: tokens
  | tokens => .text value :: tokens

/-- The tokens of a text, each of which takes a unit of fuel. -/
def lexWith : Nat → List UInt8 → Option (List Token)
  | _, [] => some []
  | 0, _ :: _ => none
  | fuel + 1, b :: bs =>
    if isSpace b then lexWith fuel bs
    else if b = 39 ∨ b = 34 then (quoted b bs).bind fun r => (lexWith fuel r.2).map (joinText r.1)
    else if isDigit b then
      (lexWith fuel (bs.dropWhile isDigit)).map (.number (digitsValue (b :: bs.takeWhile isDigit)) :: ·)
    else if isWordChar b then
      (lexWith fuel (bs.dropWhile isWordChar)).map (.word (b :: bs.takeWhile isWordChar) :: ·)
    else (lexWith fuel bs).map (.symbol b :: ·)

/-- No text has more tokens than bytes. -/
def lex (text : List UInt8) : Option (List Token) :=
  lexWith text.length text

/-- The literals up to the closing parenthesis, each behind a comma. -/
def readClosing : List Token → Option (List Literal)
  | [.symbol 41] => some []
  | .symbol 44 :: .text value :: rest => (readClosing rest).map (.text value :: ·)
  | .symbol 44 :: .number n :: rest => (readClosing rest).map (.int n :: ·)
  | .symbol 44 :: .symbol 45 :: .number n :: rest => (readClosing rest).map (.int (-n) :: ·)
  | _ => none

/-- The procedure and the arguments, when the text is a single `CALL` with literals as arguments. -/
def readCall (text : List UInt8) : Option (List UInt8 × List Literal) :=
  match lex text with
  | some (.word keyword :: .word name :: .symbol 40 :: rest) =>
    if keyword = ascii "call" then (readClosing (.symbol 44 :: rest)).map fun args => (name, args) else none
  | _ => none

/-- A literal as `printf` writes it for `'%s'` or `%d`: nothing is escaped. -/
def Literal.render : Literal → List UInt8
  | .text value => 39 :: (value ++ [39])
  | .int n => decimalInt n

def renderClosing : List Literal → List UInt8
  | [] => [41]
  | a :: as => 44 :: (a.render ++ renderClosing as)

/-- A `CALL` with at least one argument. -/
def renderCall (name : List UInt8) (a : Literal) (as : List Literal) : List UInt8 :=
  ascii "call " ++ name ++ 40 :: (a.render ++ renderClosing as)

/-- The strings that stand for themselves between quotes `q`: no quote is in them, and every backslash is
before a `%` or a `_`. -/
def Plain (q : UInt8) (s : List UInt8) : Prop :=
  q ∉ s ∧ ∀ i : Nat, s[i]? = some 92 → s[i + 1]? = some 37 ∨ s[i + 1]? = some 95

theorem Plain.nil (q : UInt8) : Plain q [] := by
  simp [Plain]

theorem plain_cons {q b : UInt8} {s : List UInt8} :
    Plain q (b :: s) ↔ b ≠ q ∧ (b = 92 → s.head? = some 37 ∨ s.head? = some 95) ∧ Plain q s := by
  constructor
  · rintro ⟨hmem, hall⟩
    rw [List.mem_cons, not_or] at hmem
    refine ⟨fun h => hmem.1 h.symm, fun hb => ?_, hmem.2, fun i hi => hall (i + 1) hi⟩
    have hzero := hall 0 (by simp [hb])
    simpa [List.head?_eq_getElem?] using hzero
  · rintro ⟨hb, hhead, hmem, hall⟩
    refine ⟨by simp [List.mem_cons, hb.symm, hmem], fun i hi => ?_⟩
    cases i with
    | zero =>
      have hbs : b = 92 := by simpa using hi
      simpa [List.head?_eq_getElem?] using hhead hbs
    | succ i => exact hall i hi

theorem unescape_length (c : UInt8) : (unescape c).length ≤ 2 := by
  unfold unescape
  repeat' split
  all_goals simp

/-- Only before `%` and `_` a backslash stands for itself. -/
theorem unescape_eq_two {c : UInt8} (h : 2 ≤ (unescape c).length) : (c = 37 ∨ c = 95) ∧ unescape c = [92, c] := by
  unfold unescape at h ⊢
  repeat' split at h
  all_goals simp at h
  rename_i hc
  rcases hc with rfl | rfl <;> decide

/-- A string is not longer than what stands for it. -/
theorem quoted_length {q : UInt8} {bs value rest : List UInt8} (h : quoted q bs = some (value, rest)) :
    value.length + 1 + rest.length ≤ bs.length := by
  induction bs using quoted.induct q generalizing value rest with
  | case1 => cases h
  | case2 =>
    rw [quoted, if_pos rfl] at h
    obtain ⟨rfl, rfl⟩ := Prod.mk.inj (Option.some.inj h)
    simp
  | case3 b hb =>
    rw [quoted, if_neg hb] at h
    cases h
  | case4 c tail ih =>
    rw [quoted, if_pos rfl, Option.map_eq_some_iff] at h
    obtain ⟨⟨v, r⟩, hq, heq⟩ := h
    obtain ⟨rfl, rfl⟩ := Prod.mk.inj heq
    have hlen := ih hq
    have hesc := unescape_length c
    simp only [List.length_append, List.length_cons]
    omega
  | case5 tail hb ih =>
    rw [quoted, if_neg hb, if_pos rfl, if_pos rfl, Option.map_eq_some_iff] at h
    obtain ⟨⟨v, r⟩, hq, heq⟩ := h
    obtain ⟨rfl, rfl⟩ := Prod.mk.inj heq
    have hlen := ih hq
    simp only [List.length_cons]
    omega
  | case6 c tail hb hc =>
    rw [quoted, if_neg hb, if_pos rfl, if_neg hc] at h
    obtain ⟨rfl, rfl⟩ := Prod.mk.inj (Option.some.inj h)
    simp
    omega
  | case7 b c tail hb hq ih =>
    rw [quoted, if_neg hb, if_neg hq, Option.map_eq_some_iff] at h
    obtain ⟨⟨v, r⟩, hr, heq⟩ := h
    obtain ⟨rfl, rfl⟩ := Prod.mk.inj heq
    have hlen := ih hr
    simp only [List.length_cons] at hlen ⊢
    omega

/-- A string as long as what stands for it is plain, and what stands for it is itself. -/
theorem quoted_tight {q : UInt8} (hq : q = 39 ∨ q = 34) {bs value rest : List UInt8}
    (h : quoted q bs = some (value, rest)) (hlen : bs.length ≤ value.length + 1 + rest.length) :
    bs = value ++ q :: rest ∧ Plain q value := by
  induction bs using quoted.induct q generalizing value rest with
  | case1 => cases h
  | case2 =>
    rw [quoted, if_pos rfl] at h
    obtain ⟨rfl, rfl⟩ := Prod.mk.inj (Option.some.inj h)
    exact ⟨rfl, .nil q⟩
  | case3 b hb =>
    rw [quoted, if_neg hb] at h
    cases h
  | case4 c tail ih =>
    rw [quoted, if_pos rfl, Option.map_eq_some_iff] at h
    obtain ⟨⟨v, r⟩, hr, heq⟩ := h
    obtain ⟨rfl, rfl⟩ := Prod.mk.inj heq
    have htail := quoted_length hr
    simp only [List.length_append, List.length_cons] at hlen htail
    obtain ⟨hc, hesc⟩ := unescape_eq_two (c := c) (by omega)
    have htwo : (unescape c).length = 2 := by rw [hesc]; rfl
    obtain ⟨rfl, hplain⟩ := ih hr (by omega)
    rw [hesc]
    refine ⟨rfl, plain_cons.mpr ⟨?_, fun _ => ?_, plain_cons.mpr ⟨?_, ?_, hplain⟩⟩⟩
    · rcases hq with rfl | rfl <;> decide
    · simpa using hc
    · rcases hq with rfl | rfl <;> rcases hc with rfl | rfl <;> decide
    · rcases hc with rfl | rfl <;> exact fun h => absurd h (by decide)
  | case5 tail hb ih =>
    rw [quoted, if_neg hb, if_pos rfl, if_pos rfl, Option.map_eq_some_iff] at h
    obtain ⟨⟨v, r⟩, hr, heq⟩ := h
    obtain ⟨rfl, rfl⟩ := Prod.mk.inj heq
    have htail := quoted_length hr
    simp only [List.length_cons] at hlen htail
    omega
  | case6 c tail hb hc =>
    rw [quoted, if_neg hb, if_pos rfl, if_neg hc] at h
    obtain ⟨rfl, rfl⟩ := Prod.mk.inj (Option.some.inj h)
    exact ⟨rfl, .nil q⟩
  | case7 b c tail hb hbq ih =>
    rw [quoted, if_neg hb, if_neg hbq, Option.map_eq_some_iff] at h
    obtain ⟨⟨v, r⟩, hr, heq⟩ := h
    obtain ⟨rfl, rfl⟩ := Prod.mk.inj heq
    simp only [List.length_cons] at hlen ih
    obtain ⟨htail, hplain⟩ := ih hr (by omega)
    exact ⟨by rw [htail]; rfl, plain_cons.mpr ⟨hbq, fun h => absurd h hb, hplain⟩⟩

theorem quoted_cons {q b : UInt8} (hb : b ≠ 92) (hq : b ≠ q) (bs : List UInt8) :
    quoted q (b :: bs) = (quoted q bs).map fun r => (b :: r.1, r.2) := by
  cases bs with
  | nil => simp [quoted, hq]
  | cons c bs => rw [quoted, if_neg hb, if_neg hq]

theorem quoted_plain {q : UInt8} (hq : q = 39 ∨ q = 34) {c : UInt8} (hc : c ≠ q) (rest : List UInt8) :
    ∀ {s : List UInt8}, Plain q s → quoted q (s ++ q :: c :: rest) = some (s, c :: rest)
  | [], _ => by
    have hne : q ≠ 92 := by rcases hq with rfl | rfl <;> decide
    rw [List.nil_append, quoted, if_neg hne, if_pos rfl, if_neg hc]
  | [b], h => by
    obtain ⟨hb, hhead, -⟩ := plain_cons.mp h
    have hne : b ≠ 92 := fun h92 => by simpa using hhead h92
    rw [List.cons_append, quoted_cons hne hb, quoted_plain hq hc rest (.nil q)]
    rfl
  | b :: d :: s, h => by
    obtain ⟨hb, hhead, htail⟩ := plain_cons.mp h
    by_cases h92 : b = 92
    · subst h92
      have hd : d = 37 ∨ d = 95 := by simpa using hhead rfl
      have hesc : unescape d = [92, d] := by rcases hd with rfl | rfl <;> decide
      rw [List.cons_append, List.cons_append, quoted, if_pos rfl, quoted_plain hq hc rest (plain_cons.mp htail).2.2,
        hesc]
      rfl
    · rw [List.cons_append, quoted_cons h92 hb, quoted_plain hq hc rest htail]
      rfl

/-- How many bytes a token takes at least. -/
def Token.weight : Token → Nat
  | .word name => name.length
  | .number n => (decimal n).length
  | .text value => value.length + 2
  | .symbol _ => 1

def weight (tokens : List Token) : Nat :=
  (tokens.map Token.weight).sum

@[simp] theorem weight_nil : weight [] = 0 := rfl

@[simp] theorem weight_cons (t : Token) (tokens : List Token) : weight (t :: tokens) = t.weight + weight tokens := by
  simp [weight]

theorem weight_joinText (value : List UInt8) (tokens : List Token) :
    joinText value tokens = .text value :: tokens ∨
      weight (joinText value tokens) < value.length + 2 + weight tokens := by
  cases tokens with
  | nil => exact .inl rfl
  | cons t tokens =>
    cases t with
    | text next =>
      refine .inr ?_
      simp only [joinText, weight_cons, Token.weight, List.length_append]
      omega
    | _ => exact .inl rfl

theorem digitsValue_lt {ds : List UInt8} (h : ∀ b ∈ ds, isDigit b = true) : digitsValue ds < 10 ^ ds.length := by
  induction ds using List.reverseRecOn with
  | nil => simp [digitsValue]
  | append_singleton ds b ih =>
    have hlt := ih fun x hx => h x (by simp [hx])
    have hb := h b (by simp)
    simp only [isDigit, Bool.and_eq_true, decide_eq_true_eq, UInt8.le_iff_toNat_le] at hb
    have hhigh : b.toNat ≤ 57 := hb.2
    rw [digitsValue_concat, List.length_append, List.length_singleton, Nat.pow_succ]
    omega

theorem weight_le {fuel : Nat} {bs : List UInt8} {tokens : List Token} (h : lexWith fuel bs = some tokens) :
    weight tokens ≤ bs.length := by
  induction fuel generalizing bs tokens with
  | zero =>
    cases bs with
    | nil =>
      obtain rfl := Option.some.inj h
      simp
    | cons b bs => cases h
  | succ fuel ih =>
    cases bs with
    | nil =>
      obtain rfl := Option.some.inj h
      simp
    | cons b bs =>
      rw [lexWith] at h
      split at h
      · have hle := ih h
        rw [List.length_cons]
        omega
      split at h
      · obtain ⟨⟨value, rest⟩, hquoted, h⟩ := Option.bind_eq_some_iff.mp h
        obtain ⟨tokens', htokens, rfl⟩ := Option.map_eq_some_iff.mp h
        have hle : weight tokens' ≤ rest.length := ih htokens
        have hlen := quoted_length hquoted
        have hjoin : weight (joinText value tokens') ≤ value.length + 2 + weight tokens' := by
          rcases weight_joinText value tokens' with heq | hlt
          · rw [heq, weight_cons, Token.weight]
          · exact hlt.le
        exact hjoin.trans (by rw [List.length_cons]; omega)
      split at h
      · rename_i hdigit
        obtain ⟨tokens', htokens, rfl⟩ := Option.map_eq_some_iff.mp h
        have hle := ih htokens
        have hall : ∀ x ∈ b :: bs.takeWhile isDigit, isDigit x = true := by
          intro x hx
          rcases List.mem_cons.mp hx with rfl | hx
          · exact hdigit
          · exact List.all_eq_true.mp List.all_takeWhile x hx
        have hdec := length_decimal_le (digitsValue_lt hall) (by simp)
        have hsplit := congrArg List.length (List.takeWhile_append_dropWhile (p := isDigit) (l := bs))
        simp only [List.length_append, List.length_cons, weight_cons, Token.weight] at hdec hsplit ⊢
        omega
      split at h
      · obtain ⟨tokens', htokens, rfl⟩ := Option.map_eq_some_iff.mp h
        have hle := ih htokens
        have hsplit := congrArg List.length (List.takeWhile_append_dropWhile (p := isWordChar) (l := bs))
        simp only [List.length_append, List.length_cons, weight_cons, Token.weight] at hsplit ⊢
        omega
      · obtain ⟨tokens', htokens, rfl⟩ := Option.map_eq_some_iff.mp h
        have hle := ih htokens
        simp only [List.length_cons, weight_cons, Token.weight]
        omega

theorem lexWith_symbol {c : UInt8} (h : c = 40 ∨ c = 41 ∨ c = 44 ∨ c = 45) (fuel : Nat) (rest : List UInt8) :
    lexWith (fuel + 1) (c :: rest) = (lexWith fuel rest).map (.symbol c :: ·) := by
  rcases h with rfl | rfl | rfl | rfl <;> rfl

theorem lexWith_text (fuel : Nat) (bs : List UInt8) :
    lexWith (fuel + 1) (39 :: bs) = (quoted 39 bs).bind fun r => (lexWith fuel r.2).map (joinText r.1) :=
  rfl

theorem takeWhile_append_cons {go : UInt8 → Bool} {taken : List UInt8} {c : UInt8} (h : ∀ x ∈ taken, go x = true)
    (hc : go c = false) (rest : List UInt8) :
    (taken ++ c :: rest).takeWhile go = taken ∧ (taken ++ c :: rest).dropWhile go = c :: rest := by
  rw [List.takeWhile_append_of_pos h, List.dropWhile_append_of_pos h, List.takeWhile_cons_of_neg (by simp [hc]),
    List.dropWhile_cons_of_neg (by simp [hc]), List.append_nil]
  exact ⟨rfl, rfl⟩

theorem isDigit_not_quote {b : UInt8} (h : isDigit b = true) : ¬ (b = 39 ∨ b = 34) := by
  rintro (rfl | rfl) <;> exact absurd h (by decide)

theorem lexWith_number (fuel n : Nat) {c : UInt8} (hc : isDigit c = false) (rest : List UInt8) :
    lexWith (fuel + 1) (decimal n ++ c :: rest) = (lexWith fuel (c :: rest)).map (.number n :: ·) := by
  obtain ⟨b, ds, hb⟩ := List.exists_cons_of_ne_nil (decimal_ne_nil n)
  have hall : ∀ x ∈ b :: ds, isDigit x = true := fun x hx => isDigit_decimal (hb ▸ hx)
  have hdigit := hall b List.mem_cons_self
  obtain ⟨htake, hdrop⟩ := takeWhile_append_cons (fun x hx => hall x (List.mem_cons_of_mem _ hx)) hc rest
  have hspace := (isDigit_not_space hdigit).1
  rw [hb, List.cons_append, lexWith, if_neg (by simp [hspace]), if_neg (isDigit_not_quote hdigit), if_pos hdigit,
    htake, hdrop, ← hb, digitsValue_decimal]

/-- A word begins like a name and goes on so to its end. -/
def IsWord (w : List UInt8) : Prop :=
  w ≠ [] ∧ (∀ b ∈ w.head?, isDigit b = false) ∧ ∀ b ∈ w, isWordChar b = true

theorem isWordChar_not_space {b : UInt8} (h : isWordChar b = true) : isSpace b = false ∧ ¬ (b = 39 ∨ b = 34) := by
  refine ⟨?_, by rintro (rfl | rfl) <;> exact absurd h (by decide)⟩
  by_contra hspace
  simp only [isSpace, isWordChar, isDigit, Bool.not_eq_false, Bool.or_eq_true, Bool.and_eq_true, beq_iff_eq,
    decide_eq_true_eq, UInt8.le_iff_toNat_le, ← UInt8.toNat_inj] at h hspace
  simp at h hspace
  omega

theorem lexWith_word {w : List UInt8} (h : IsWord w) (fuel : Nat) {c : UInt8} (hc : isWordChar c = false)
    (rest : List UInt8) : lexWith (fuel + 1) (w ++ c :: rest) = (lexWith fuel (c :: rest)).map (.word w :: ·) := by
  obtain ⟨hne, hhead, hall⟩ := h
  obtain ⟨b, bs, rfl⟩ := List.exists_cons_of_ne_nil hne
  obtain ⟨htake, hdrop⟩ := takeWhile_append_cons (fun x hx => hall x (List.mem_cons_of_mem _ hx)) hc rest
  have hb := hall b List.mem_cons_self
  obtain ⟨hspace, hquote⟩ := isWordChar_not_space hb
  rw [List.cons_append, lexWith, if_neg (by simp [hspace]), if_neg hquote, if_neg (by simp [hhead b rfl]), if_pos hb,
    htake, hdrop]

/-- More fuel reads the same tokens. -/
theorem lexWith_add {fuel : Nat} {bs : List UInt8} {tokens : List Token} (h : lexWith fuel bs = some tokens)
    (more : Nat) : lexWith (fuel + more) bs = some tokens := by
  induction fuel generalizing bs tokens with
  | zero =>
    cases bs with
    | nil => cases more <;> exact h
    | cons b bs => cases h
  | succ fuel ih =>
    cases bs with
    | nil =>
      rw [Nat.succ_add]
      exact h
    | cons b bs =>
      rw [Nat.succ_add]
      rw [lexWith] at h ⊢
      split at h
      · exact (if_pos ‹_›).trans (ih h)
      refine (if_neg ‹_›).trans ?_
      split at h
      · obtain ⟨r, hquoted, h⟩ := Option.bind_eq_some_iff.mp h
        obtain ⟨tokens', htokens, rfl⟩ := Option.map_eq_some_iff.mp h
        rw [if_pos ‹_›, hquoted, Option.bind_some, ih htokens, Option.map_some]
      refine (if_neg ‹_›).trans ?_
      split at h
      · obtain ⟨tokens', htokens, rfl⟩ := Option.map_eq_some_iff.mp h
        rw [if_pos ‹_›, ih htokens, Option.map_some]
      refine (if_neg ‹_›).trans ?_
      split at h
      · obtain ⟨tokens', htokens, rfl⟩ := Option.map_eq_some_iff.mp h
        rw [if_pos ‹_›, ih htokens, Option.map_some]
      · obtain ⟨tokens', htokens, rfl⟩ := Option.map_eq_some_iff.mp h
        rw [if_neg ‹_›, ih htokens, Option.map_some]

def Literal.tokens : Literal → List Token
  | .text value => [.text value]
  | .int n => if n < 0 then [.symbol 45, .number n.natAbs] else [.number n.toNat]

def closing : List Literal → List Token
  | [] => [.symbol 41]
  | a :: as => .symbol 44 :: (a.tokens ++ closing as)

theorem readClosing_int (n : Int) (tokens : List Token) :
    readClosing (.symbol 44 :: ((Literal.int n).tokens ++ tokens)) = (readClosing tokens).map (.int n :: ·) := by
  rw [Literal.tokens]
  split
  · have hn : -(n.natAbs : Int) = n := by omega
    rw [List.cons_append, List.cons_append, List.nil_append, readClosing, hn]
  · have hn : (n.toNat : Int) = n := by omega
    rw [List.cons_append, List.nil_append, readClosing, hn]

theorem readClosing_closing (as : List Literal) : readClosing (closing as) = some as := by
  induction as with
  | nil => rfl
  | cons a as ih =>
    cases a with
    | text value => rw [closing, Literal.tokens, List.cons_append, List.nil_append, readClosing, ih, Option.map_some]
    | int n => rw [closing, readClosing_int, ih, Option.map_some]

theorem decimal_length_pos (n : Nat) : 0 < (decimal n).length :=
  List.length_pos_iff.mpr (decimal_ne_nil n)

theorem renderClosing_length_le {tokens : List Token} {as : List Literal} (h : readClosing tokens = some as) :
    (renderClosing as).length ≤ weight tokens := by
  induction tokens using readClosing.induct generalizing as with
  | case1 =>
    obtain rfl := Option.some.inj h
    decide
  | case2 value rest ih =>
    rw [readClosing, Option.map_eq_some_iff] at h
    obtain ⟨as, hrest, rfl⟩ := h
    have hle := ih hrest
    simp only [renderClosing, Literal.render, weight_cons, Token.weight, List.length_cons, List.length_append,
      List.length_nil]
    omega
  | case3 n rest ih =>
    rw [readClosing, Option.map_eq_some_iff] at h
    obtain ⟨as, hrest, rfl⟩ := h
    have hle := ih hrest
    have hn : decimalInt (n : Int) = decimal n := by rw [decimalInt, if_neg (by omega), Int.toNat_natCast]
    simp only [renderClosing, Literal.render, weight_cons, Token.weight, List.length_cons, List.length_append, hn]
    omega
  | case4 n rest ih =>
    rw [readClosing, Option.map_eq_some_iff] at h
    obtain ⟨as, hrest, rfl⟩ := h
    have hle := ih hrest
    have hn : (decimalInt (-(n : Int))).length ≤ (decimal n).length + 1 := by
      rw [decimalInt]
      split
      · rw [Int.natAbs_neg, Int.natAbs_natCast, List.length_cons]
      · have hzero : n = 0 := by omega
        rw [hzero]
        decide
    simp only [renderClosing, Literal.render, weight_cons, Token.weight, List.length_cons, List.length_append]
    omega
  | case5 =>
    rw [readClosing] at h
    · cases h
    all_goals assumption

theorem renderClosing_eq_cons (as : List Literal) :
    ∃ c rest, renderClosing as = c :: rest ∧ (c = 44 ∨ c = 41) := by
  cases as with
  | nil => exact ⟨41, [], rfl, .inr rfl⟩
  | cons a as => exact ⟨44, _, rfl, .inl rfl⟩

/-- An integer is read as it was written. -/
theorem lexWith_int (fuel : Nat) (n : Int) {c : UInt8} (hc : isDigit c = false) (rest : List UInt8) :
    lexWith (fuel + (Literal.int n).tokens.length) (decimalInt n ++ c :: rest) =
      (lexWith fuel (c :: rest)).map ((Literal.int n).tokens ++ ·) := by
  rw [Literal.tokens, decimalInt]
  split
  · have htwo : fuel + [Token.symbol 45, .number n.natAbs].length = fuel + 1 + 1 := rfl
    rw [htwo, List.cons_append, lexWith_symbol (by simp), lexWith_number _ _ hc, Option.map_map]
    rfl
  · exact lexWith_number fuel n.toNat hc rest

/-- With strings that are plain, the text has the tokens that were meant. -/
theorem lexWith_renderClosing {as : List Literal} (h : ∀ s, .text s ∈ as → Plain 39 s) {fuel : Nat}
    (hfuel : (renderClosing as).length ≤ fuel) : lexWith fuel (renderClosing as) = some (closing as) := by
  induction as generalizing fuel with
  | nil =>
    obtain ⟨fuel, rfl⟩ : ∃ k, fuel = k + 1 := ⟨fuel - 1, by simp [renderClosing] at hfuel; omega⟩
    cases fuel <;> rfl
  | cons a as ih =>
    obtain ⟨c, rest, hrest, hc⟩ := renderClosing_eq_cons as
    have hdigit : isDigit c = false := by rcases hc with rfl | rfl <;> rfl
    rw [renderClosing, List.length_cons, List.length_append] at hfuel
    obtain ⟨fuel, rfl⟩ : ∃ k, fuel = k + 1 := ⟨fuel - 1, by omega⟩
    rw [renderClosing, lexWith_symbol (by simp), closing]
    cases a with
    | text s =>
      rw [Literal.render, List.length_cons, List.length_append] at hfuel
      obtain ⟨fuel, rfl⟩ : ∃ k, fuel = k + 1 := ⟨fuel - 1, by omega⟩
      have hquoted := quoted_plain (q := 39) (.inl rfl) (c := c) (by rcases hc with rfl | rfl <;> decide) rest
        (h s List.mem_cons_self)
      have hjoin : joinText s (closing as) = .text s :: closing as := by cases as <;> rfl
      rw [Literal.render, List.cons_append, List.append_assoc, List.singleton_append, lexWith_text, hrest, hquoted,
        Option.bind_some, ← hrest, ih (fun t ht => h t (List.mem_cons_of_mem _ ht)) (by omega), Option.map_some,
        hjoin]
      rfl
    | int n =>
      have hlen : (Literal.int n).tokens.length ≤ (Literal.int n).render.length := by
        simp only [Literal.tokens, Literal.render, decimalInt]
        have hpos := decimal_length_pos
        split
        · exact Nat.succ_le_succ (hpos _)
        · exact hpos _
      obtain ⟨k, rfl⟩ : ∃ k, fuel = k + (Literal.int n).tokens.length :=
        ⟨fuel - (Literal.int n).tokens.length, by omega⟩
      rw [Literal.render] at hfuel hlen ⊢
      rw [hrest, lexWith_int _ _ hdigit, ← hrest, ih (fun t ht => h t (List.mem_cons_of_mem _ ht)) (by omega)]
      rfl

/-- The only texts that read back as they were written have plain strings: an escape or a join would leave
too few bytes for the arguments. -/
theorem plain_of_readClosing {as : List Literal} {fuel : Nat} {tokens : List Token}
    (hlex : lexWith fuel (renderClosing as) = some tokens) (hread : readClosing tokens = some as) :
    ∀ s, .text s ∈ as → Plain 39 s := by
  induction as generalizing fuel tokens with
  | nil => intro s hs; cases hs
  | cons a as ih =>
    obtain ⟨c, rest, hrest, hc⟩ := renderClosing_eq_cons as
    have hdigit : isDigit c = false := by rcases hc with rfl | rfl <;> rfl
    have hmore := lexWith_add hlex (1 + a.tokens.length)
    rw [renderClosing, show fuel + (1 + a.tokens.length) = fuel + a.tokens.length + 1 by omega,
      lexWith_symbol (by simp), Option.map_eq_some_iff] at hmore
    obtain ⟨tokens, hmore, rfl⟩ := hmore
    cases a with
    | int n =>
      rw [Literal.render, hrest, lexWith_int _ _ hdigit, Option.map_eq_some_iff, ← hrest] at hmore
      obtain ⟨tokens, hmore, rfl⟩ := hmore
      rw [readClosing_int, Option.map_eq_some_iff] at hread
      obtain ⟨as', hread, heq⟩ := hread
      obtain rfl := (List.cons.inj heq).2
      intro s hs
      exact ih hmore hread s (by simpa using hs)
    | text s =>
      rw [Literal.render, List.cons_append, List.append_assoc, List.singleton_append] at hmore
      obtain ⟨⟨value, after⟩, hquoted, hjoined⟩ := Option.bind_eq_some_iff.mp ((lexWith_text _ _).symm.trans hmore)
      obtain ⟨tokens, htokens, rfl⟩ := Option.map_eq_some_iff.mp hjoined
      have hafter : weight tokens ≤ after.length := weight_le htokens
      have hlen := quoted_length hquoted
      have hall := renderClosing_length_le hread
      simp only [renderClosing, Literal.render, weight_cons, Token.weight, List.length_cons, List.length_append,
        List.length_nil] at hall hlen
      rcases weight_joinText value tokens with hjoin | hjoin
      · rw [hjoin, readClosing, Option.map_eq_some_iff] at hread
        obtain ⟨as', hread, heq⟩ := hread
        obtain ⟨htext, rfl⟩ := List.cons.inj heq
        obtain rfl := Literal.text.inj htext
        have htail := renderClosing_length_le hread
        obtain ⟨hsplit, hplain⟩ := quoted_tight (.inl rfl) hquoted (by simp; omega)
        obtain rfl := (List.cons.inj (List.append_cancel_left hsplit)).2
        intro t ht
        rcases List.mem_cons.mp ht with heq | ht
        · exact Literal.text.inj heq ▸ hplain
        · exact ih htokens hread t ht
      · omega

/-- Up to the opening parenthesis a call is read as it was written. -/
theorem readCall_renderCall {name : List UInt8} (hname : IsWord name) (a : Literal) (as : List Literal) :
    ∃ fuel, (renderClosing (a :: as)).length ≤ fuel ∧
      readCall (renderCall name a as) =
        ((lexWith fuel (renderClosing (a :: as))).bind readClosing).map fun args => (name, args) := by
  have htext : renderCall name a as = ascii "call" ++ 32 :: (name ++ 40 :: (a.render ++ renderClosing as)) := by
    rw [renderCall, show ascii "call " = ascii "call" ++ [32] by rfl]
    simp only [List.append_assoc, List.cons_append, List.nil_append]
  obtain ⟨fuel, hfuel, hlen⟩ : ∃ fuel, (a.render ++ renderClosing as).length ≤ fuel ∧
      (renderCall name a as).length = fuel + 4 := by
    have hall := congrArg List.length htext
    simp only [List.length_append, List.length_cons, show (ascii "call").length = 4 by rfl] at hall
    exact ⟨(renderCall name a as).length - 4, by rw [List.length_append]; omega, by omega⟩
  have hlex : lex (renderCall name a as) =
      (lexWith fuel (a.render ++ renderClosing as)).map fun tokens =>
        .word (ascii "call") :: .word name :: .symbol 40 :: tokens := by
    have hcall : IsWord (ascii "call") := ⟨by decide, by decide, by decide⟩
    rw [lex, hlen, htext, lexWith_word hcall _ (by decide),
      show lexWith (fuel + 3) (32 :: (name ++ 40 :: (a.render ++ renderClosing as))) =
        lexWith (fuel + 2) (name ++ 40 :: (a.render ++ renderClosing as)) by rfl,
      lexWith_word hname _ (by decide), lexWith_symbol (by simp), Option.map_map, Option.map_map]
    rfl
  refine ⟨fuel + 1, Nat.succ_le_succ hfuel, ?_⟩
  rw [readCall, hlex, renderClosing, lexWith_symbol (by simp)]
  cases lexWith fuel (a.render ++ renderClosing as) with
  | none => rfl
  | some tokens => exact if_pos rfl

/-- A call is read back as it was written exactly if all its strings are plain. -/
theorem readCall_renderCall_iff {name : List UInt8} (hname : IsWord name) (a : Literal) (as : List Literal) :
    readCall (renderCall name a as) = some (name, a :: as) ↔ ∀ s, .text s ∈ a :: as → Plain 39 s := by
  obtain ⟨fuel, hfuel, hread⟩ := readCall_renderCall hname a as
  rw [hread]
  constructor
  · intro h
    obtain ⟨args, hargs, heq⟩ := Option.map_eq_some_iff.mp h
    obtain rfl := (Prod.mk.inj heq).2
    obtain ⟨tokens, hlex, hclosing⟩ := Option.bind_eq_some_iff.mp hargs
    exact plain_of_readClosing hlex hclosing
  · intro h
    rw [lexWith_renderClosing h hfuel, Option.bind_some, readClosing_closing, Option.map_some]

end TinyosGraphics.Lib.Sql
