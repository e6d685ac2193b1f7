import Mathlib.Data.List.TakeWhile

/-! `str_to_argc_argv` of `tgx_sensor_server.c`, which splits a datagram at its spaces. A result of `none` is
a read outside the block of `str`, or a write outside the buffers. -/
namespace TinyosGraphics.Sensor

/-- `while (*p == ' ') p++`, from the `p`-th byte on: what is left of the block, and `p - str`. -/
def skipBlanks : List UInt8 → Nat → Option (List UInt8 × Nat)
  | [], _ => none
  | c :: str, p => if c = 32 then skipBlanks str (p + 1) else some (c :: str, p)

/-- `argv[i][j] = c`. -/
def argvWrite (argv : List (List UInt8)) (i j : Nat) (c : UInt8) : Option (List (List UInt8)) := do
  let buf ← argv[i]?
  if j < buf.length then some (argv.set i (buf.set j c)) else none

/-- `while (*p != ' ' && (p - str) < len)`. -/
def copyToken (len i : Nat) : List UInt8 → Nat → Nat → List (List UInt8) →
    Option (List UInt8 × Nat × List (List UInt8))
  | [], _, _, _ => none
  | c :: str, p, j, argv =>
    if c ≠ 32 ∧ p < len then do copyToken len i str (p + 1) (j + 1) (← argvWrite argv i j c)
    else some (c :: str, p, argv)

/-- `while (*p == ' ' && (p - str) < len)`. -/
def skipSpaces (len : Nat) : List UInt8 → Nat → Option (List UInt8 × Nat)
  | [], _ => none
  | c :: str, p => if c = 32 ∧ p < len then skipSpaces len str (p + 1) else some (c :: str, p)

/-- The body of `while ((p - str) < len)`. -/
def splitTurn (len i : Nat) (str : List UInt8) (p : Nat) (argv : List (List UInt8)) :
    Option (List UInt8 × Nat × List (List UInt8)) := do
  let (str, p, argv) ← copyToken len i str p 0 argv
  let (str, p) ← skipSpaces len str p
  return (str, p, argv)

private theorem copyToken_advances {len i p j p' : Nat} {str str' : List UInt8} {argv argv' : List (List UInt8)}
    (h : copyToken len i str p j argv = some (str', p', argv')) :
    str' ≠ [] ∧ p' + str'.length = p + str.length ∧
      (p < p' ∨ str' = str ∧ p' = p ∧ (p < len → str.head? = some 32)) := by
  induction str generalizing p j argv with
  | nil => cases h
  | cons c str ih =>
    rw [copyToken] at h
    split at h
    · obtain ⟨argv₁, -, h⟩ := Option.bind_eq_some_iff.mp h
      obtain ⟨hne, hlen, hmove⟩ := ih h
      rw [List.length_cons]
      exact ⟨hne, by omega, .inl (by omega)⟩
    · rename_i hstop
      obtain ⟨rfl, rfl, rfl⟩ := by simpa using h
      refine ⟨List.cons_ne_nil _ _, rfl, .inr ⟨rfl, rfl, fun hp => ?_⟩⟩
      rw [List.head?_cons, Option.some.injEq]
      by_contra hc
      exact hstop ⟨hc, hp⟩

private theorem skipSpaces_advances {len p p' : Nat} {str str' : List UInt8}
    (h : skipSpaces len str p = some (str', p')) :
    str' ≠ [] ∧ p' + str'.length = p + str.length ∧ p ≤ p' ∧ (p < len → str.head? = some 32 → p < p') := by
  induction str generalizing p with
  | nil => cases h
  | cons c str ih =>
    rw [skipSpaces] at h
    split at h
    · obtain ⟨hne, hlen, hmove, -⟩ := ih h
      rw [List.length_cons]
      exact ⟨hne, by omega, by omega, fun _ _ => by omega⟩
    · rename_i hstop
      obtain ⟨rfl, rfl⟩ := by simpa using h
      exact ⟨List.cons_ne_nil _ _, rfl, Nat.le_refl p, fun hp hc => absurd ⟨Option.some.inj hc, hp⟩ hstop⟩

private theorem splitTurn_advances {len i p p' : Nat} {str str' : List UInt8} {argv argv' : List (List UInt8)}
    (h : splitTurn len i str p argv = some (str', p', argv')) :
    str' ≠ [] ∧ p' + str'.length = p + str.length ∧ (p < len → p < p') := by
  obtain ⟨⟨str₁, p₁, argv₁⟩, hcopy, h⟩ := Option.bind_eq_some_iff.mp h
  obtain ⟨⟨str₂, p₂⟩, hskip, h⟩ := Option.bind_eq_some_iff.mp h
  obtain ⟨rfl, rfl, rfl⟩ := by simpa using h
  obtain ⟨-, hlen₁, hmove₁⟩ := copyToken_advances hcopy
  obtain ⟨hne, hlen₂, hmove₂, hspace⟩ := skipSpaces_advances hskip
  refine ⟨hne, by omega, fun hp => ?_⟩
  obtain hmove₁ | ⟨rfl, rfl, hhead⟩ := hmove₁
  · omega
  · exact hspace hp (hhead hp)

def splitLoop (len i : Nat) (str : List UInt8) (p : Nat) (argv : List (List UInt8)) :
    Option (Nat × List (List UInt8)) :=
  if p < len then
    match _h : splitTurn len i str p argv with
    | none => none
    | some (str, p, argv) => splitLoop len (i + 1) str p argv
  else some (i, argv)
termination_by len - p
decreasing_by
  have := (splitTurn_advances _h).2.2
  omega

/-- `str_to_argc_argv`: `*argc`, and the buffers behind it. -/
def strToArgcArgv (str : List UInt8) (len : Nat) (argv : List (List UInt8)) : Option (Nat × List (List UInt8)) := do
  let (str, p) ← skipBlanks str 0
  splitLoop len 0 str p argv

/-- The buffers that `main` allocates. -/
def callocArgv : List (List UInt8) :=
  List.replicate 128 (List.replicate 128 0)

private theorem splitLoop_next {len p : Nat} (hp : p < len) (i : Nat) (str : List UInt8) (argv : List (List UInt8)) :
    splitLoop len i str p argv =
      (splitTurn len i str p argv).bind fun (str, p, argv) => splitLoop len (i + 1) str p argv := by
  rw [splitLoop, if_pos hp]
  split
  · rename_i heq
    rw [heq]
    rfl
  · rename_i heq
    rw [heq]
    rfl

private theorem splitLoop_end {len p : Nat} (hp : len ≤ p) (i : Nat) (str : List UInt8) (argv : List (List UInt8)) :
    splitLoop len i str p argv = some (i, argv) := by
  rw [splitLoop, if_neg (Nat.not_lt.mpr hp)]

/-- The maximal runs of bytes other than a space. -/
def words (d : List UInt8) : List (List UInt8) :=
  (d.splitOn 32).filter (· ≠ [])

/-- With the datagram in this block, the words end up in the buffers, each with a NUL behind it. -/
def Splits (block d : List UInt8) : Prop :=
  ∃ argv, strToArgcArgv block d.length callocArgv = some ((words d).length, argv) ∧
    ∀ (k : Nat) (w : List UInt8), (words d)[k]? = some w → ∃ buf, argv[k]? = some buf ∧ (w ++ [0]) <+: buf

private theorem words_nil : words [] = [] := rfl

private theorem words_space (d : List UInt8) : words (32 :: d) = words d := by
  rw [words, ← List.nil_append (32 :: d), List.splitOn_append_cons_self_of_not_mem List.not_mem_nil,
    List.filter_cons_of_neg (by simp), ← words]

private theorem words_spaces {spaces : List UInt8} (h : ∀ c ∈ spaces, c = 32) (d : List UInt8) :
    words (spaces ++ d) = words d := by
  induction spaces with
  | nil => rfl
  | cons c spaces ih =>
    obtain rfl := h c List.mem_cons_self
    rw [List.cons_append, words_space, ih fun x hx => h x (List.mem_cons_of_mem _ hx)]

private theorem words_token {tok : List UInt8} (htok : ∀ c ∈ tok, c ≠ 32) (hne : tok ≠ []) {d : List UInt8}
    (hd : ∀ c ∈ d.head?, c = 32) : words (tok ++ d) = tok :: words d := by
  have hnot : 32 ∉ tok := fun hmem => htok 32 hmem rfl
  cases d with
  | nil =>
    rw [List.append_nil, words, List.splitOn_eq_singleton hnot, List.filter_cons_of_pos (by simpa using hne)]
    rfl
  | cons c d =>
    obtain rfl := hd c rfl
    rw [words, List.splitOn_append_cons_self_of_not_mem hnot, List.filter_cons_of_pos (by simpa using hne), ← words,
      words_space]

/-- The writes of one word, from the `j`-th byte of its buffer on. -/
def writeFrom (i : Nat) : Nat → List UInt8 → List (List UInt8) → Option (List (List UInt8))
  | _, [], argv => some argv
  | j, c :: tok, argv => (argvWrite argv i j c).bind (writeFrom i (j + 1) tok)

def writeWords : Nat → List (List UInt8) → List (List UInt8) → Option (List (List UInt8))
  | _, [], argv => some argv
  | i, w :: ws, argv => (writeFrom i 0 w argv).bind (writeWords (i + 1) ws)

private theorem writeFrom_eq {i j : Nat} {buf tok : List UInt8} {argv : List (List UInt8)} (hbuf : argv[i]? = some buf)
    (hj : j ≤ buf.length) :
    writeFrom i j tok argv =
      if j + tok.length ≤ buf.length then
        some (argv.set i (buf.take j ++ tok ++ buf.drop (j + tok.length)))
      else none := by
  induction tok generalizing j buf argv with
  | nil =>
    have hself : argv.set i buf = argv := by
      obtain ⟨hi, hget⟩ := List.getElem?_eq_some_iff.mp hbuf
      rw [← hget, List.set_getElem_self]
    simp [writeFrom, hj, hself]
  | cons c tok ih =>
    rw [writeFrom, argvWrite, hbuf, List.length_cons]
    by_cases hfits : j < buf.length
    · have hi := (List.getElem?_eq_some_iff.mp hbuf).1
      have hset : (argv.set i (buf.set j c))[i]? = some (buf.set j c) := by
        rw [List.getElem?_set_self hi]
      have hnext := ih hset (show j + 1 ≤ (buf.set j c).length by rw [List.length_set]; omega)
      simp only [Option.bind_eq_bind, Option.bind_some, if_pos hfits]
      rw [hnext, List.length_set, List.set_set]
      have hsum : j + 1 + tok.length = j + (tok.length + 1) := by omega
      rw [hsum]
      split
      · have htake : (buf.set j c).take (j + 1) = buf.take j ++ [c] := by
          rw [List.take_succ_eq_append_getElem (by rw [List.length_set]; exact hfits),
            List.take_set_of_le (Nat.le_refl j),
            List.getElem_set_self]
        rw [htake, List.drop_set_of_lt (by omega)]
        simp
      · rfl
    · rw [if_neg (by omega)]
      simp [hfits]

/-- A buffer with a word in it, and NULs behind the word. -/
def padded (w : List UInt8) : List UInt8 :=
  w ++ List.replicate (128 - w.length) 0

/-- Into fresh buffers go as many words as there are buffers, none longer than a buffer. -/
private theorem writeWords_fresh (done ws : List (List UInt8)) (free : Nat) (hws : ∀ w ∈ ws, w ≠ []) :
    writeWords done.length ws (done ++ List.replicate free (List.replicate 128 0)) =
      if ws.length ≤ free ∧ ∀ w ∈ ws, w.length ≤ 128 then
        some (done ++ ws.map padded ++ List.replicate (free - ws.length) (List.replicate 128 0))
      else none := by
  induction ws generalizing done free with
  | nil => simp [writeWords]
  | cons w ws ih =>
    obtain ⟨hw, hws⟩ := List.forall_mem_cons.mp hws
    cases free with
    | zero =>
      obtain ⟨c, tok, rfl⟩ := List.exists_cons_of_ne_nil hw
      simp [writeWords, writeFrom, argvWrite]
    | succ free =>
      have hbuf : (done ++ List.replicate (free + 1) (List.replicate 128 (0 : UInt8)))[done.length]? =
          some (List.replicate 128 0) := by
        rw [List.getElem?_append_right (Nat.le_refl _), Nat.sub_self, List.replicate_succ, List.getElem?_cons_zero]
      rw [writeWords, writeFrom_eq hbuf (Nat.zero_le _), List.length_replicate, Nat.zero_add]
      by_cases hlen : w.length ≤ 128
      · have hset : (done ++ List.replicate (free + 1) (List.replicate 128 (0 : UInt8))).set done.length (padded w) =
            (done ++ [padded w]) ++ List.replicate free (List.replicate 128 0) := by
          rw [List.set_append_right _ _ (Nat.le_refl _), Nat.sub_self, List.replicate_succ, List.set_cons_zero,
            List.append_cons]
        have hnext := ih (done ++ [padded w]) free hws
        rw [List.length_append, List.length_singleton] at hnext
        rw [if_pos hlen, List.take_zero, List.nil_append, List.drop_replicate, ← padded, Option.bind_some, hset, hnext]
        simp [hlen, Nat.add_sub_add_right]
      · simp [hlen]

private theorem copyToken_token {len i p j : Nat} {tok more : List UInt8} {c : UInt8} {argv : List (List UInt8)}
    (htok : ∀ x ∈ tok, x ≠ 32) (hlen : p + tok.length ≤ len) (hstop : c = 32 ∨ len ≤ p + tok.length) :
    copyToken len i (tok ++ c :: more) p j argv =
      (writeFrom i j tok argv).map fun argv => (c :: more, p + tok.length, argv) := by
  induction tok generalizing p j argv with
  | nil =>
    have hno : ¬ (c ≠ 32 ∧ p < len) := by
      rintro ⟨hc, hp⟩
      obtain hspace | hend := hstop
      · exact hc hspace
      · exact Nat.not_lt.mpr hend hp
    rw [List.nil_append, copyToken, if_neg hno]
    rfl
  | cons x tok ih =>
    rw [List.length_cons] at hlen hstop
    have hsum : p + 1 + tok.length = p + (tok.length + 1) := by omega
    rw [List.cons_append, copyToken, if_pos ⟨htok x List.mem_cons_self, by omega⟩, writeFrom, List.length_cons]
    cases argvWrite argv i j x with
    | none => rfl
    | some argv =>
      have hrest := @ih (p + 1) (j + 1) argv (fun y hy => htok y (List.mem_cons_of_mem _ hy)) (by omega)
        (hstop.imp_right fun hend => by omega)
      rw [hsum] at hrest
      exact hrest

private theorem skipSpaces_spaces {len p : Nat} {spaces more : List UInt8} {c : UInt8} (hspaces : ∀ x ∈ spaces, x = 32)
    (hlen : p + spaces.length ≤ len) (hstop : c ≠ 32 ∨ len ≤ p + spaces.length) :
    skipSpaces len (spaces ++ c :: more) p = some (c :: more, p + spaces.length) := by
  induction spaces generalizing p with
  | nil =>
    have hno : ¬ (c = 32 ∧ p < len) := by
      rintro ⟨hc, hp⟩
      obtain hspace | hend := hstop
      · exact hspace hc
      · exact Nat.not_lt.mpr hend hp
    rw [List.nil_append, skipSpaces, if_neg hno]
    rfl
  | cons x spaces ih =>
    rw [List.length_cons] at hlen hstop
    have hsum : p + 1 + spaces.length = p + (spaces.length + 1) := by omega
    rw [List.cons_append, skipSpaces, if_pos ⟨hspaces x List.mem_cons_self, by omega⟩, List.length_cons, ← hsum]
    exact ih (fun y hy => hspaces y (List.mem_cons_of_mem _ hy)) (by omega) (hstop.imp_right fun hend => by omega)

private theorem skipBlanks_spaces {p : Nat} {spaces more : List UInt8} {c : UInt8} (hspaces : ∀ x ∈ spaces, x = 32)
    (hc : c ≠ 32) : skipBlanks (spaces ++ c :: more) p = some (c :: more, p + spaces.length) := by
  induction spaces generalizing p with
  | nil =>
    rw [List.nil_append, skipBlanks, if_neg hc]
    rfl
  | cons x spaces ih =>
    have hsum : p + 1 + spaces.length = p + (spaces.length + 1) := by omega
    rw [List.cons_append, skipBlanks, if_pos (hspaces x List.mem_cons_self), List.length_cons, ← hsum]
    exact ih fun y hy => hspaces y (List.mem_cons_of_mem _ hy)

/-- A text is a run of one kind of bytes, and a text that does not begin with one. -/
private theorem exists_span (P : UInt8 → Prop) [DecidablePred P] (d : List UInt8) :
    ∃ front back, d = front ++ back ∧ (∀ x ∈ front, P x) ∧ ∀ x ∈ back.head?, ¬ P x := by
  refine ⟨d.takeWhile P, d.dropWhile P, (List.takeWhile_append_dropWhile ..).symm, fun x hx => ?_, fun x hx => ?_⟩
  · simpa using List.mem_takeWhile_imp hx
  · have := List.head?_dropWhile_not (fun x => decide (P x)) d
    rw [Option.mem_def.mp hx] at this
    simpa using this

/-- The byte behind a piece of text is the first of what is left, or the one behind it all. -/
private theorem exists_next {P : UInt8 → Prop} {d : List UInt8} (h : ∀ x ∈ d.head?, P x) (c : UInt8)
    (more : List UInt8) :
    ∃ c' more', d ++ c :: more = c' :: more' ∧ (P c' ∨ d = []) := by
  cases d with
  | nil => exact ⟨c, more, rfl, .inr rfl⟩
  | cons x d => exact ⟨x, d ++ c :: more, rfl, .inl (h x rfl)⟩

private theorem splitTurn_word {len p : Nat} {tok spaces d : List UInt8}
    (htok : ∀ x ∈ tok, x ≠ 32) (hspaces : ∀ x ∈ spaces, x = 32) (hbehind : ∀ x ∈ (spaces ++ d).head?, x = 32)
    (hd : ∀ x ∈ d.head?, x ≠ 32) (hlen : p + (tok ++ (spaces ++ d)).length = len) (i : Nat) (c : UInt8)
    (more : List UInt8) (argv : List (List UInt8)) :
    splitTurn len i (tok ++ (spaces ++ d) ++ c :: more) p argv =
      (writeFrom i 0 tok argv).map fun argv => (d ++ c :: more, p + tok.length + spaces.length, argv) := by
  rw [List.length_append, List.length_append] at hlen
  obtain ⟨c₁, more₁, hnext₁, hstop₁⟩ := exists_next hbehind c more
  have hend₁ : c₁ = 32 ∨ len ≤ p + tok.length := by
    refine hstop₁.imp_right fun hnil => ?_
    obtain ⟨rfl, rfl⟩ := List.append_eq_nil_iff.mp hnil
    exact hlen.ge
  obtain ⟨c₂, more₂, hnext₂, hstop₂⟩ := exists_next hd c more
  have hend₂ : c₂ ≠ 32 ∨ len ≤ p + tok.length + spaces.length := by
    refine hstop₂.imp_right fun hnil => ?_
    subst hnil
    rw [List.length_nil] at hlen
    omega
  have hcopy := @copyToken_token len i p 0 tok more₁ c₁ argv htok (by omega) hend₁
  have hskip := @skipSpaces_spaces len (p + tok.length) spaces more₂ c₂ hspaces (by omega) hend₂
  rw [← hnext₂, ← List.append_assoc, hnext₁] at hskip
  rw [List.append_assoc, hnext₁, splitTurn, hcopy]
  cases writeFrom i 0 tok argv with
  | none => rfl
  | some argv =>
    simp only [Option.map_some, Option.bind_eq_bind, Option.bind_some, hskip]
    rfl

private theorem splitLoop_words (d more : List UInt8) (c : UInt8) {len i p : Nat} {argv : List (List UInt8)}
    (hlen : p + d.length = len) (hd : ∀ x ∈ d.head?, x ≠ 32) :
    splitLoop len i (d ++ c :: more) p argv =
      (writeWords i (words d) argv).map fun argv => (i + (words d).length, argv) := by
  induction hn : d.length using Nat.strongRecOn generalizing d i p argv with
  | _ n ih =>
    obtain ⟨tok, after, rfl, htok, hafter⟩ := exists_span (· ≠ 32) d
    obtain ⟨spaces, d', rfl, hspaces, hd'⟩ := exists_span (· = 32) after
    have hbehind : ∀ x ∈ (spaces ++ d').head?, x = 32 := fun x hx => not_not.mp (hafter x hx)
    cases tok with
    | nil =>
      -- no word is left: what is left does not begin with a space, so that it is empty
      have hempty : spaces ++ d' = [] := by
        rw [← List.head?_eq_none_iff, Option.eq_none_iff_forall_not_mem]
        exact fun x hx => hd x hx (hbehind x hx)
      rw [List.nil_append, hempty] at hlen ⊢
      rw [List.length_nil, Nat.add_zero] at hlen
      rw [splitLoop_end hlen.ge, words_nil]
      rfl
    | cons x tok =>
      have hsplit := splitTurn_word htok hspaces hbehind hd' hlen i c more argv
      rw [words_token htok (List.cons_ne_nil x tok) hbehind, words_spaces hspaces, writeWords,
        splitLoop_next (by rw [← hlen, List.length_append, List.length_cons]; omega), hsplit]
      cases writeFrom i 0 (x :: tok) argv with
      | none => rfl
      | some argv =>
        have hshort : d'.length < n := by
          rw [← hn, List.length_append, List.length_append, List.length_cons]
          omega
        have hrest := @ih d'.length hshort d' (i + 1) (p + (x :: tok).length + spaces.length) argv
          (by rw [← hlen, List.length_append, List.length_append]; omega) hd' rfl
        have hsum : i + 1 + (words d').length = i + ((words d').length + 1) := by omega
        rw [hsum] at hrest
        exact hrest

/-- Behind a datagram with a byte after it that is no space, the words are written. -/
private theorem strToArgcArgv_words (d more : List UInt8) {c : UInt8} (hc : c ≠ 32) (argv : List (List UInt8)) :
    strToArgcArgv (d ++ c :: more) d.length argv =
      (writeWords 0 (words d) argv).map fun argv => ((words d).length, argv) := by
  obtain ⟨spaces, d', rfl, hspaces, hd'⟩ := exists_span (· = 32) d
  obtain ⟨c₁, more₁, hnext, hstop⟩ := exists_next hd' c more
  have hword : c₁ ≠ 32 := by
    obtain hword | rfl := hstop
    · exact hword
    · exact (List.cons.inj hnext).1 ▸ hc
  have hskip := @skipBlanks_spaces 0 spaces more₁ c₁ hspaces hword
  rw [← hnext, ← List.append_assoc, Nat.zero_add] at hskip
  rw [strToArgcArgv, hskip, words_spaces hspaces]
  have hloop := @splitLoop_words d' more c (spaces ++ d').length 0 spaces.length argv
    (by rw [List.length_append]) hd'
  rw [Nat.zero_add] at hloop
  exact hloop

private theorem splitLoop_outside {len i p : Nat} {str : List UInt8} {argv : List (List UInt8)} (hne : str ≠ [])
    (hlen : p + str.length = len) : splitLoop len i str p argv = none := by
  induction hn : str.length using Nat.strongRecOn generalizing str i p argv with
  | _ n ih =>
    have hpos := List.length_pos_iff.mpr hne
    rw [splitLoop_next (by omega)]
    cases hturn : splitTurn len i str p argv with
    | none => rfl
    | some result =>
      obtain ⟨str', p', argv'⟩ := result
      obtain ⟨hne', hlen', hmove⟩ := splitTurn_advances hturn
      have hmove := hmove (by omega)
      exact ih str'.length (by omega) hne' (by omega) rfl

private theorem skipBlanks_advances {p p' : Nat} {str str' : List UInt8} (h : skipBlanks str p = some (str', p')) :
    str' ≠ [] ∧ p' + str'.length = p + str.length := by
  induction str generalizing p with
  | nil => cases h
  | cons c str ih =>
    rw [skipBlanks] at h
    split at h
    · obtain ⟨hne, hlen⟩ := ih h
      rw [List.length_cons]
      exact ⟨hne, by omega⟩
    · obtain ⟨rfl, rfl⟩ := by simpa using h
      exact ⟨List.cons_ne_nil _ _, rfl⟩

private theorem strToArgcArgv_outside (d : List UInt8) (argv : List (List UInt8)) :
    strToArgcArgv d d.length argv = none := by
  rw [strToArgcArgv]
  cases hskip : skipBlanks d 0 with
  | none => rfl
  | some result =>
    obtain ⟨hne, hlen⟩ := skipBlanks_advances hskip
    exact splitLoop_outside hne (by omega)

private theorem words_ne_nil {d w : List UInt8} (h : w ∈ words d) : w ≠ [] := by
  simpa using (List.mem_filter.mp h).2

private theorem map_padded_get {ws rest : List (List UInt8)} {k : Nat} {w : List UInt8} (h : ws[k]? = some w) :
    (ws.map padded ++ rest)[k]? = some (padded w) := by
  have hin : k < (ws.map padded).length := by
    rw [List.length_map]
    exact (List.getElem?_eq_some_iff.mp h).1
  rw [List.getElem?_append_left hin, List.getElem?_map, h, Option.map_some]

private theorem nul_behind_iff (w : List UInt8) : (w ++ [0]) <+: padded w ↔ w.length ≤ 127 := by
  rw [padded, List.prefix_append_right_inj]
  cases hm : 128 - w.length with
  | zero => simp; omega
  | succ m => simp [List.replicate_succ]; omega

/-- In a block that holds more than the datagram, what counts is whether the words fit. -/
private theorem splits_iff_fits (d more : List UInt8) {c : UInt8} (hc : c ≠ 32) :
    Splits (d ++ c :: more) d ↔ (words d).length ≤ 128 ∧ ∀ w ∈ words d, w.length ≤ 127 := by
  have hwrite := writeWords_fresh [] (words d) 128 fun w hw => words_ne_nil hw
  rw [List.nil_append, List.nil_append, List.length_nil] at hwrite
  rw [Splits, strToArgcArgv_words d more hc, callocArgv, hwrite]
  constructor
  · rintro ⟨argv, hargv, hwords⟩
    obtain ⟨argv', hargv', heq⟩ := Option.map_eq_some_iff.mp hargv
    obtain ⟨-, rfl⟩ := Prod.mk.inj heq
    rw [Option.ite_none_right_eq_some] at hargv'
    obtain ⟨⟨hcount, -⟩, hargv'⟩ := hargv'
    refine ⟨hcount, fun w hw => ?_⟩
    obtain ⟨k, hk⟩ := List.getElem?_of_mem hw
    obtain ⟨buf, hbuf, hprefix⟩ := hwords k w hk
    rw [← Option.some.inj hargv', map_padded_get hk] at hbuf
    rw [← Option.some.inj hbuf] at hprefix
    exact (nul_behind_iff w).mp hprefix
  · rintro ⟨hcount, hlong⟩
    have hfits : (words d).length ≤ 128 ∧ ∀ w ∈ words d, w.length ≤ 128 :=
      ⟨hcount, fun w hw => Nat.le_succ_of_le (hlong w hw)⟩
    refine ⟨_, by rw [if_pos hfits, Option.map_some], fun k w hk => ⟨padded w, map_padded_get hk, ?_⟩⟩
    exact (nul_behind_iff w).mpr (hlong w (List.mem_of_getElem? hk))

/-- Every datagram makes `str_to_argc_argv` read the byte behind it. In the zeroed buffer of `main` that byte
is there for all but the longest, and then the words come out exactly when they fit. -/
theorem splits_iff (d : List UInt8) (h : d.length ≤ 1024) :
    ¬ Splits d d ∧ (Splits (d ++ List.replicate (1024 - d.length) 0) d ↔
      d.length ≤ 1023 ∧ (words d).length ≤ 128 ∧ ∀ w ∈ words d, w.length ≤ 127) := by
  have hnever : ¬ Splits d d := by
    rintro ⟨argv, hargv, -⟩
    rw [strToArgcArgv_outside] at hargv
    cases hargv
  refine ⟨hnever, ?_⟩
  by_cases hlong : d.length ≤ 1023
  · obtain ⟨m, hm⟩ : ∃ m, 1024 - d.length = m + 1 := ⟨1023 - d.length, by omega⟩
    rw [hm, List.replicate_succ, splits_iff_fits d _ (by decide)]
    exact ⟨fun hfits => ⟨hlong, hfits⟩, fun ⟨_, hfits⟩ => hfits⟩
  · have hfull : 1024 - d.length = 0 := by omega
    rw [hfull, List.replicate_zero, List.append_nil]
    exact ⟨fun hsplits => absurd hsplits hnever, fun ⟨hshort, _⟩ => absurd hshort hlong⟩

theorem splits_two : Splits ([115, 101, 116, 32, 120] ++ List.replicate 1019 0) [115, 101, 116, 32, 120] :=
  (splits_iff [115, 101, 116, 32, 120] (by decide)).2.mpr (by decide)

/-- Of a datagram of three bytes, `get`, the fourth is read. -/
theorem get_overread : ¬ ∀ d : List UInt8, d.length ≤ 1024 → Splits d d := by
  intro h
  obtain ⟨argv, hargv, -⟩ := h [103, 101, 116] (by decide)
  rw [strToArgcArgv_outside] at hargv
  cases hargv

end TinyosGraphics.Sensor
