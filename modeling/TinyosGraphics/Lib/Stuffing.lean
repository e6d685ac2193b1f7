import Mathlib.Data.List.Basic

/-! Frames between flags, with an escape symbol in front of what would be taken for a flag: the encoder, a
receiver with a bound on the content, and how the receiver finds its way back after damage. -/
namespace TinyosGraphics.Lib

variable {α : Type*}

/-- The two reserved symbols, and what becomes of a symbol behind an escape. -/
structure Stuffing (α : Type*) where
  flag : α
  esc : α
  flip : α → α
  flip_flip : ∀ b, flip (flip b) = b
  esc_ne_flag : esc ≠ flag
  flip_flag : flip flag ≠ flag
  flip_esc : flip esc ≠ flag

namespace Stuffing

/-- What the receiver knows of the frame that it is in. -/
structure Receiver (α : Type*) where
  inSync : Bool
  escaped : Bool
  content : List α
  deriving DecidableEq

/-- What the receiver reports. -/
inductive Event (α : Type*)
  | sync
  | tooLong
  | badSync
  | frame (content : List α)
  deriving DecidableEq

namespace Receiver

def lost : Receiver α := ⟨false, false, []⟩

/-- Behind a flag. -/
def ready : Receiver α := ⟨true, false, []⟩

/-- Nothing of a frame is held back: the next flag opens one. -/
def Settled (r : Receiver α) : Prop :=
  r.inSync = false ∨ r = ready

end Receiver

def contents : List (Event α) → List (List α)
  | [] => []
  | .frame c :: es => c :: contents es
  | _ :: es => contents es

@[simp] theorem contents_nil : contents ([] : List (Event α)) = [] := rfl

@[simp] theorem contents_append (es es' : List (Event α)) : contents (es ++ es') = contents es ++ contents es' := by
  induction es with
  | nil => rfl
  | cons e es ih => cases e <;> simp [contents, ih]

variable [DecidableEq α] (C : Stuffing α) (mtu : Nat)

def stuffOne (b : α) : List α :=
  if b = C.flag ∨ b = C.esc then [C.esc, C.flip b] else [b]

def stuff (bs : List α) : List α :=
  bs.flatMap C.stuffOne

def frame (bs : List α) : List α :=
  C.flag :: (C.stuff bs ++ [C.flag])

/-- One symbol arrives. A full receiver gives up on whatever comes next, a flag included. -/
def feed (r : Receiver α) (b : α) : Receiver α × List (Event α) :=
  if r.inSync = false then
    if b = C.flag then (.ready, [.sync]) else (r, [])
  else if mtu ≤ r.content.length then ({ r with inSync := false }, [.tooLong])
  else if r.escaped then
    if b = C.flag then ({ r with inSync := false }, [.badSync])
    else ({ r with escaped := false, content := r.content ++ [C.flip b] }, [])
  else if b = C.esc then ({ r with escaped := true }, [])
  else if b = C.flag then (.ready, [.frame r.content])
  else ({ r with content := r.content ++ [b] }, [])

def feedAll (r : Receiver α) : List α → Receiver α × List (Event α)
  | [] => (r, [])
  | b :: bs =>
    let fed := C.feed mtu r b
    let rest := feedAll fed.1 bs
    (rest.1, fed.2 ++ rest.2)

variable {C mtu} {r : Receiver α}

theorem stuff_cons (b : α) (bs : List α) : C.stuff (b :: bs) = C.stuffOne b ++ C.stuff bs := rfl

theorem flag_not_mem_stuff (bs : List α) : C.flag ∉ C.stuff bs := by
  intro h
  obtain ⟨b, -, hb⟩ := List.mem_flatMap.mp h
  rw [stuffOne] at hb
  split at hb
  · rename_i hreserved
    simp only [List.mem_cons, List.not_mem_nil, or_false] at hb
    obtain hb | hb := hb
    · exact C.esc_ne_flag hb.symm
    · obtain rfl | rfl := hreserved
      · exact C.flip_flag hb.symm
      · exact C.flip_esc hb.symm
  · rename_i hplain
    exact hplain (.inl (List.mem_singleton.mp hb).symm)

theorem feedAll_append (r : Receiver α) (bs bs' : List α) :
    C.feedAll mtu r (bs ++ bs') =
      ((C.feedAll mtu (C.feedAll mtu r bs).1 bs').1,
        (C.feedAll mtu r bs).2 ++ (C.feedAll mtu (C.feedAll mtu r bs).1 bs').2) := by
  induction bs generalizing r with
  | nil => rfl
  | cons b bs ih => simp [feedAll, ih]

theorem feedAll_singleton (r : Receiver α) (b : α) : C.feedAll mtu r [b] = C.feed mtu r b := by
  simp [feedAll]

theorem feedAll_stuffOne {c : List α} (b : α) (hroom : c.length < mtu) :
    C.feedAll mtu ⟨true, false, c⟩ (C.stuffOne b) = (⟨true, false, c ++ [b]⟩, []) := by
  have hroom' : ¬ mtu ≤ c.length := Nat.not_le.mpr hroom
  rw [stuffOne]
  split
  · rename_i hreserved
    have hflip : C.flip b ≠ C.flag := by
      obtain rfl | rfl := hreserved
      · exact C.flip_flag
      · exact C.flip_esc
    simp [feedAll, feed, hroom', hflip, C.flip_flip]
  · rename_i hplain
    obtain ⟨hflag, hesc⟩ := not_or.mp hplain
    simp [feedAll, feed, hroom', hflag, hesc]

theorem feedAll_stuff {c : List α} (bs : List α) (hroom : c.length + bs.length ≤ mtu) :
    C.feedAll mtu ⟨true, false, c⟩ (C.stuff bs) = (⟨true, false, c ++ bs⟩, []) := by
  induction bs generalizing c with
  | nil => simp [stuff, feedAll]
  | cons b bs ih =>
    rw [List.length_cons] at hroom
    have hrest := @ih (c ++ [b]) (by simp; omega)
    rw [stuff_cons, feedAll_append, feedAll_stuffOne b (by omega), hrest]
    simp

/-- The content that leaves room for one more symbol is the longest that arrives. -/
theorem feedAll_body {bs : List α} (hroom : bs.length < mtu) :
    C.feedAll mtu .ready (C.stuff bs ++ [C.flag]) = (.ready, [.frame bs]) := by
  have hbody : C.feedAll mtu .ready (C.stuff bs) = (⟨true, false, bs⟩, []) :=
    feedAll_stuff (c := []) bs (by simp; omega)
  have hesc : C.flag ≠ C.esc := C.esc_ne_flag.symm
  rw [feedAll_append, hbody]
  simp [feedAll, feed, hesc, Nat.not_le.mpr hroom]

theorem feed_flag_settled (r : Receiver α) : (C.feed mtu r C.flag).1.Settled := by
  have hesc : C.flag ≠ C.esc := C.esc_ne_flag.symm
  rw [feed, if_neg hesc]
  split
  · exact .inr (by simp)
  · split
    · exact .inl rfl
    · split
      · exact .inl (by simp)
      · exact .inr (by simp)

theorem settled_of_flag (r : Receiver α) (bs : List α) : (C.feedAll mtu r (bs ++ [C.flag])).1.Settled := by
  rw [feedAll_append, feedAll_singleton]
  exact feed_flag_settled _

theorem settled_of_frame (r : Receiver α) (bs : List α) : (C.feedAll mtu r (C.frame bs)).1.Settled :=
  settled_of_flag r (C.flag :: C.stuff bs)

/-- The opening flag of a frame. Behind the closing flag of another frame it ends an empty one. -/
theorem feed_flag_of_settled (hmtu : 0 < mtu) (hr : r.Settled) :
    (C.feed mtu r C.flag).1 = .ready ∧
      ((C.feed mtu r C.flag).2 = [.sync] ∨ (C.feed mtu r C.flag).2 = [.frame []]) := by
  have hesc : C.flag ≠ C.esc := C.esc_ne_flag.symm
  obtain hr | rfl := hr
  · simp [feed, hr]
  · simp [feed, Receiver.ready, hesc, Nat.ne_of_gt hmtu]

/-- A frame that starts where nothing is held back arrives. -/
theorem feedAll_frame {bs : List α} (hr : r.Settled) (hroom : bs.length < mtu) :
    (C.feedAll mtu r (C.frame bs)).1 = .ready ∧
      (contents (C.feedAll mtu r (C.frame bs)).2).filter (· ≠ []) = [bs].filter (· ≠ []) := by
  have hmtu : 0 < mtu := by omega
  obtain ⟨hready, hopen⟩ := C.feed_flag_of_settled hmtu hr
  rw [frame, feedAll]
  rw [hready, feedAll_body hroom]
  refine ⟨rfl, ?_⟩
  obtain hopen | hopen := hopen <;> simp [hopen, contents]

/-- Outside a frame only a flag is noticed. -/
theorem feedAll_lost {bs : List α} (hr : r.inSync = false) (hbs : C.flag ∉ bs) : C.feedAll mtu r bs = (r, []) := by
  induction bs with
  | nil => rfl
  | cons b bs ih =>
    obtain ⟨hb, hbs⟩ := not_or.mp (List.mem_cons.not.mp hbs)
    simp [feedAll, feed, hr, Ne.symm hb, ih hbs]

theorem contents_full {bs : List α} (hin : r.inSync = true) (hfull : mtu ≤ r.content.length) (hbs : C.flag ∉ bs) :
    contents (C.feedAll mtu r (bs ++ [C.flag])).2 = [] := by
  cases bs with
  | nil => simp [feedAll, feed, hin, hfull, contents]
  | cons b bs =>
    have hfirst : C.feed mtu r b = ({ r with inSync := false }, [.tooLong]) := by
      simp [feed, hin, hfull]
    have hrest : C.feedAll mtu { r with inSync := false } bs = ({ r with inSync := false }, []) :=
      feedAll_lost rfl fun hmem => hbs (List.mem_cons_of_mem _ hmem)
    rw [List.cons_append, feedAll, hfirst, feedAll_append, hrest]
    simp [feedAll, feed, contents]

theorem stuff_append (bs bs' : List α) : C.stuff (bs ++ bs') = C.stuff bs ++ C.stuff bs' := by
  simp [stuff]

theorem feedAll_long {bs : List α} (hmtu : 0 < mtu) (hr : r.Settled) (hlong : mtu ≤ bs.length) :
    (contents (C.feedAll mtu r (C.frame bs)).2).filter (· ≠ []) = [] := by
  obtain ⟨hready, hopen⟩ := C.feed_flag_of_settled hmtu hr
  have hfill : C.feedAll mtu .ready (C.stuff (bs.take mtu)) = (⟨true, false, bs.take mtu⟩, []) :=
    feedAll_stuff (c := []) (bs.take mtu) (by simp [Nat.min_le_left])
  have hfull : contents (C.feedAll mtu ⟨true, false, bs.take mtu⟩ (C.stuff (bs.drop mtu) ++ [C.flag])).2 = [] :=
    contents_full rfl (by simp [hlong]) (flag_not_mem_stuff _)
  have hbody : contents (C.feedAll mtu .ready (C.stuff bs ++ [C.flag])).2 = [] := by
    rw [← List.take_append_drop mtu bs, stuff_append, List.append_assoc, feedAll_append, hfill]
    exact hfull
  rw [frame, feedAll]
  simp only [hready, contents_append, hbody]
  obtain hopen | hopen := hopen <;> simp [hopen, contents]

/-- What a receiver with room for `mtu` symbols makes of a sequence of contents. -/
def fitting (mtu : Nat) (fs : List (List α)) : List (List α) :=
  fs.filter fun f => f ≠ [] ∧ f.length < mtu

/-- From where nothing is held back, exactly the frames that fit arrive. -/
theorem feedAll_frames (hmtu : 0 < mtu) (hr : r.Settled) (fs : List (List α)) :
    (C.feedAll mtu r (fs.flatMap C.frame)).1.Settled ∧
      (contents (C.feedAll mtu r (fs.flatMap C.frame)).2).filter (· ≠ []) = fitting mtu fs := by
  induction fs generalizing r with
  | nil => exact ⟨hr, rfl⟩
  | cons f fs ih =>
    obtain ⟨hsettled, hcontents⟩ := ih (settled_of_frame r f)
    have hfirst : (contents (C.feedAll mtu r (C.frame f)).2).filter (· ≠ []) =
        if f.length < mtu then [f].filter (· ≠ []) else [] := by
      split
      · exact (feedAll_frame hr ‹_›).2
      · exact feedAll_long hmtu hr (Nat.le_of_not_lt ‹_›)
    rw [List.flatMap_cons, feedAll_append]
    refine ⟨hsettled, ?_⟩
    rw [contents_append, List.filter_append, hcontents, hfirst, fitting, fitting, List.filter_cons]
    by_cases hroom : f.length < mtu <;> by_cases hne : f = [] <;> simp [hroom, hne]

/-- What a receiver takes the symbols between two flags for. It accepts more than `stuff` produces: any symbol may stand
behind an escape. -/
inductive Unstuffs (C : Stuffing α) : List α → List α → Prop
  | nil : Unstuffs C [] []
  | plain {w c b} : Unstuffs C w c → b ≠ C.flag → b ≠ C.esc → Unstuffs C (w ++ [b]) (c ++ [b])
  | escaped {w c b} : Unstuffs C w c → b ≠ C.flag → Unstuffs C (w ++ [C.esc, b]) (c ++ [C.flip b])

def Receiver.Open (C : Stuffing α) (line : List α) (r : Receiver α) : Prop :=
  r.inSync = true → ∃ front w, line = front ++ C.flag :: (w ++ if r.escaped then [C.esc] else []) ∧
    Unstuffs C w r.content

def OnLine (C : Stuffing α) (line c : List α) : Prop :=
  ∃ front w back, line = front ++ C.flag :: (w ++ C.flag :: back) ∧ Unstuffs C w c

omit [DecidableEq α] in
theorem OnLine.append {line c : List α} (h : OnLine C line c) (rest : List α) : OnLine C (line ++ rest) c := by
  obtain ⟨front, w, back, rfl, hw⟩ := h
  exact ⟨front, w, back ++ rest, by simp, hw⟩

theorem feed_open {line : List α} (hr : r.Open C line) (b : α) :
    (C.feed mtu r b).1.Open C (line ++ [b]) ∧
      ∀ c ∈ contents (C.feed mtu r b).2, OnLine C (line ++ [b]) c := by
  unfold feed
  split
  case isTrue hout =>
    split
    case isTrue hb =>
      subst hb
      exact ⟨fun _ => ⟨line, [], by simp [Receiver.ready], .nil⟩, by simp [contents]⟩
    case isFalse => exact ⟨fun h => absurd h (by simp [hout]), by simp⟩
  case isFalse hin =>
    obtain ⟨front, w, hline, hw⟩ := hr (by simpa using hin)
    split
    case isTrue => exact ⟨fun h => (by cases h), by simp [contents]⟩
    case isFalse =>
      split
      case isTrue hescaped =>
        split
        case isTrue => exact ⟨fun h => (by cases h), by simp [contents]⟩
        case isFalse hb =>
          refine ⟨fun _ => ⟨front, w ++ [C.esc, b], ?_, hw.escaped hb⟩, by simp⟩
          simp [hline, hescaped]
      case isFalse hescaped =>
        have hline : line = front ++ C.flag :: w := by simpa [hescaped] using hline
        split
        case isTrue hb =>
          subst hb
          exact ⟨fun _ => ⟨front, w, by simp [hline], hw⟩, by simp⟩
        case isFalse hesc =>
          split
          case isTrue hb =>
            subst hb
            refine ⟨fun _ => ⟨front ++ C.flag :: w, [], by simp [hline, Receiver.ready], .nil⟩, ?_⟩
            rintro c hc
            obtain rfl : c = r.content := by simpa [contents] using hc
            exact ⟨front, w, [], by simp [hline], hw⟩
          case isFalse hflag =>
            refine ⟨fun _ => ⟨front, w ++ [b], ?_, hw.plain hflag hesc⟩, by simp⟩
            simp [hline, hescaped]

/-- Every frame that a receiver reports lay between two flags. -/
theorem feedAll_open {line : List α} (hr : r.Open C line) (bs : List α) :
    (C.feedAll mtu r bs).1.Open C (line ++ bs) ∧
      ∀ c ∈ contents (C.feedAll mtu r bs).2, OnLine C (line ++ bs) c := by
  induction bs generalizing r line with
  | nil => simpa [feedAll] using hr
  | cons b bs ih =>
    obtain ⟨hfed, hframes⟩ : (C.feed mtu r b).1.Open C (line ++ [b]) ∧
      ∀ c ∈ contents (C.feed mtu r b).2, OnLine C (line ++ [b]) c := feed_open hr b
    obtain ⟨hopen, hrest⟩ := ih hfed
    rw [List.append_assoc] at hopen hrest
    refine ⟨hopen, fun c hc => ?_⟩
    obtain hc | hc := List.mem_append.mp (by simpa [feedAll] using hc)
    · simpa using (hframes c hc).append bs
    · exact hrest c hc

end Stuffing
end TinyosGraphics.Lib
