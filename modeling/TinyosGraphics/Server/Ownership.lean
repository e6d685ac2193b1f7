import TinyosGraphics.Event.BatchWalk
import TinyosGraphics.Server.Hold

/-! What the holder of a descriptor or a connection knows about the world, and that a call made by the
rules keeps this knowledge and touches nothing else. -/
namespace TinyosGraphics.Server
open Lib Event Core

/-- A connection in memory, closed `n` times. -/
structure HasConn (w : World) (c : ConnId) (d : Conn) (n : Nat) : Prop where
  conn : w.conns c = some d
  closes : w.closes c = n

structure HasDesc (w : World) (f : Int) (owner : Option ConnId) (entry : Option (Schedule Handler ConnId))
    (armed : Bool) : Prop where
  pos : 0 < f
  socket : w.sockets f = .open owner
  entry : w.te.lookup f = entry
  armed : (w.interest f).isSome = armed

/-- What is so as long as the thing is held. -/
def Sees (w : World) : Hold → Prop
  | .nothing => True
  | .fd f a => HasDesc w f none none a
  | .fresh c d =>
    HasConn w c d 0 ∧ Sized d ∧ d.travelling = false ∧ HasDesc w d.fd (some c) none true
  | .held c d a =>
    HasConn w c d 0 ∧ Sized d ∧ w.te.InRange d.fd ∧
      ∃ h, h ≠ .tgxAcceptionHandler ∧ HasDesc w d.fd (some c) (some ⟨d.fd, some h, some c⟩) a
  | .lulled c d =>
    HasConn w c d 0 ∧ Sized d ∧ w.te.InRange d.fd ∧
      HasDesc w d.fd (some c) (some ⟨d.fd, some .tgxConnectionHandlerNoOperation, some c⟩) true
  | .closing c d isOpen a =>
    HasConn w c d 1 ∧ 0 < d.fd ∧ (isOpen = true → HasDesc w d.fd (some c) none a)
  | .freed c => w.conns c = none ∧ w.closes c = 1

/-- What is so in every world. -/
structure Sane (w : World) : Prop where
  started : w.te.Started
  wellFormed : w.te.WellFormed
  closed : ∀ f, w.sockets f = .closed → w.te.lookup f = none ∧ w.interest f = none
  zero : w.sockets 0 ≠ .closed
  unborn : ∀ c, w.nextConn ≤ c → w.conns c = none ∧ w.closes c = 0
  closes : ∀ c, w.closes c ≤ 1

/-- What a thread with `h` in its hands may do to the world. -/
structure Touches (w w' : World) (h : Hold) : Prop where
  conns : ∀ c, h.conn ≠ some c → c < w.nextConn → w'.conns c = w.conns c ∧ w'.closes c = w.closes c
  lookup : ∀ f, h.desc ≠ some f → w'.te.lookup f = w.te.lookup f ∧ w'.interest f = w.interest f
  sockets : ∀ f, h.desc ≠ some f → w.sockets f ≠ .closed → w'.sockets f = w.sockets f
  maxfds : w'.te.maxfds = w.te.maxfds
  first : w'.te.first = w.te.first
  nextConn : w.nextConn ≤ w'.nextConn

/-- The connection held, where it has an entry in the schedule table. -/
def Hold.registered : Hold → Option ConnId
  | .held c _ _ | .lulled c _ => some c
  | _ => none

/-- The connection that an open descriptor has been given to. -/
def Hold.owner : Hold → Option ConnId
  | .fd _ _ => none
  | h => h.conn

theorem desc_cases {h : Hold} {f : Int} (hf : h.desc = some f) :
    (∃ a, h = .fd f a) ∨ ∃ c, h.conn = some c ∧ h.owner = some c := by
  cases h with
  | nothing => cases hf
  | fd f' a =>
    obtain rfl := Option.some.inj hf
    exact .inl ⟨a, rfl⟩
  | freed c => cases hf
  | _ => exact .inr ⟨_, rfl, rfl⟩

section
variable {w w' : World} {h h' : Hold} {c : ConnId} {d : Conn} {f : Int} {n : Nat} {owner : Option ConnId}
  {entry : Option (Schedule Handler ConnId)} {a : Bool}

theorem HasConn.born (hc : HasConn w c d n) (hw : Sane w) : c < w.nextConn := by
  by_contra hle
  have hnone := (hw.unborn c (not_lt.mp hle)).1
  rw [hc.conn] at hnone
  cases hnone

theorem HasConn.frame (hc : HasConn w c d n) (hw : Sane w) (ht : Touches w w' h) (hne : h.conn ≠ some c) :
    HasConn w' c d n := by
  obtain ⟨hconn, hcloses⟩ := ht.conns c hne (hc.born hw)
  exact ⟨hconn.trans hc.conn, hcloses.trans hc.closes⟩

theorem HasDesc.frame (hf : HasDesc w f owner entry a) (ht : Touches w w' h) (hne : h.desc ≠ some f) :
    HasDesc w' f owner entry a := by
  obtain ⟨hlookup, hinterest⟩ := ht.lookup f hne
  have hopen : w.sockets f ≠ .closed := by
    rw [hf.socket]
    nofun
  refine ⟨hf.pos, (ht.sockets f hne hopen).trans hf.socket, hlookup.trans hf.entry, ?_⟩
  rw [hinterest]
  exact hf.armed

theorem Sees.frame (hs : Sees w h') (hw : Sane w) (ht : Touches w w' h)
    (hconn : ∀ c, h'.conn = some c → h.conn ≠ some c) (hdesc : ∀ f, h'.desc = some f → h.desc ≠ some f) :
    Sees w' h' := by
  cases h' with
  | nothing => trivial
  | fd f a => exact HasDesc.frame hs ht (hdesc f rfl)
  | fresh c d =>
    obtain ⟨hc, hsized, htravelling, hf⟩ := hs
    exact ⟨hc.frame hw ht (hconn c rfl), hsized, htravelling, hf.frame ht (hdesc _ rfl)⟩
  | held c d a =>
    obtain ⟨hc, hsized, hrange, hh, hne, hf⟩ := hs
    refine ⟨hc.frame hw ht (hconn c rfl), hsized, ?_, hh, hne, hf.frame ht (hdesc _ rfl)⟩
    simpa only [TgxEvent.InRange, ht.maxfds] using hrange
  | lulled c d =>
    obtain ⟨hc, hsized, hrange, hf⟩ := hs
    refine ⟨hc.frame hw ht (hconn c rfl), hsized, ?_, hf.frame ht (hdesc _ rfl)⟩
    simpa only [TgxEvent.InRange, ht.maxfds] using hrange
  | closing c d isOpen a =>
    obtain ⟨hc, hpos, hf⟩ := hs
    refine ⟨hc.frame hw ht (hconn c rfl), hpos, ?_⟩
    rintro rfl
    exact (hf rfl).frame ht (hdesc _ rfl)
  | freed c =>
    have hborn : c < w.nextConn := by
      by_contra hle
      have hzero := (hw.unborn c (not_lt.mp hle)).2
      rw [hs.2] at hzero
      cases hzero
    obtain ⟨hnone, hcloses⟩ := ht.conns c (hconn c rfl) hborn
    exact ⟨hnone.trans hs.1, hcloses.trans hs.2⟩

/-- An open descriptor is known by its owner. -/
theorem Sees.socket (hs : Sees w h) (hf : h.desc = some f) : w.sockets f = .open h.owner := by
  cases h with
  | nothing => cases hf
  | fd f' a =>
    obtain rfl := Option.some.inj hf
    exact HasDesc.socket hs
  | fresh c d =>
    obtain rfl := Option.some.inj hf
    exact hs.2.2.2.socket
  | held c d a =>
    obtain rfl := Option.some.inj hf
    obtain ⟨-, -, -, hh, -, hdesc⟩ := hs
    exact hdesc.socket
  | lulled c d =>
    obtain rfl := Option.some.inj hf
    exact hs.2.2.2.socket
  | closing c d isOpen a =>
    cases isOpen with
    | false => cases hf
    | true =>
      obtain rfl := Option.some.inj hf
      exact (hs.2.2 rfl).socket
  | freed c => cases hf

/-- Whoever has a descriptor with an entry has the connection of the entry. -/
theorem Sees.registered {e : Schedule Handler ConnId} (hs : Sees w h)
    (hf : h.desc = some f) (he : w.te.lookup f = some e) :
    ∃ c, h.registered = some c ∧ e.context = some c := by
  cases h with
  | nothing => cases hf
  | fd f' a =>
    obtain rfl := Option.some.inj hf
    rw [HasDesc.entry hs] at he
    cases he
  | fresh c d =>
    obtain rfl := Option.some.inj hf
    rw [hs.2.2.2.entry] at he
    cases he
  | held c d a =>
    obtain rfl := Option.some.inj hf
    obtain ⟨-, -, -, h, -, hdesc⟩ := hs
    rw [hdesc.entry] at he
    exact ⟨c, rfl, by rw [← Option.some.inj he]⟩
  | lulled c d =>
    obtain rfl := Option.some.inj hf
    rw [hs.2.2.2.entry] at he
    exact ⟨c, rfl, by rw [← Option.some.inj he]⟩
  | closing c d isOpen a =>
    cases isOpen with
    | false => cases hf
    | true =>
      obtain rfl := Option.some.inj hf
      rw [(hs.2.2 rfl).entry] at he
      cases he
  | freed c => cases hf

theorem Sees.born (hs : Sees w h) (hw : Sane w) (hc : h.conn = some c) : c < w.nextConn := by
  cases h with
  | nothing => cases hc
  | fd f a => cases hc
  | fresh c' d =>
    obtain rfl := Option.some.inj hc
    exact hs.1.born hw
  | held c' d a =>
    obtain rfl := Option.some.inj hc
    exact hs.1.born hw
  | lulled c' d =>
    obtain rfl := Option.some.inj hc
    exact hs.1.born hw
  | closing c' d isOpen a =>
    obtain rfl := Option.some.inj hc
    exact hs.1.born hw
  | freed c' =>
    obtain rfl := Option.some.inj hc
    by_contra hle
    have hzero := (hw.unborn c' (not_lt.mp hle)).2
    rw [hs.2] at hzero
    cases hzero

end
end TinyosGraphics.Server
