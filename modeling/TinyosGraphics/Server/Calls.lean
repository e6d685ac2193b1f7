import TinyosGraphics.Server.Conduct
import TinyosGraphics.Server.Ownership

/-! Every call of the model keeps to what the rules say of it: the answer is one that they allow, and
what the caller knows moves with what it holds. -/
namespace TinyosGraphics.Server
open Lib Event Core

/-- What a call puts down: a connection with its entry, in or out of the interest set. -/
def Hold.gives (h : Hold) : (o : Op) → Ret o → Option (ConnId × Conn × Bool)
  | .eventCtl .ADD _ _, r =>
    match h with
    | .held c d _ => if r = 0 then some (c, d, true) else none
    | _ => none
  | .scheduleRegister _ _ _, r =>
    match h with
    | .fresh c d => if r = 0 then some (c, d, true) else none
    | _ => none
  | .pushTask _, _ =>
    match h with
    | .held c d a => some (c, d, a)
    | _ => none
  | _, _ => none

/-- What a call that is made by the rules leaves in the hands, and what it puts down. -/
inductive Hold.Changes (luck : Luck) (onLoop : Bool) :
    Hold → (o : Op) → Ret o → Hold → Option (ConnId × Conn × Bool) → Prop
  | stay {h : Hold} {o : Op} {r : Ret o} (hmay : h.may luck onLoop o) (hnext : h.next o r = h) :
      Changes luck onLoop h o r h none
  | storeFresh {c : ConnId} {d d' : Conn} {r : Ret (.store c d')} (hfd : d'.fd = d.fd)
      (ht : d'.travelling = d.travelling) : Changes luck onLoop (fresh c d) (.store c d') r (fresh c d') none
  | storeHeld {c : ConnId} {d d' : Conn} {a : Bool} {r : Ret (.store c d')} (hfd : d'.fd = d.fd)
      (ht : d.travelling = true → d'.travelling = true)
      (hset : d'.travelling = true → d.travelling = true ∨ a = false) :
      Changes luck onLoop (held c d a) (.store c d') r (held c d' a) none
  | allocated {f : Int} {c : ConnId} :
      Changes luck onLoop (fd f true) (.callocConnection f) (some c) (fresh c (newConn f)) none
  | unallocated {f : Int} : Changes luck onLoop (fd f true) (.callocConnection f) none nothing none
  | freed {c : ConnId} {d : Conn} {a : Bool} {r : Ret (.freeConnection c)} :
      Changes luck onLoop (closing c d false a) (.freeConnection c) r (freed c) none
  | lulled {c : ConnId} {d : Conn} {r : Int} :
      Changes luck onLoop (held c d true) (.setHandler d.fd .tgxConnectionHandlerNoOperation) r (lulled c d) none
  | armed {f : Int} {event : UInt32} :
      Changes luck onLoop (fd f false) (.eventCtl .ADD f event) (0 : Int) (fd f true) none
  | returned {c : ConnId} {d : Conn} {event : UInt32} (ht : d.travelling = true) (hworker : onLoop = false) :
      Changes luck onLoop (held c d false) (.eventCtl .ADD d.fd event) (0 : Int) nothing (some (c, d, true))
  | disarmed {c : ConnId} {d : Conn} {event : UInt32} :
      Changes luck onLoop (lulled c d) (.eventCtl .DEL d.fd event) (0 : Int) (held c d false) none
  | woken {c : ConnId} {d : Conn} {event : UInt32} {r : Int} (hr : r ≠ 0) :
      Changes luck onLoop (lulled c d) (.eventCtl .DEL d.fd event) r (held c d true) none
  | disarmedClosing {c : ConnId} {d : Conn} {a : Bool} {event : UInt32} (ht : d.travelling = false) :
      Changes luck onLoop (closing c d true a) (.eventCtl .DEL d.fd event) (0 : Int) (closing c d true false) none
  | registered {c : ConnId} {d : Conn} {h' : Handler} :
      Changes luck onLoop (fresh c d) (.scheduleRegister d.fd h' c) (0 : Int) nothing (some (c, d, true))
  | unregistrable {c : ConnId} {d : Conn} {h' : Handler} {r : Int} (hr : r ≠ 0) :
      Changes luck onLoop (fresh c d) (.scheduleRegister d.fd h' c) r nothing none
  | unregistered {c : ConnId} {d : Conn} {a : Bool} {r : Ret (.scheduleUnregister d.fd c)} :
      Changes luck onLoop (held c d a) (.scheduleUnregister d.fd c) r (closing c d true a) none
  | accepted {f : Int} (hloop : onLoop = true) : Changes luck onLoop nothing .accept (some f) (fd f false) none
  | closedFd {f : Int} {a : Bool} {r : Ret (.close f)} : Changes luck onLoop (fd f a) (.close f) r nothing none
  | closed {c : ConnId} {d : Conn} {a : Bool} {r : Ret (.close d.fd)} :
      Changes luck onLoop (closing c d true a) (.close d.fd) r (closing c d false false) none
  | pushed {task : TgxTask} {d : Conn} {r : Ret (.pushTask task)} (ht : d.travelling = true) :
      Changes luck onLoop (held task.context.tconn d false) (.pushTask task) r nothing
        (some (task.context.tconn, d, false))

section
variable {luck : Luck} {onLoop : Bool} {h : Hold} {o : Op} {r : Ret o}

private theorem changes_stay (hmay : h.may luck onLoop o) (hnext : h.next o r = h) (hgives : h.gives o r = none) :
    h.Changes luck onLoop o r (h.next o r) (h.gives o r) := by
  rw [hgives, hnext]
  exact .stay hmay hnext

/-- Each call by the rules changes what is held in one of these ways. -/
theorem changes_call (hmay : h.may luck onLoop o) : h.Changes luck onLoop o r (h.next o r) (h.gives o r) := by
  cases o
  case store c d' =>
    obtain ⟨d, rfl, hfd, ht, -⟩ | ⟨d, a, rfl, hfd, -, ht, hset⟩ := hmay
    · exact .storeFresh hfd ht
    · exact .storeHeld hfd ht hset
  case callocConnection f =>
    obtain rfl : h = .fd f true := hmay
    cases r with
    | none => exact .unallocated
    | some c => exact .allocated
  case freeConnection c =>
    obtain ⟨d, a, rfl⟩ := hmay
    exact .freed
  case setHandler f h' =>
    obtain ⟨c, d, a, rfl, rfl, -, ha⟩ := id hmay
    by_cases hnoop : h' = .tgxConnectionHandlerNoOperation
    · subst hnoop
      obtain rfl := ha.resolve_right fun hworker => hworker.2 rfl
      exact .lulled
    · exact changes_stay hmay (if_neg hnoop) rfl
  case eventCtl op f event =>
    cases op with
    | MOD => exact hmay.elim
    | ADD =>
      by_cases h0 : r = 0
      · subst h0
        obtain rfl | ⟨c, d, rfl, rfl, ht, hworker⟩ := hmay
        · exact .armed
        · exact .returned ht hworker
      · obtain rfl | ⟨c, d, rfl, rfl, -⟩ := id hmay
        · exact changes_stay hmay (if_neg h0) rfl
        · exact changes_stay hmay (if_neg h0) (if_neg h0)
    | DEL =>
      by_cases h0 : r = 0
      · subst h0
        obtain ⟨c, d, rfl | ⟨a, rfl, ht⟩, rfl⟩ := hmay
        · exact .disarmed
        · exact .disarmedClosing ht
      · obtain ⟨c, d, rfl | ⟨a, rfl, -⟩, rfl⟩ := id hmay
        · have hnext : (Hold.lulled c d).next (.eventCtl .DEL d.fd event) r = .held c d true := if_neg h0
          rw [hnext]
          exact .woken h0
        · exact changes_stay hmay (if_neg h0) rfl
  case scheduleRegister f h' c =>
    obtain ⟨d, rfl, rfl, -⟩ := hmay
    by_cases h0 : r = 0
    · subst h0
      exact .registered
    · have hgives : (Hold.fresh c d).gives (.scheduleRegister d.fd h' c) r = none := if_neg h0
      rw [hgives]
      exact .unregistrable h0
  case scheduleUnregister f c =>
    obtain ⟨d, a, rfl, rfl, -⟩ := hmay
    exact .unregistered
  case accept =>
    obtain ⟨hloop, rfl⟩ := id hmay
    cases r with
    | none => exact .stay hmay rfl
    | some f => exact .accepted hloop
  case close f =>
    obtain ⟨a, rfl⟩ | ⟨c, d, a, rfl, rfl⟩ := hmay
    · exact .closedFd
    · exact .closed
  case pushTask task =>
    obtain ⟨d, rfl, ht⟩ := hmay
    exact .pushed ht
  all_goals exact .stay hmay rfl

end

/-- From `h` to `h'`, with `g` put down. -/
structure Moved (w w' : World) (h h' : Hold) (g : Option (ConnId × Conn × Bool)) : Prop where
  sane : Sane w'
  touches : Touches w w' h
  sees : Sees w' h'
  given : ∀ c d a, g = some (c, d, a) → Sees w' (.held c d a)
  desc : ∀ f, h.desc = some f →
    h'.desc = some f ∨ (∃ c d a, g = some (c, d, a) ∧ d.fd = f) ∨ w'.te.lookup f = none

/-- Two worlds that no holder can tell apart. -/
structure Alike (w w' : World) : Prop where
  te : w'.te = w.te
  interest : w'.interest = w.interest
  sockets : w'.sockets = w.sockets
  conns : w'.conns = w.conns
  closes : w'.closes = w.closes
  nextConn : w'.nextConn = w.nextConn

section
variable {w w' : World} {h : Hold} {c : ConnId} {d : Conn} {f : Int} {a : Bool}

theorem Alike.refl (w : World) : Alike w w := ⟨rfl, rfl, rfl, rfl, rfl, rfl⟩

theorem Alike.touches (hw : Alike w w') (h : Hold) : Touches w w' h := by
  constructor
  · intro c _ _
    rw [hw.conns, hw.closes]
    exact ⟨rfl, rfl⟩
  · intro f _
    rw [hw.te, hw.interest]
    exact ⟨rfl, rfl⟩
  · intro f _ _
    rw [hw.sockets]
  · rw [hw.te]
  · rw [hw.te]
  · exact hw.nextConn.ge

theorem Alike.sane (hw : Alike w w') (hs : Sane w) : Sane w' := by
  constructor
  · rw [hw.te]
    exact hs.started
  · rw [hw.te]
    exact hs.wellFormed
  · rw [hw.sockets, hw.te, hw.interest]
    exact hs.closed
  · rw [hw.sockets]
    exact hs.zero
  · rw [hw.nextConn, hw.conns, hw.closes]
    exact hs.unborn
  · rw [hw.closes]
    exact hs.closes

theorem Alike.sees (hw : Alike w w') (hsane : Sane w) (hs : Sees w h) : Sees w' h :=
  hs.frame hsane (hw.touches .nothing) (fun _ _ hc => nomatch hc) fun _ _ hf => nomatch hf

theorem Alike.moved (hw : Alike w w') (hsane : Sane w) (hs : Sees w h) : Moved w w' h h none where
  sane := hw.sane hsane
  touches := hw.touches h
  sees := hw.sees hsane hs
  given _ _ _ hg := nomatch hg
  desc _ hf := .inl hf

theorem respond_plain {o : Op} {r : Ret o} (ho : plain o = true) (hr : respond w o r = some w') :
    Alike w w' := by
  cases o
  all_goals try cases ho
  all_goals simp only [respond] at hr
  all_goals repeat' split at hr
  all_goals first
    | exact Option.some.inj hr ▸ ⟨rfl, rfl, rfl, rfl, rfl, rfl⟩
    | cases hr

private theorem touches_setConn (hc : h.conn = some c) (d : Option Conn) : Touches w (w.setConn c d) h := by
  constructor
  · intro c' hne _
    have hother : c' ≠ c := by
      rintro rfl
      exact hne hc
    exact ⟨Function.update_of_ne hother _ _, rfl⟩
  · exact fun _ _ => ⟨rfl, rfl⟩
  · exact fun _ _ _ => rfl
  · rfl
  · rfl
  · exact le_rfl

theorem Sane.setConn (hw : Sane w) (hc : c < w.nextConn) (d : Option Conn) : Sane (w.setConn c d) := by
  constructor
  · exact hw.started
  · exact hw.wellFormed
  · exact hw.closed
  · exact hw.zero
  · intro c' hc'
    have hother : c' ≠ c := by
      rintro rfl
      exact absurd hc (not_lt.mpr hc')
    obtain ⟨hnone, hcloses⟩ := hw.unborn c' hc'
    exact ⟨(Function.update_of_ne hother _ _).trans hnone, hcloses⟩
  · exact hw.closes

theorem HasConn.setConn {n : Nat} (hc : HasConn w c d n) (d' : Conn) :
    HasConn (w.setConn c (some d')) c d' n :=
  ⟨Function.update_self _ _ _, hc.closes⟩

theorem HasDesc.setConn {owner : Option ConnId} {entry : Option (Schedule Handler ConnId)}
    (hf : HasDesc w f owner entry a) (c : ConnId) (d : Option Conn) :
    HasDesc (w.setConn c d) f owner entry a :=
  ⟨hf.pos, hf.socket, hf.entry, hf.armed⟩

private theorem moved_store_held {d' : Conn} (hw : Sane w) (hs : Sees w (.held c d a)) (hfd : d'.fd = d.fd)
    (hd' : Sized d') : Moved w (w.setConn c (some d')) (.held c d a) (.held c d' a) none := by
  obtain ⟨hc, -, hrange, hh, hne, hf⟩ := hs
  constructor
  · exact hw.setConn (hc.born hw) _
  · exact touches_setConn rfl _
  · refine ⟨hc.setConn d', hd', ?_, hh, hne, ?_⟩
    · rw [hfd]
      exact hrange
    · rw [hfd]
      exact hf.setConn _ _
  · simp
  · intro f hdesc
    exact .inl (by simpa [Hold.desc, hfd] using hdesc)

private theorem moved_store_fresh {d' : Conn} (hw : Sane w) (hs : Sees w (.fresh c d)) (hfd : d'.fd = d.fd)
    (ht : d'.travelling = d.travelling) (hd' : Sized d') :
    Moved w (w.setConn c (some d')) (.fresh c d) (.fresh c d') none := by
  obtain ⟨hc, -, htravelling, hf⟩ := hs
  constructor
  · exact hw.setConn (hc.born hw) _
  · exact touches_setConn rfl _
  · refine ⟨hc.setConn d', hd', ht.trans htravelling, ?_⟩
    rw [hfd]
    exact hf.setConn _ _
  · simp
  · intro f hdesc
    exact .inl (by simpa [Hold.desc, hfd] using hdesc)

private theorem moved_freeConnection (hw : Sane w) (hs : Sees w (.closing c d false a)) :
    Moved w (w.setConn c none) (.closing c d false a) (.freed c) none := by
  obtain ⟨hc, -, -⟩ := hs
  constructor
  · exact hw.setConn (hc.born hw) _
  · exact touches_setConn rfl _
  · exact ⟨Function.update_self _ _ _, hc.closes⟩
  · simp
  · exact fun _ hf => nomatch hf

private theorem moved_callocConnection (hw : Sane w) (hs : Sees w (.fd f true)) :
    Moved w { (w.setConn w.nextConn (some (newConn f))).setSocket f (.open (some w.nextConn)) with
      nextConn := w.nextConn + 1 } (.fd f true) (.fresh w.nextConn (newConn f)) none := by
  obtain ⟨hpos, hsocket, hentry, harmed⟩ := hs
  obtain ⟨hnone, hcloses⟩ := hw.unborn w.nextConn le_rfl
  have hother : ∀ {c'}, c' ≠ w.nextConn →
      Function.update w.conns w.nextConn (some (newConn f)) c' = w.conns c' :=
    fun hne => Function.update_of_ne hne _ _
  constructor
  · constructor
    · exact hw.started
    · exact hw.wellFormed
    · intro f' hclosed
      have hne : f' ≠ f := by
        rintro rfl
        simp [World.setSocket] at hclosed
      exact hw.closed f' (by simpa [World.setSocket, hne] using hclosed)
    · have hne : (0 : Int) ≠ f := hpos.ne
      simpa [World.setSocket, World.setConn, hne] using hw.zero
    · intro c' hc'
      have hlt : w.nextConn < c' := hc'
      obtain ⟨hnone', hcloses'⟩ := hw.unborn c' hlt.le
      exact ⟨(hother hlt.ne').trans hnone', hcloses'⟩
    · exact hw.closes
  · constructor
    · intro c' _ hborn
      exact ⟨hother hborn.ne, rfl⟩
    · exact fun _ _ => ⟨rfl, rfl⟩
    · intro f' hne _
      have hother : f' ≠ f := by
        rintro rfl
        exact hne rfl
      exact Function.update_of_ne hother _ _
    · rfl
    · rfl
    · exact Nat.le_succ _
  · refine ⟨⟨Function.update_self _ _ _, hcloses⟩, .inl rfl, rfl, hpos, ?_, hentry, harmed⟩
    exact Function.update_self _ _ _
  · simp
  · exact fun _ hf => .inl hf

private theorem touches_setInterest (hf : h.desc = some f) (m : Option UInt32) :
    Touches w (w.setInterest f m) h := by
  constructor
  · exact fun _ _ _ => ⟨rfl, rfl⟩
  · intro f' hne
    have hother : f' ≠ f := by
      rintro rfl
      exact hne hf
    exact ⟨rfl, Function.update_of_ne hother _ _⟩
  · exact fun _ _ _ => rfl
  · rfl
  · rfl
  · exact le_rfl

theorem Sane.setInterest (hw : Sane w) (hopen : w.sockets f ≠ .closed) (m : Option UInt32) :
    Sane (w.setInterest f m) := by
  constructor
  · exact hw.started
  · exact hw.wellFormed
  · intro f' hclosed
    have hother : f' ≠ f := by
      rintro rfl
      exact hopen hclosed
    obtain ⟨hlookup, hinterest⟩ := hw.closed f' hclosed
    exact ⟨hlookup, (Function.update_of_ne hother _ _).trans hinterest⟩
  · exact hw.zero
  · exact hw.unborn
  · exact hw.closes

theorem HasDesc.setInterest {owner : Option ConnId} {entry : Option (Schedule Handler ConnId)}
    (hf : HasDesc w f owner entry a) (m : Option UInt32) :
    HasDesc (w.setInterest f m) f owner entry m.isSome :=
  ⟨hf.pos, hf.socket, hf.entry, by simp [World.setInterest]⟩

theorem HasDesc.open {owner : Option ConnId} {entry : Option (Schedule Handler ConnId)}
    (hf : HasDesc w f owner entry a) : w.sockets f ≠ .closed := by
  rw [hf.socket]
  nofun

private theorem epollCtl_add {m : UInt32} (hr : w.epollCtl .ADD f m = some w') :
    w' = w.setInterest f (some m) := by
  cases hi : w.interest f with
  | some _ => simp [World.epollCtl, hi] at hr
  | none =>
    simp only [World.epollCtl, hi] at hr
    split at hr
    · cases hr
    · exact (Option.some.inj hr).symm

private theorem epollCtl_del {m : UInt32} (hr : w.epollCtl .DEL f m = some w') :
    w' = w.setInterest f none := by
  cases hi : w.interest f with
  | some _ =>
    simp only [World.epollCtl, hi] at hr
    exact (Option.some.inj hr).symm
  | none => simp [World.epollCtl, hi] at hr

theorem eventCtl_cases {op : CtlOp} {event : UInt32} {r : Int}
    (hr : respond w (.eventCtl op f event) r = some w') :
    (r = 0 ∧ w.epollCtl op f (toEpoll event) = some w') ∨ (r = -1 ∧ w' = w) := by
  simp only [respond] at hr
  split at hr
  · rename_i hret
    split at hr
    · rename_i h0
      exact .inl ⟨h0, hr⟩
    · rename_i h0
      refine .inr ⟨?_, (Option.some.inj hr).symm⟩
      simp only [Event.tgxEventCtl, tgxLinuxEpollCtl] at hret
      repeat' split at hret
      all_goals first | exact hret | exact absurd hret h0
  · cases hr

/-- `epoll_ctl` changes the interest set and nothing else. -/
theorem eventCtl_world {op : CtlOp} {event : UInt32} {r : Int} (hr : respond w (.eventCtl op f event) r = some w') :
    ∃ interest, w' = { w with interest := interest } := by
  obtain ⟨-, hctl⟩ | ⟨-, rfl⟩ := eventCtl_cases hr
  · simp only [World.epollCtl] at hctl
    split at hctl
    · split at hctl
      · cases hctl
      · exact ⟨_, (Option.some.inj hctl).symm⟩
    · exact ⟨_, (Option.some.inj hctl).symm⟩
    · exact ⟨_, (Option.some.inj hctl).symm⟩
    · cases hctl
  · exact ⟨_, rfl⟩

/-- The answer of `tgx_event_schedule_unregister` changes the table and the count of closings. -/
theorem scheduleUnregister_world {r : Ret (.scheduleUnregister f c)}
    (hr : respond w (.scheduleUnregister f c) r = some w') :
    ∃ te closes, w' = { w with te := te, closes := closes } := by
  obtain ⟨_, -, rfl⟩ := Option.map_eq_some_iff.mp hr
  exact ⟨_, _, rfl⟩

private theorem moved_add_fd {m : UInt32} (hw : Sane w) (hs : Sees w (.fd f false)) :
    Moved w (w.setInterest f (some m)) (.fd f false) (.fd f true) none where
  sane := hw.setInterest (HasDesc.open hs) _
  touches := touches_setInterest rfl _
  sees := HasDesc.setInterest hs _
  given _ _ _ hg := nomatch hg
  desc _ hf := .inl hf

private theorem moved_add_held {m : UInt32} (hw : Sane w) (hs : Sees w (.held c d false)) :
    Moved w (w.setInterest d.fd (some m)) (.held c d false) .nothing (some (c, d, true)) := by
  obtain ⟨hc, hsized, hrange, hh, hne, hf⟩ := hs
  constructor
  · exact hw.setInterest hf.open _
  · exact touches_setInterest rfl _
  · trivial
  · intro c' d' a' hg
    obtain ⟨rfl, rfl, rfl⟩ := by simpa using hg
    exact ⟨⟨hc.conn, hc.closes⟩, hsized, hrange, hh, hne, hf.setInterest _⟩
  · intro f hdesc
    exact .inr (.inl ⟨c, d, true, rfl, Option.some.inj hdesc⟩)

private theorem Sees.wake (hs : Sees w (.lulled c d)) : Sees w (.held c d true) := by
  obtain ⟨hc, hsized, hrange, hf⟩ := hs
  exact ⟨hc, hsized, hrange, .tgxConnectionHandlerNoOperation, nofun, hf⟩

private theorem moved_del_lulled (hw : Sane w) (hs : Sees w (.lulled c d)) :
    Moved w (w.setInterest d.fd none) (.lulled c d) (.held c d false) none := by
  obtain ⟨hc, hsized, hrange, hf⟩ := hs
  constructor
  · exact hw.setInterest hf.open _
  · exact touches_setInterest rfl _
  · exact ⟨⟨hc.conn, hc.closes⟩, hsized, hrange, .tgxConnectionHandlerNoOperation, nofun, hf.setInterest _⟩
  · simp
  · exact fun _ hdesc => .inl hdesc

private theorem moved_del_refused (hw : Sane w) (hs : Sees w (.lulled c d)) :
    Moved w w (.lulled c d) (.held c d true) none := by
  have hmoved := (Alike.refl w).moved hw hs
  exact ⟨hw, hmoved.touches, hs.wake, hmoved.given, hmoved.desc⟩

private theorem moved_del_closing (hw : Sane w) (hs : Sees w (.closing c d true a)) :
    Moved w (w.setInterest d.fd none) (.closing c d true a) (.closing c d true false) none := by
  obtain ⟨hc, hpos, hf⟩ := hs
  constructor
  · exact hw.setInterest (hf rfl).open _
  · exact touches_setInterest rfl _
  · exact ⟨⟨hc.conn, hc.closes⟩, hpos, fun _ => (hf rfl).setInterest _⟩
  · simp
  · exact fun _ hdesc => .inl hdesc

section
variable {te : TgxEvent Handler ConnId}

private theorem touches_te (hf : h.desc = some f) (hlookup : ∀ k, k ≠ f → te.lookup k = w.te.lookup k)
    (hmax : te.maxfds = w.te.maxfds) (hfirst : te.first = w.te.first) :
    Touches w { w with te := te } h := by
  constructor
  · exact fun _ _ _ => ⟨rfl, rfl⟩
  · intro f' hne
    have hother : f' ≠ f := by
      rintro rfl
      exact hne hf
    exact ⟨hlookup f' hother, rfl⟩
  · exact fun _ _ _ => rfl
  · exact hmax
  · exact hfirst
  · exact le_rfl

theorem Sane.setTe (hw : Sane w) (hopen : w.sockets f ≠ .closed) (hstarted : te.Started)
    (hwf : te.WellFormed) (hlookup : ∀ k, k ≠ f → te.lookup k = w.te.lookup k) :
    Sane { w with te := te } := by
  constructor
  · exact hstarted
  · exact hwf
  · intro f' hclosed
    have hother : f' ≠ f := by
      rintro rfl
      exact hopen hclosed
    obtain ⟨hnone, hinterest⟩ := hw.closed f' hclosed
    exact ⟨(hlookup f' hother).trans hnone, hinterest⟩
  · exact hw.zero
  · exact hw.unborn
  · exact hw.closes

end

private theorem moved_setHandler {h' : Handler} {r : Int} (hw : Sane w) (hs : Sees w (.held c d a))
    (hh' : h' ≠ .tgxAcceptionHandler) (ha : h' = .tgxConnectionHandlerNoOperation → a = true)
    (hr : respond w (.setHandler d.fd h') r = some w') :
    r = 0 ∧ Moved w w' (.held c d a) ((Hold.held c d a).next (.setHandler d.fd h') r) none := by
  obtain ⟨hc, hsized, hrange, hh, hne, hf⟩ := hs
  obtain ⟨te, hset⟩ : ∃ te, Event.tgxEventSetHandler w.te d.fd (some h') none = some (0, te) :=
    TgxEvent.setHandler_registered hw.wellFormed hrange hf.entry rfl
  obtain ⟨rfl, rfl⟩ : r = 0 ∧ { w with te := te } = w' := by simpa [respond, hset] using hr
  obtain ⟨hwf, hmax, ⟨-, hneg⟩ | ⟨s, hs, -, -, hlook⟩⟩ := TgxEvent.setHandler_spec hw.wellFormed hset
  · cases hneg
  obtain rfl := Option.some.inj (hf.entry.symm.trans hs)
  have hother : ∀ k, k ≠ d.fd → te.lookup k = w.te.lookup k := by
    intro k hk
    rw [hlook, if_neg hk]
  have hfirst : te.first = w.te.first := by
    obtain ⟨-, rfl⟩ | ⟨i, s, -, -, -, -, -, rfl⟩ := TgxEvent.setHandler_cases hset
    · rfl
    · rfl
  have hdesc : HasDesc { w with te := te } d.fd (some c) (some ⟨d.fd, some h', some c⟩) a :=
    ⟨hf.pos, hf.socket, by rw [hlook, if_pos rfl], hf.armed⟩
  have hrange' : te.InRange d.fd := by simpa only [TgxEvent.InRange, hmax] using hrange
  refine ⟨rfl, ?_⟩
  constructor
  · exact hw.setTe hf.open (hw.started.setHandler hset) hwf hother
  · exact touches_te rfl hother hmax hfirst
  · simp only [Hold.next]
    split
    · rename_i hnoop
      obtain rfl := ha hnoop
      exact ⟨⟨hc.conn, hc.closes⟩, hsized, hrange', hnoop ▸ hdesc⟩
    · exact ⟨⟨hc.conn, hc.closes⟩, hsized, hrange', h', hh', hdesc⟩
  · simp
  · intro f' hf'
    simp only [Hold.next]
    split
    · exact .inl hf'
    · exact .inl hf'

private theorem moved_scheduleRegister {h' : Handler} {r : Int} (hw : Sane w) (hs : Sees w (.fresh c d))
    (hh' : h' ≠ .tgxAcceptionHandler) (hr : respond w (.scheduleRegister d.fd h' c) r = some w') :
    (r = 0 ∨ r = -1) ∧
      Moved w w' (.fresh c d) .nothing (if r = 0 then some (c, d, true) else none) := by
  obtain ⟨hc, hsized, htravelling, hf⟩ := hs
  simp only [respond] at hr
  split at hr
  swap
  · cases hr
  rename_i r' te hreg
  split at hr
  swap
  · cases hr
  rename_i hret
  subst hret
  obtain rfl := Option.some.inj hr
  obtain ⟨hwf, hmax, hcases⟩ := TgxEvent.register_spec hw.wellFormed hf.entry hreg
  have hother : ∀ k, k ≠ d.fd → te.lookup k = w.te.lookup k := by
    intro k hk
    obtain ⟨-, -, hlook⟩ | ⟨-, hlook⟩ := hcases
    · rw [hlook, if_neg hk]
    · exact hlook k
  have hfirst : te.first = w.te.first := by
    obtain ⟨-, -, rfl⟩ | ⟨-, -, -, rfl, -⟩ | ⟨-, -, -, -, i, -, -, rfl⟩ := TgxEvent.register_cases hreg
    · rfl
    · rfl
    · rfl
  have hsane := hw.setTe hf.open (hw.started.register hreg) hwf hother
  have htouches : Touches w { w with te := te } (.fresh c d) := touches_te rfl hother hmax hfirst
  obtain ⟨rfl, hrange, hlook⟩ | ⟨rfl, hlook⟩ := hcases
  · refine ⟨.inl rfl, hsane, htouches, trivial, ?_, ?_⟩
    · intro c' d' a' hg
      obtain ⟨rfl, rfl, rfl⟩ := by simpa using hg
      refine ⟨⟨hc.conn, hc.closes⟩, hsized, ?_, h', hh', hf.pos, hf.socket, ?_, hf.armed⟩
      · simpa only [TgxEvent.InRange, hmax] using hrange
      · rw [hlook, if_pos rfl]
    · intro f hdesc
      exact .inr (.inl ⟨c, d, true, rfl, Option.some.inj hdesc⟩)
  · refine ⟨.inr rfl, hsane, htouches, trivial, ?_, ?_⟩
    · simp
    · intro f hdesc
      obtain rfl := Option.some.inj hdesc
      exact .inr (.inr ((hlook _).trans hf.entry))

private theorem moved_scheduleUnregister (hw : Sane w) (hs : Sees w (.held c d a))
    (hr : respond w (.scheduleUnregister d.fd c) () = some w') :
    Moved w w' (.held c d a) (.closing c d true a) none := by
  obtain ⟨hc, hsized, hrange, hh, hne, hf⟩ := hs
  obtain ⟨⟨r, te⟩, hun, rfl⟩ := Option.map_eq_some_iff.mp hr
  obtain ⟨hwf, hmax, hlook⟩ := TgxEvent.unregister_spec hw.wellFormed hrange hun
  have hother : ∀ k, k ≠ d.fd → te.lookup k = w.te.lookup k := by
    intro k hk
    rw [hlook, if_neg hk]
  have hfirst : te.first = w.te.first := by
    obtain ⟨-, rfl⟩ | ⟨-, i, s, -, -, -, rfl⟩ := TgxEvent.unregister_cases hun
    · rfl
    · rfl
  have hte := hw.setTe hf.open (hw.started.unregister hun) hwf hother
  have htouches : Touches w { w with te := te } (.held c d a) := touches_te rfl hother hmax hfirst
  constructor
  · constructor
    · exact hte.started
    · exact hte.wellFormed
    · exact hte.closed
    · exact hte.zero
    · intro c' hc'
      have hother : c' ≠ c := (lt_of_lt_of_le (hc.born hw) hc').ne'
      obtain ⟨hnone, hcloses⟩ := hw.unborn c' hc'
      exact ⟨hnone, (Function.update_of_ne hother _ _).trans hcloses⟩
    · intro c'
      by_cases hc' : c' = c
      · subst hc'
        simp [hc.closes]
      · simpa [hc'] using hw.closes c'
  · constructor
    · intro c' hne _
      have hother : c' ≠ c := by
        rintro rfl
        exact hne rfl
      exact ⟨rfl, Function.update_of_ne hother _ _⟩
    · exact htouches.lookup
    · exact htouches.sockets
    · exact hmax
    · exact hfirst
    · exact le_rfl
  · refine ⟨⟨hc.conn, by simp [hc.closes]⟩, hf.pos, fun _ => ⟨hf.pos, hf.socket, ?_, hf.armed⟩⟩
    rw [hlook, if_pos rfl]
  · simp
  · exact fun _ hdesc => .inl hdesc

private theorem moved_accept (hw : Sane w) (h0 : 0 ≤ f) (hclosed : w.sockets f = .closed) :
    Moved w (w.setSocket f (.open none)) .nothing (.fd f false) none := by
  obtain ⟨hlookup, hinterest⟩ := hw.closed f hclosed
  have hpos : f ≠ 0 := by
    rintro rfl
    exact hw.zero hclosed
  constructor
  · constructor
    · exact hw.started
    · exact hw.wellFormed
    · intro f' hf'
      have hother : f' ≠ f := by
        rintro rfl
        simp [World.setSocket] at hf'
      exact hw.closed f' (by simpa [World.setSocket, hother] using hf')
    · simpa [World.setSocket, hpos.symm] using hw.zero
    · exact hw.unborn
    · exact hw.closes
  · constructor
    · exact fun _ _ _ => ⟨rfl, rfl⟩
    · exact fun _ _ => ⟨rfl, rfl⟩
    · intro f' _ hopen
      have hother : f' ≠ f := by
        rintro rfl
        exact hopen hclosed
      exact Function.update_of_ne hother _ _
    · rfl
    · rfl
    · exact le_rfl
  · refine ⟨by omega, Function.update_self _ _ _, hlookup, ?_⟩
    rw [show (w.setSocket f (.open none)).interest f = w.interest f from rfl, hinterest]
    rfl
  · simp
  · exact fun _ hf => nomatch hf

private theorem touches_close (hf : h.desc = some f) :
    Touches w ((w.setSocket f .closed).setInterest f none) h := by
  have hother : ∀ {f'}, h.desc ≠ some f' → f' ≠ f := by
    rintro f' hne rfl
    exact hne hf
  constructor
  · exact fun _ _ _ => ⟨rfl, rfl⟩
  · exact fun f' hne => ⟨rfl, Function.update_of_ne (hother hne) _ _⟩
  · exact fun f' hne _ => Function.update_of_ne (hother hne) _ _
  · rfl
  · rfl
  · exact le_rfl

theorem Sane.close (hw : Sane w) (hpos : 0 < f) (hentry : w.te.lookup f = none) :
    Sane ((w.setSocket f .closed).setInterest f none) := by
  constructor
  · exact hw.started
  · exact hw.wellFormed
  · intro f' hclosed
    by_cases hother : f' = f
    · subst hother
      exact ⟨hentry, Function.update_self _ _ _⟩
    · obtain ⟨hlookup, hinterest⟩ := hw.closed f' (by
        simpa [World.setSocket, World.setInterest, hother] using hclosed)
      exact ⟨hlookup, (Function.update_of_ne hother _ _).trans hinterest⟩
  · simpa [World.setSocket, World.setInterest, hpos.ne] using hw.zero
  · exact hw.unborn
  · exact hw.closes

private theorem moved_close_fd (hw : Sane w) (hs : Sees w (.fd f a)) :
    Moved w ((w.setSocket f .closed).setInterest f none) (.fd f a) .nothing none where
  sane := hw.close hs.pos hs.entry
  touches := touches_close rfl
  sees := trivial
  given _ _ _ hg := nomatch hg
  desc f' hdesc := by
    obtain rfl := Option.some.inj hdesc
    exact .inr (.inr hs.entry)

private theorem moved_close_closing (hw : Sane w) (hs : Sees w (.closing c d true a)) :
    Moved w ((w.setSocket d.fd .closed).setInterest d.fd none) (.closing c d true a)
      (.closing c d false false) none := by
  obtain ⟨hc, hpos, hf⟩ := hs
  constructor
  · exact hw.close hpos (hf rfl).entry
  · exact touches_close rfl
  · exact ⟨⟨hc.conn, hc.closes⟩, hpos, nofun⟩
  · simp
  · intro f hdesc
    obtain rfl := Option.some.inj hdesc
    exact .inr (.inr (hf rfl).entry)

private theorem moved_pushTask (hw : Sane w) (hs : Sees w (.held c d a)) (queue : List TgxTask) :
    Moved w { w with queue := queue } (.held c d a) .nothing (some (c, d, a)) := by
  have halike : Alike w { w with queue := queue } := ⟨rfl, rfl, rfl, rfl, rfl, rfl⟩
  constructor
  · exact halike.sane hw
  · exact halike.touches _
  · trivial
  · intro c' d' a' hg
    obtain ⟨rfl, rfl, rfl⟩ := by simpa using hg
    exact halike.sees hw hs
  · intro f hdesc
    exact .inr (.inl ⟨c, d, a, rfl, Option.some.inj hdesc⟩)

end

/-- The answers that the promise of `luck` rules out do not come. -/
def Luck.Grants (luck : Luck) (onLoop : Bool) : (o : Op) → Ret o → Prop
  | .calloc what, r =>
    match what with
    | .string .httpRespHeader => luck.header → r = true
    | .connectionField f => luck.accepting → f ≠ .httpReqBody → r = true
    | _ => True
  | .callocConnection _, r => luck.accepting → r ≠ none
  | .eventCtl .ADD _ _, r => luck.accepting → onLoop = true → r = 0
  | .scheduleRegister _ _ _, r => luck.accepting → r = 0
  | _, _ => True

section
variable {luck : Luck} {onLoop : Bool} {w w' : World} {h : Hold}

private theorem plain_next {o : Op} (ho : plain o = true) (r : Ret o) : h.next o r = h ∧ h.gives o r = none := by
  cases o
  all_goals first | exact ⟨rfl, rfl⟩ | cases ho

private theorem plain_allows {o : Op} {r : Ret o} (ho : plain o = true) (hgrant : luck.Grants onLoop o r) :
    h.allows luck o r := by
  cases o
  case calloc what => exact hgrant
  all_goals trivial

private theorem moved_plain {o : Op} {r : Ret o} (ho : plain o = true) (hw : Sane w) (hs : Sees w h)
    (hgrant : luck.Grants onLoop o r) (hr : respond w o r = some w') :
    h.allows luck o r ∧ Moved w w' h (h.next o r) (h.gives o r) := by
  obtain ⟨hnext, hgives⟩ := plain_next (h := h) ho r
  rw [hnext, hgives]
  exact ⟨plain_allows ho hgrant, (respond_plain ho hr).moved hw hs⟩

theorem moved_load {c : ConnId} {d : Conn} (hw : Sane w) (hs : Sees w h) (hconn : h.conn = some c)
    (hr : respond w (.load c) d = some w') :
    h.allows luck (.load c) d ∧ Moved w w' h (h.next (.load c) d) (h.gives (.load c) d) := by
  obtain ⟨hd, rfl⟩ : w.conns c = some d ∧ w = w' := by simpa [respond] using hr
  refine ⟨?_, (Alike.refl w).moved hw hs⟩
  have hsame : ∀ {d' : Conn} {n : Nat}, HasConn w c d' n → d = d' :=
    fun hc => Option.some.inj (hd.symm.trans hc.conn)
  cases h with
  | nothing => cases hconn
  | fd f a => cases hconn
  | fresh c' d' =>
    obtain rfl := Option.some.inj hconn
    exact ⟨hsame hs.1, hs.2.2.2.pos⟩
  | held c' d' a =>
    obtain rfl := Option.some.inj hconn
    obtain ⟨hc, -, -, hh, -, hf⟩ := hs
    exact ⟨hsame hc, hf.pos⟩
  | lulled c' d' =>
    obtain rfl := Option.some.inj hconn
    exact ⟨hsame hs.1, hs.2.2.2.pos⟩
  | closing c' d' isOpen a =>
    obtain rfl := Option.some.inj hconn
    exact ⟨hsame hs.1, hs.2.1⟩
  | freed c' =>
    obtain rfl := Option.some.inj hconn
    rw [hs.1] at hd
    cases hd

private theorem moved_eventCtl {op : CtlOp} {f : Int} {event : UInt32} {r : Int} (hw : Sane w) (hs : Sees w h)
    (hmay : h.may luck onLoop (.eventCtl op f event)) (hloop : ∀ f a, h = .fd f a → onLoop = true)
    (hgrant : luck.Grants onLoop (.eventCtl op f event) r)
    (hr : respond w (.eventCtl op f event) r = some w') :
    h.allows luck (.eventCtl op f event) r ∧
      Moved w w' h (h.next (.eventCtl op f event) r) (h.gives (.eventCtl op f event) r) := by
  have hneg : (-1 : Int) ≠ 0 := by decide
  cases op with
  | MOD => exact hmay.elim
  | ADD =>
    obtain rfl | ⟨c, d, rfl, rfl, -⟩ := hmay
    · obtain ⟨rfl, hctl⟩ | ⟨rfl, rfl⟩ := eventCtl_cases hr
      · obtain rfl := epollCtl_add hctl
        exact ⟨⟨.inl rfl, fun _ _ _ _ => rfl⟩, moved_add_fd hw hs⟩
      · refine ⟨⟨.inr rfl, fun haccepting f a hfd => ?_⟩, ?_⟩
        · exact hgrant haccepting (hloop f a hfd)
        · simpa [Hold.next, Hold.gives, hneg] using (Alike.refl w').moved hw hs
    · obtain ⟨rfl, hctl⟩ | ⟨rfl, rfl⟩ := eventCtl_cases hr
      · obtain rfl := epollCtl_add hctl
        exact ⟨⟨.inl rfl, fun _ _ _ _ => rfl⟩, moved_add_held hw hs⟩
      · refine ⟨⟨.inr rfl, by simp⟩, ?_⟩
        simpa [Hold.next, Hold.gives, hneg] using (Alike.refl w').moved hw hs
  | DEL =>
    obtain ⟨c, d, rfl | ⟨a, rfl, -⟩, rfl⟩ := hmay
    · obtain ⟨rfl, hctl⟩ | ⟨rfl, rfl⟩ := eventCtl_cases hr
      · obtain rfl := epollCtl_del hctl
        exact ⟨⟨.inl rfl, by simp⟩, moved_del_lulled hw hs⟩
      · refine ⟨⟨.inr rfl, by simp⟩, ?_⟩
        simpa [Hold.next, Hold.gives, hneg] using moved_del_refused hw hs
    · obtain ⟨rfl, hctl⟩ | ⟨rfl, rfl⟩ := eventCtl_cases hr
      · obtain rfl := epollCtl_del hctl
        exact ⟨⟨.inl rfl, by simp⟩, moved_del_closing hw hs⟩
      · refine ⟨⟨.inr rfl, by simp⟩, ?_⟩
        simpa [Hold.next, Hold.gives, hneg] using (Alike.refl w').moved hw hs

theorem moved_call {o : Op} {r : Ret o} (hw : Sane w) (hs : Sees w h) (hmay : h.may luck onLoop o)
    (hloop : ∀ f a, h = .fd f a → onLoop = true) (hgrant : luck.Grants onLoop o r)
    (hr : respond w o r = some w') :
    h.allows luck o r ∧ Moved w w' h (h.next o r) (h.gives o r) := by
  cases o
  case load c => exact moved_load hw hs hmay.1 hr
  case store c d' =>
    obtain ⟨d, rfl, hfd, ht, hd'⟩ | ⟨d, a, rfl, hfd, hd', -, -⟩ := hmay
    · obtain rfl : w.setConn c (some d') = w' := by simpa [respond, hs.1.conn] using hr
      exact ⟨trivial, moved_store_fresh hw hs hfd ht hd'⟩
    · obtain rfl : w.setConn c (some d') = w' := by simpa [respond, hs.1.conn] using hr
      exact ⟨trivial, moved_store_held hw hs hfd hd'⟩
  case callocConnection f =>
    obtain rfl : h = .fd f true := hmay
    cases r with
    | none =>
      obtain rfl := Option.some.inj hr
      refine ⟨hgrant, hw, (Alike.refl w).touches _, trivial, (fun _ _ _ hg => nomatch hg), ?_⟩
      intro f' hdesc
      obtain rfl := Option.some.inj hdesc
      exact .inr (.inr hs.entry)
    | some c =>
      simp only [respond] at hr
      split at hr
      · rename_i hc
        subst hc
        obtain rfl := Option.some.inj hr
        exact ⟨fun _ => nofun, moved_callocConnection hw hs⟩
      · cases hr
  case freeConnection c =>
    obtain ⟨d, a, rfl⟩ := hmay
    obtain rfl : w.setConn c none = w' := by simpa [respond, hs.1.conn] using hr
    exact ⟨trivial, moved_freeConnection hw hs⟩
  case setHandler f h' =>
    obtain ⟨c, d, a, rfl, rfl, hh', ha⟩ := hmay
    exact moved_setHandler hw hs hh' (fun hnoop => ha.resolve_right fun hworker => hworker.2 hnoop) hr
  case eventCtl op f event => exact moved_eventCtl hw hs hmay hloop hgrant hr
  case scheduleRegister f h' c =>
    obtain ⟨d, rfl, rfl, hh'⟩ := hmay
    obtain ⟨hret, hmoved⟩ := moved_scheduleRegister hw hs hh' hr
    exact ⟨⟨hret, hgrant⟩, hmoved⟩
  case scheduleUnregister f c =>
    obtain ⟨d, a, rfl, rfl, -⟩ := hmay
    exact ⟨trivial, moved_scheduleUnregister hw hs hr⟩
  case accept =>
    obtain ⟨-, rfl⟩ := hmay
    cases r with
    | none =>
      obtain rfl := Option.some.inj hr
      exact ⟨trivial, (Alike.refl w).moved hw hs⟩
    | some f =>
      simp only [respond] at hr
      split at hr
      · rename_i hf
        obtain rfl := Option.some.inj hr
        exact ⟨trivial, moved_accept hw hf.1 hf.2⟩
      · cases hr
  case close f =>
    obtain rfl := Option.some.inj hr
    obtain ⟨a, rfl⟩ | ⟨c, d, a, rfl, rfl⟩ := hmay
    · exact ⟨trivial, moved_close_fd hw hs⟩
    · exact ⟨trivial, moved_close_closing hw hs⟩
  case pushTask task =>
    obtain ⟨d, rfl, -⟩ := hmay
    obtain rfl := Option.some.inj hr
    exact ⟨trivial, moved_pushTask hw hs _⟩
  all_goals exact moved_plain rfl hw hs hgrant hr

end
end TinyosGraphics.Server
