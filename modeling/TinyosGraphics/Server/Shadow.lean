import TinyosGraphics.Server.Turns

/-! A worker among connections that somebody else takes away: as long as its own is left alone, it
does what it would do if nothing had been taken. -/
namespace TinyosGraphics.Server
open Lib Event Core

section
variable {H C : Type} {te te' : TgxEvent H C}

theorem slotAt_fin (i : Fin te.maxfds) : te.slotAt i = te.schedArray i := by
  simp [TgxEvent.slotAt, rawIndex]

theorem slotAt_cases {j : Nat} {e : Schedule H C} (h : te.slotAt j = some e) :
    ∃ i : Fin te.maxfds, i.val = j ∧ te.schedArray i = some e := by
  obtain ⟨i, hi, he⟩ := Option.bind_eq_some_iff.mp h
  unfold rawIndex at hi
  split at hi
  · exact ⟨i, by rw [← Option.some.inj hi]; simp, he⟩
  · cases hi

theorem slotAt_setSlot (i : Fin te.maxfds) (s : Option (Schedule H C)) (j : Nat) :
    (te.setSlot i s).slotAt j = if j = i then s else te.slotAt j := by
  by_cases hj : j < te.maxfds
  · by_cases hi : j = i
    · subst hi
      simp [TgxEvent.slotAt, TgxEvent.setSlot, rawIndex]
    · have hne : (⟨j, hj⟩ : Fin te.maxfds) ≠ i := fun h => hi (congrArg Fin.val h)
      simp [TgxEvent.slotAt, TgxEvent.setSlot, rawIndex, hj, hi, Function.update_of_ne hne]
  · have hi : j ≠ i := by
      rintro rfl
      exact hj i.isLt
    simp [TgxEvent.slotAt, TgxEvent.setSlot, rawIndex, hj, hi]

/-- A descriptor with an entry has it in a slot. -/
theorem lookup_slotAt {f : Int} {e : Schedule H C} (h : te.lookup f = some e) :
    ∃ j, j < te.maxfds ∧ te.slotAt j = some e := by
  obtain ⟨i, -, he⟩ := Option.bind_eq_some_iff.mp h
  exact ⟨i, i.isLt, (slotAt_fin i).trans he⟩

theorem slotAt_lookup {j : Nat} {e : Schedule H C} (hw : te.WellFormed) (h : te.slotAt j = some e) :
    te.lookup e.fd = some e := by
  obtain ⟨i, -, he⟩ := slotAt_cases h
  exact (SlotTable.get_eq_some_iff hw).mpr ⟨i, he, rfl⟩

theorem slotAt_unique {i j : Nat} {e e' : Schedule H C} (hw : te.WellFormed) (he : te.slotAt i = some e)
    (he' : te.slotAt j = some e') (hfd : e.fd = e'.fd) : i = j := by
  obtain ⟨k, rfl, hk⟩ := slotAt_cases he
  obtain ⟨l, rfl, hl⟩ := slotAt_cases he'
  rw [hw k l e e' hk hl hfd]

def Shrinks (te te' : TgxEvent H C) : Prop :=
  ∀ j e', te'.slotAt j = some e' → ∃ e, te.slotAt j = some e ∧ e.context = e'.context

theorem Shrinks.refl (te : TgxEvent H C) : Shrinks te te :=
  fun _ e h => ⟨e, h, rfl⟩

private theorem shrinks_setHandler {f r : Int} {h : Option H} (hset : tgxEventSetHandler te f h none = some (r, te')) :
    Shrinks te te' := by
  obtain ⟨-, rfl⟩ | ⟨i, s, -, hs, -, -, -, rfl⟩ := TgxEvent.setHandler_cases hset
  · exact .refl _
  · intro j e' he'
    rw [slotAt_setSlot] at he'
    split at he'
    · rename_i hj
      obtain rfl := Option.some.inj he'
      exact ⟨s, by rw [hj, slotAt_fin, hs], rfl⟩
    · exact ⟨e', he', rfl⟩

private theorem shrinks_unregister {f r : Int} (hun : tgxEventScheduleUnregister te f = some (r, te')) :
    Shrinks te te' := by
  obtain ⟨-, rfl⟩ | ⟨-, i, s, -, -, -, rfl⟩ := TgxEvent.unregister_cases hun
  · exact .refl _
  · intro j e' he'
    have he' : (te.setSlot i none).slotAt j = some e' := he'
    rw [slotAt_setSlot] at he'
    split at he'
    · cases he'
    · exact ⟨e', he', rfl⟩

theorem epollFd_setHandler {f r : Int} {h : Option H}
    (hset : tgxEventSetHandler te f h none = some (r, te')) : te'.epollFd = te.epollFd := by
  obtain ⟨-, rfl⟩ | ⟨i, s, -, -, -, -, -, rfl⟩ := TgxEvent.setHandler_cases hset
  · rfl
  · rfl

theorem epollFd_unregister {f r : Int} (hun : tgxEventScheduleUnregister te f = some (r, te')) :
    te'.epollFd = te.epollFd := by
  obtain ⟨-, rfl⟩ | ⟨-, i, s, -, -, -, rfl⟩ := TgxEvent.unregister_cases hun
  · rfl
  · rfl

end

/-- `w` is `v` with the epoll descriptor closed, and without some descriptors and connections. What is
left of them in the interest set and among the open descriptors does not matter to a worker. -/
structure Beside (gone : Int → Prop) (freed : ConnId → Prop) (v w : World) : Prop where
  rest : w = { v with te := w.te, interest := w.interest, sockets := w.sockets, conns := w.conns }
  wellFormed : w.te.WellFormed
  epollFd : w.te.epollFd = -1
  maxfds : w.te.maxfds = v.te.maxfds
  lookup : ∀ f, w.te.lookup f = v.te.lookup f ∨ gone f ∧ w.te.lookup f = none
  conns : ∀ c, ¬ freed c → w.conns c = v.conns c

section
variable {gone : Int → Prop} {freed : ConnId → Prop} {v w w' : World}

private theorem respond_plain_with (v : World) (te : TgxEvent Handler ConnId) (interest : Int → Option UInt32)
    (sockets : Int → Socket) (conns : ConnId → Option Conn) {o : Op} {r : Ret o} (ho : plain o = true) :
    respond { v with te := te, interest := interest, sockets := sockets, conns := conns } o r =
      (respond v o r).map fun v' =>
        { v' with te := te, interest := interest, sockets := sockets, conns := conns } := by
  cases o
  all_goals try cases ho
  all_goals first
    | rfl
    | simp only [respond]
      repeat' split
      all_goals rfl

theorem Beside.mono {gone' : Int → Prop} {freed' : ConnId → Prop} (hb : Beside gone freed v w)
    (hgone : ∀ f, gone f → gone' f) (hfreed : ∀ c, freed c → freed' c) : Beside gone' freed' v w where
  rest := hb.rest
  wellFormed := hb.wellFormed
  epollFd := hb.epollFd
  maxfds := hb.maxfds
  lookup f := (hb.lookup f).imp_right fun h => ⟨hgone f h.1, h.2⟩
  conns c hc := hb.conns c fun h => hc (hfreed c h)

theorem Beside.setConn (hb : Beside gone freed v w) (c : ConnId) (d : Option Conn) :
    Beside gone freed (v.setConn c d) (w.setConn c d) where
  rest := by
    rw [hb.rest]
    rfl
  wellFormed := hb.wellFormed
  epollFd := hb.epollFd
  maxfds := hb.maxfds
  lookup := hb.lookup
  conns c' hc' := by
    simp only [World.setConn_conns]
    by_cases hc : c' = c
    · rw [hc, Function.update_self, Function.update_self]
    · rw [Function.update_of_ne hc, Function.update_of_ne hc]
      exact hb.conns c' hc'

/-- `epoll_ctl` on the closed epoll descriptor fails. -/
theorem eventCtl_refused {op : CtlOp} {f : Int} {event : UInt32} {r : Int} (hclosed : w.te.epollFd = -1)
    (hr : Core.respond w (.eventCtl op f event) r = some w') : r = -1 ∧ w' = w := by
  obtain ⟨rfl, -⟩ | hrefused := eventCtl_cases hr
  · simp only [Core.respond, Event.tgxEventCtl, tgxLinuxEpollCtl, hclosed] at hr
    repeat' split at hr
    all_goals contradiction
  · exact hrefused

private theorem respond_refused (w : World) (op : CtlOp) (f : Int) (event : UInt32) :
    Core.respond w (.eventCtl op f event) (-1 : Int) = some w := by
  have hctl : Event.tgxEventCtl w.te op f event (fun _ _ _ => -1) = -1 := by
    simp only [Event.tgxEventCtl, tgxLinuxEpollCtl]
    repeat' split
    all_goals first | rfl | contradiction
  simp [Core.respond, hctl]

private theorem setConn_freed {h : Hold} {c c' : ConnId} {d : Option Conn}
    (hfreed : ∀ c, h.conn = some c → ¬ freed c) (hc : h.conn = some c) (hc' : freed c') :
    (w.setConn c d).conns c' = w.conns c' := by
  have hne : c' ≠ c := by
    rintro rfl
    exact hfreed c' hc hc'
  exact Function.update_of_ne hne _ _

theorem Beside.lookup_kept (hb : Beside gone freed v w) {f : Int} (hf : ¬ gone f) :
    w.te.lookup f = v.te.lookup f :=
  (hb.lookup f).resolve_right fun h => hf h.1

theorem Beside.setQueue (hb : Beside gone freed v w) (queue : List TgxTask) :
    Beside gone freed { v with queue := queue } { w with queue := queue } where
  rest := by
    rw [hb.rest]
  wellFormed := hb.wellFormed
  epollFd := hb.epollFd
  maxfds := hb.maxfds
  lookup := hb.lookup
  conns := hb.conns

theorem Beside.queue (hb : Beside gone freed v w) : w.queue = v.queue := by
  rw [hb.rest]

theorem Beside.setTe (hb : Beside gone freed v w) {te te' : TgxEvent Handler ConnId} {f : Int}
    {e : Option (Schedule Handler ConnId)} (hwf : te'.WellFormed) (hfd : te'.epollFd = w.te.epollFd)
    (hmax : te.maxfds = v.te.maxfds) (hmax' : te'.maxfds = w.te.maxfds)
    (hv : ∀ k, te.lookup k = if k = f then e else v.te.lookup k)
    (hw : ∀ k, te'.lookup k = if k = f then e else w.te.lookup k) :
    Beside gone freed { v with te := te } { w with te := te' } where
  rest := by
    rw [hb.rest]
  wellFormed := hwf
  epollFd := hfd.trans hb.epollFd
  maxfds := hmax'.trans (hb.maxfds.trans hmax.symm)
  lookup k := by
    show te'.lookup k = te.lookup k ∨ gone k ∧ te'.lookup k = none
    rw [hv, hw]
    split
    · exact .inl rfl
    · exact hb.lookup k
  conns := hb.conns

theorem Beside.inRange (hb : Beside gone freed v w) {f : Int} (hf : v.te.InRange f) : w.te.InRange f := by
  rwa [TgxEvent.InRange, hb.maxfds]

theorem Beside.setHandler (hb : Beside gone freed v w) (hwf : v.te.WellFormed) {f : Int} (hf : v.te.InRange f)
    {e : Schedule Handler ConnId} (he : v.te.lookup f = some e) (hh : e.handler.isSome) (hgone : ¬ gone f)
    (handler : Option Handler) :
    ∃ te te', tgxEventSetHandler v.te f handler none = some (0, te) ∧
      tgxEventSetHandler w.te f handler none = some (0, te') ∧
      Beside gone freed { v with te := te } { w with te := te' } ∧ Shrinks w.te te' := by
  have he' : w.te.lookup f = some e := (hb.lookup_kept hgone).trans he
  obtain ⟨te, hset⟩ : ∃ te, tgxEventSetHandler v.te f handler none = some (0, te) :=
    TgxEvent.setHandler_registered hwf hf he hh
  obtain ⟨te', hset'⟩ : ∃ te', tgxEventSetHandler w.te f handler none = some (0, te') :=
    TgxEvent.setHandler_registered hb.wellFormed (hb.inRange hf) he' hh
  obtain ⟨-, hmax, ⟨-, hneg⟩ | ⟨e₁, he₁, -, -, hv⟩⟩ := TgxEvent.setHandler_spec hwf hset
  · cases hneg
  obtain ⟨hwf', hmax', ⟨-, hneg⟩ | ⟨e₂, he₂, -, -, hw⟩⟩ := TgxEvent.setHandler_spec hb.wellFormed hset'
  · cases hneg
  obtain rfl := Option.some.inj (he.symm.trans he₁)
  obtain rfl := Option.some.inj (he'.symm.trans he₂)
  exact ⟨te, te', hset, hset', hb.setTe hwf' (epollFd_setHandler hset') hmax hmax' hv hw, shrinks_setHandler hset'⟩

theorem Beside.unregister (hb : Beside gone freed v w) (hwf : v.te.WellFormed) {f r : Int} (hf : v.te.InRange f)
    {te' : TgxEvent Handler ConnId} (hun' : tgxEventScheduleUnregister w.te f = some (r, te')) :
    ∃ r te, tgxEventScheduleUnregister v.te f = some (r, te) ∧
      Beside gone freed { v with te := te } { w with te := te' } ∧ Shrinks w.te te' := by
  obtain ⟨r', te, hun⟩ := TgxEvent.unregister_defined hwf hf
  obtain ⟨-, hmax, hv⟩ := TgxEvent.unregister_spec hwf hf hun
  obtain ⟨hwf', hmax', hw⟩ := TgxEvent.unregister_spec hb.wellFormed (hb.inRange hf) hun'
  exact ⟨r', te, hun, hb.setTe hwf' (epollFd_unregister hun') hmax hmax' hv hw, shrinks_unregister hun'⟩

/-- What a worker does among what is left, it could do if nothing had been taken. -/
theorem Beside.respond {luck : Luck} {h : Hold} {o : Op} {r : Ret o} (hb : Beside gone freed v w)
    (hsane : Sane v) (hs : Sees v h) (hd : Disarmed h) (hmay : h.may luck false o)
    (hgone : ∀ f, h.desc = some f → ¬ gone f) (hfreed : ∀ c, h.conn = some c → ¬ freed c)
    (hr : respond w o r = some w') :
    ∃ v', Core.respond v o r = some v' ∧ Beside gone freed v' w' ∧ Shrinks w.te w'.te ∧
      ∀ c, freed c → w'.conns c = w.conns c := by
  by_cases hplain : plain o = true
  · rw [hb.rest, respond_plain_with v _ _ _ _ hplain] at hr
    obtain ⟨v', hv', rfl⟩ := Option.map_eq_some_iff.mp hr
    obtain ⟨hte, -, -, hconns, -, -⟩ := respond_plain hplain hv'
    refine ⟨v', hv', ⟨rfl, hb.wellFormed, hb.epollFd, ?_, ?_, ?_⟩, .refl _, fun _ _ => rfl⟩
    · rw [hte]
      exact hb.maxfds
    · rw [hte]
      exact hb.lookup
    · rw [hconns]
      exact hb.conns
  · cases o
    case load c =>
      obtain ⟨hc, rfl⟩ : w.conns c = some r ∧ w = w' := by simpa [Core.respond] using hr
      refine ⟨v, ?_, hb, .refl _, fun _ _ => rfl⟩
      rw [hb.conns c (hfreed c hmay.1)] at hc
      simp [Core.respond, hc]
    case store c d' =>
      obtain ⟨d, rfl, -⟩ | ⟨d, a, rfl, -⟩ := hmay
      · exact hd.elim
      · obtain ⟨hc, rfl⟩ : (w.conns c).isSome ∧ w.setConn c (some d') = w' := by
          simpa [Core.respond] using hr
        rw [hb.conns c (hfreed c rfl)] at hc
        refine ⟨v.setConn c (some d'), by simp [Core.respond, hc], hb.setConn c _, .refl _, ?_⟩
        exact fun c' hc' => setConn_freed hfreed rfl hc'
    case callocConnection f =>
      obtain rfl : h = .fd f true := hmay
      exact hd.elim
    case freeConnection c =>
      obtain ⟨d, a, rfl⟩ := hmay
      obtain ⟨hc, rfl⟩ : (w.conns c).isSome ∧ w.setConn c none = w' := by
        simpa [Core.respond] using hr
      rw [hb.conns c (hfreed c rfl)] at hc
      refine ⟨v.setConn c none, by simp [Core.respond, hc], hb.setConn c _, .refl _, ?_⟩
      exact fun c' hc' => setConn_freed hfreed rfl hc'
    case setHandler f h' =>
      obtain ⟨c, d, a, rfl, rfl, -⟩ := hmay
      obtain ⟨-, -, hrange, handler, -, hdesc⟩ := hs
      obtain ⟨te, te', hset, hset', hbeside, hshrinks⟩ :=
        hb.setHandler hsane.wellFormed hrange hdesc.entry rfl (hgone d.fd rfl) (some h')
      obtain ⟨rfl, rfl⟩ : r = 0 ∧ { w with te := te' } = w' := by
        simpa [Core.respond, hset'] using hr
      exact ⟨{ v with te := te }, by simp [Core.respond, hset], hbeside, hshrinks, fun _ _ => rfl⟩
    case eventCtl op f event =>
      obtain ⟨rfl, rfl⟩ := eventCtl_refused hb.epollFd hr
      exact ⟨v, respond_refused v op f event, hb, .refl _, fun _ _ => rfl⟩
    case scheduleRegister f h' c =>
      obtain ⟨d, rfl, -⟩ := hmay
      exact hd.elim
    case scheduleUnregister f c =>
      obtain ⟨d, a, rfl, rfl, -⟩ := hmay
      obtain ⟨-, -, hrange, -⟩ := hs
      obtain ⟨⟨r', te'⟩, hun', rfl⟩ := Option.map_eq_some_iff.mp hr
      obtain ⟨r'', te, hun, hset, hshrinks⟩ := hb.unregister hsane.wellFormed hrange hun'
      refine ⟨{ v with te := te, closes := Function.update v.closes c (v.closes c + 1) },
        by simp [Core.respond, hun], ?_, hshrinks, fun _ _ => rfl⟩
      refine ⟨?_, hset.wellFormed, hset.epollFd, hset.maxfds, hset.lookup, hset.conns⟩
      rw [hb.rest]
    case accept =>
      cases hmay.1
    case close f =>
      obtain rfl := Option.some.inj hr
      refine ⟨_, rfl, ?_, .refl _, fun _ _ => rfl⟩
      refine ⟨?_, hb.wellFormed, hb.epollFd, hb.maxfds, hb.lookup, hb.conns⟩
      rw [hb.rest]
      rfl
    case pushTask task =>
      obtain rfl := Option.some.inj hr
      refine ⟨_, rfl, ?_, .refl _, fun _ _ => rfl⟩
      refine ⟨?_, hb.wellFormed, hb.epollFd, hb.maxfds, hb.lookup, hb.conns⟩
      rw [hb.rest]
    all_goals exact absurd rfl hplain

/-- A worker makes no connection. -/
theorem respond_unborn {luck : Luck} {h : Hold} {o : Op} {r : Ret o} {c : ConnId} (hd : Disarmed h)
    (hmay : h.may luck false o) (hr : Core.respond v o r = some w) (hc : v.conns c = none) :
    w.conns c = none := by
  cases o
  case callocConnection f =>
    obtain rfl : h = .fd f true := hmay
    exact hd.elim
  case store c' d =>
    simp only [Core.respond] at hr
    split at hr
    · rename_i hsome
      have hne : c ≠ c' := by
        rintro rfl
        rw [hc] at hsome
        cases hsome
      obtain rfl := Option.some.inj hr
      exact (Function.update_of_ne hne _ _).trans hc
    · cases hr
  case freeConnection c' =>
    simp only [Core.respond] at hr
    split at hr
    · obtain rfl := Option.some.inj hr
      by_cases hne : c = c'
      · rw [hne]
        exact Function.update_self _ _ _
      · exact (Function.update_of_ne hne _ _).trans hc
    · cases hr
  case eventCtl op f event =>
    obtain ⟨_, rfl⟩ := eventCtl_world hr
    exact hc
  case scheduleUnregister f c' =>
    obtain ⟨_, _, rfl⟩ := scheduleUnregister_world hr
    exact hc
  all_goals simp only [Core.respond] at hr
  all_goals repeat' split at hr
  all_goals first
    | exact Option.some.inj hr ▸ hc
    | cases hr

theorem conn_kept {luck : Luck} {h : Hold} {o : Op} {r : Ret o} {c : ConnId} (hd : Disarmed h)
    (hmay : h.may luck false o) (hc : h.conn = some c) :
    (h.next o r).conn = some c ∨ ∃ d a, h.gives o r = some (c, d, a) := by
  have hch := changes_call (r := r) hmay
  generalize h.next o r = h', h.gives o r = g at hch ⊢
  cases hch with
  | allocated | unallocated | registered | unregistrable | closedFd => exact hd.elim
  | returned | pushed =>
    obtain rfl := Option.some.inj hc
    exact .inr ⟨_, _, rfl⟩
  | accepted hloop => cases hloop
  | _ => exact .inl hc

end
end TinyosGraphics.Server
