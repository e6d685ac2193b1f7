import TinyosGraphics.Server.Turns

/-! What the histories of a run say about the connections that are held. -/
namespace TinyosGraphics.Server
open Lib Event Core

variable {n : Nat}

/-- Whether a connection held here is between the push of its first task and the ADD that ends its
journey. -/
def Holder.isAway : Holder n → Hold → Bool
  | .thread t, _ => !t.isLoop
  | .shelf _, .held _ _ a => !a
  | .shelf _, _ => false

/-- A registered connection has its flag set in the interest set if and only if it has been brought
back. -/
def Hold.Back : Hold → Bool → Prop
  | .held _ d a, b => b = (a && d.travelling)
  | .lulled _ d, b => b = d.travelling
  | .fresh _ _, b => b = false
  | _, _ => True

/-- What the histories say of a connection that `x` has as `h`. -/
structure Tells (s : State n) (x : Holder n) (h : Hold) (c : ConnId) : Prop where
  away : s.away c = x.isAway h
  returned : h.Back (s.returned c)
  loopFreed : s.loopFreed c = true → h = .freed c ∧ x = .thread .loop

structure Recorded (s : State n) (g : Holding n) : Prop where
  tells : ∀ x c, (g x).conn = some c → Tells s x (g x) c
  unborn : ∀ c, s.world.nextConn ≤ c → s.away c = false ∧ s.returned c = false ∧ s.loopFreed c = false
  serving : ∀ c, (g (.thread .loop)).registered = some c → s.serving = some c

section
variable {luck : Luck} {listenFd : Int} {e404 : List UInt8} {s s' : State n} {g : Holding n}

/-- The context of a descriptor is the connection that its holder has registered. -/
private theorem ctl_context {w : World} {onLoop : Bool} {h : Hold} {op : CtlOp} {f : Int} {event : UInt32}
    (hs : Sees w h) (hmay : h.may luck onLoop (.eventCtl op f event)) :
    (w.te.lookup f).bind Schedule.context = h.registered := by
  cases op with
  | MOD => exact hmay.elim
  | ADD =>
    obtain rfl | ⟨c, d, rfl, rfl, -⟩ := hmay
    · rw [hs.entry]
      rfl
    · obtain ⟨-, -, -, handler, -, hf⟩ := hs
      rw [hf.entry]
      rfl
  | DEL =>
    obtain ⟨c, d, rfl | ⟨a, rfl, -⟩, rfl⟩ := hmay
    · rw [hs.2.2.2.entry]
      rfl
    · rw [(hs.2.2 rfl).entry]
      rfl

private theorem record_other {t : Thread n} {h : Hold} {o : Op} {r : Ret o} {c : ConnId} (hs : Sees s.world h)
    (hmay : h.may luck t.isLoop o) (hc : h.conn ≠ some c) :
    (s.record t o r).away c = s.away c ∧ (s.record t o r).returned c = s.returned c ∧
      (s.record t o r).loopFreed c = s.loopFreed c := by
  cases o
  case pushTask task =>
    obtain ⟨d, rfl, -⟩ := hmay
    have hne : c ≠ task.context.tconn := by
      rintro rfl
      exact hc rfl
    exact ⟨Function.update_of_ne hne _ _, rfl, rfl⟩
  case eventCtl op f event =>
    simp only [State.record, ctl_context hs hmay]
    have hne : ∀ {c'}, h.registered = some c' → c ≠ c' := by
      rintro c' hregistered rfl
      exact hc (registered_conn hregistered)
    split
    · rename_i hregistered
      have hne := hne hregistered
      split
      · exact ⟨Function.update_of_ne hne _ _, Function.update_of_ne hne _ _, rfl⟩
      · exact ⟨rfl, rfl, rfl⟩
    · rename_i hregistered
      have hne := hne hregistered
      split
      · exact ⟨rfl, Function.update_of_ne hne _ _, rfl⟩
      · exact ⟨rfl, rfl, rfl⟩
    · exact ⟨rfl, rfl, rfl⟩
  case freeConnection c' =>
    obtain ⟨d, a, rfl⟩ := hmay
    have hne : c ≠ c' := by
      rintro rfl
      exact hc rfl
    cases t with
    | loop => exact ⟨rfl, rfl, Function.update_of_ne hne _ _⟩
    | worker i => exact ⟨rfl, rfl, rfl⟩
  case accept =>
    cases r with
    | none => exact ⟨rfl, rfl, rfl⟩
    | some f => exact ⟨rfl, rfl, rfl⟩
  all_goals exact ⟨rfl, rfl, rfl⟩

theorem Tells.congr {x : Holder n} {h : Hold} {c : ConnId} (ht : Tells s x h c) (haway : s'.away c = s.away c)
    (hreturned : s'.returned c = s.returned c) (hfreed : s'.loopFreed c = s.loopFreed c) : Tells s' x h c := by
  constructor
  · rw [haway]
    exact ht.away
  · rw [hreturned]
    exact ht.returned
  · rw [hfreed]
    exact ht.loopFreed

/-- What a thread still has in the same way, or in a way that the histories do not tell apart. -/
private theorem Tells.carry {t : Thread n} {h h' : Hold} {c : ConnId} (ht : Tells s (.thread t) h c)
    (haway : s'.away c = s.away c) (hreturned : s'.returned c = s.returned c) (hfreed : s'.loopFreed c = s.loopFreed c)
    (hback : h.Back (s.returned c) → h'.Back (s.returned c)) (hne : h ≠ .freed c) : Tells s' (.thread t) h' c := by
  constructor
  · exact haway.trans ht.away
  · rw [hreturned]
    exact hback ht.returned
  · rw [hfreed]
    exact fun hl => absurd (ht.loopFreed hl).1 hne

/-- A call that leaves everything in the hands is not recorded for a connection. -/
private theorem record_stay {t : Thread n} {h : Hold} {o : Op} {r : Ret o} (hs : Sees s.world h)
    (hmay : h.may luck t.isLoop o)
    (hnext : h.next o r = h) : (s.record t o r).away = s.away ∧ (s.record t o r).returned = s.returned ∧
      (s.record t o r).loopFreed = s.loopFreed := by
  cases o
  case pushTask task =>
    obtain ⟨d, rfl, -⟩ := hmay
    cases hnext
  case freeConnection c =>
    obtain ⟨d, a, rfl⟩ := hmay
    cases hnext
  case accept =>
    cases r with
    | none => exact ⟨rfl, rfl, rfl⟩
    | some f => exact ⟨rfl, rfl, rfl⟩
  case eventCtl op f event =>
    simp only [State.record, ctl_context hs hmay]
    by_cases h0 : r = 0
    · subst h0
      cases op with
      | MOD => exact hmay.elim
      | ADD =>
        obtain rfl | ⟨c, d, rfl, -⟩ := hmay
        · cases hnext
        · cases hnext
      | DEL =>
        obtain ⟨c, d, rfl | ⟨a, rfl, -⟩, -⟩ := hmay
        · cases hnext
        · simp only [Hold.registered, and_self]
    · split
      · simp only [if_neg h0, and_self]
      · simp only [if_neg h0, and_self]
      · exact ⟨rfl, rfl, rfl⟩
  all_goals exact ⟨rfl, rfl, rfl⟩

private theorem tells_next {t : Thread n} {h : Hold} {o : Op} {r : Ret o} {w' : World} {c : ConnId}
    (hs : Sees s.world h) (hmay : h.may luck t.isLoop o) (hr : respond s.world o r = some w')
    (hworker : ∀ i, t = .worker i → Disarmed h) (hold : ∀ c, h.conn = some c → Tells s (.thread t) h c)
    (hnew : ∀ c, s.world.nextConn ≤ c → s.away c = false ∧ s.returned c = false ∧ s.loopFreed c = false)
    (hc : (h.next o r).conn = some c) : Tells (s.record t o r) (.thread t) (h.next o r) c := by
  have hloop : ¬ Disarmed h → t = .loop := by
    intro hnot
    cases t with
    | loop => rfl
    | worker i => exact absurd (hworker i rfl) hnot
  have hch := changes_call (r := r) hmay
  generalize h.next o r = h', h.gives o r = g at hch hc ⊢
  cases hch with
  | stay _ hnext =>
    obtain ⟨haway, hreturned, hfreed⟩ := record_stay hs hmay hnext
    exact (hold c hc).congr (by rw [haway]) (by rw [hreturned]) (by rw [hfreed])
  | storeFresh => exact (hold c hc).carry rfl rfl rfl id (by simp)
  | @storeHeld c' d d' a _ _ hset hflag =>
    refine (hold c hc).carry rfl rfl rfl ?_ (by simp)
    intro hback
    show s.returned c = (a && d'.travelling)
    rw [show s.returned c = (a && d.travelling) from hback]
    cases a with
    | false => rfl
    | true =>
      have hiff : d'.travelling = true ↔ d.travelling = true :=
        ⟨fun h => (hflag h).resolve_right (by simp), hset⟩
      rw [Bool.true_and, Bool.true_and]
      exact Bool.eq_iff_iff.mpr hiff.symm
  | @allocated f c' =>
    obtain rfl := Option.some.inj hc
    obtain rfl := hloop id
    simp only [respond] at hr
    split at hr
    · rename_i hfresh
      obtain ⟨haway, hreturned, hfreed⟩ := hnew c' hfresh.ge
      refine ⟨haway, hreturned, ?_⟩
      intro hl
      rw [show (s.record .loop (.callocConnection f) (some c')).loopFreed c' = s.loopFreed c' from rfl, hfreed] at hl
      cases hl
    · cases hr
  | freed =>
    obtain rfl := Option.some.inj hc
    obtain ⟨haway, -, hfreed⟩ := hold _ rfl
    cases t with
    | loop => exact ⟨haway, trivial, fun _ => ⟨rfl, rfl⟩⟩
    | worker i => exact ⟨haway, trivial, fun hl => by cases (hfreed hl).1⟩
  | lulled => exact (hold c hc).carry rfl rfl rfl id (by simp)
  | @disarmed c' d event =>
    obtain rfl := Option.some.inj hc
    obtain rfl := hloop id
    obtain ⟨haway, -, hfreed⟩ := hold c' rfl
    have hrecord : s.record .loop (.eventCtl .DEL d.fd event) (0 : Int) =
        { s with returned := Function.update s.returned c' false } := by
      simp only [State.record, ctl_context hs hmay, Hold.registered, if_pos]
    rw [hrecord]
    exact ⟨haway, Function.update_self _ _ _, fun hl => by cases (hfreed hl).1⟩
  | @woken c' d event r h0 =>
    obtain rfl := hloop id
    have hrecord : s.record .loop (.eventCtl .DEL d.fd event) r = s := by
      simp only [State.record, ctl_context hs hmay, Hold.registered, if_neg h0]
    rw [hrecord]
    exact (hold c hc).carry rfl rfl rfl id (by simp)
  | @disarmedClosing c' d a event =>
    have hrecord : s.record t (.eventCtl .DEL d.fd event) (0 : Int) = s := by
      simp only [State.record, ctl_context hs hmay, Hold.registered]
    rw [hrecord]
    exact (hold c hc).carry rfl rfl rfl id (by simp)
  | unregistered | closed => exact (hold c hc).carry rfl rfl rfl (fun _ => trivial) (by simp)
  | _ => cases hc

private theorem tells_given {t : Thread n} {h : Hold} {o : Op} {r : Ret o} {c : ConnId} {d : Conn} {a : Bool}
    (hs : Sees s.world h) (hmay : h.may luck t.isLoop o) (hold : ∀ c, h.conn = some c → Tells s (.thread t) h c)
    (hfresh : ∀ c d, h = .fresh c d → t = .loop) (hg : h.gives o r = some (c, d, a)) :
    Tells (s.record t o r) (.shelf c) (.held c d a) c := by
  have hch := changes_call (r := r) hmay
  rw [hg] at hch
  generalize h.next o r = h' at hch
  cases hch with
  | @returned _ _ event ht hthread =>
    obtain ⟨i, rfl⟩ : ∃ i, t = .worker i := by
      cases t with
      | loop => cases hthread
      | worker i => exact ⟨i, rfl⟩
    obtain ⟨-, -, hfreed⟩ := hold c rfl
    have hrecord : s.record (.worker i) (.eventCtl .ADD d.fd event) (0 : Int) =
        { s with
          away := Function.update s.away c false
          returned := Function.update s.returned c true } := by
      simp only [State.record, ctl_context hs hmay, Hold.registered, if_pos]
    rw [hrecord]
    refine ⟨Function.update_self _ _ _, ?_, fun hl => by cases (hfreed hl).1⟩
    show Function.update s.returned c true c = (true && d.travelling)
    rw [Function.update_self, ht]
    rfl
  | registered =>
    obtain rfl := hfresh c d rfl
    obtain ⟨haway, hreturned, hfreed⟩ := hold c rfl
    refine ⟨haway, ?_, fun hl => by cases (hfreed hl).1⟩
    show s.returned c = (true && d.travelling)
    rw [hs.2.2.1]
    exact hreturned
  | pushed =>
    obtain ⟨-, hreturned, hfreed⟩ := hold _ rfl
    exact ⟨Function.update_self _ _ _, hreturned, fun hl => by cases (hfreed hl).1⟩

private theorem next_registered {h : Hold} {onLoop : Bool} {o : Op} {r : Ret o} {c : ConnId}
    (hmay : h.may luck onLoop o) (hc : (h.next o r).registered = some c) : h.registered = some c := by
  have hch := changes_call (r := r) hmay
  generalize h.next o r = h', h.gives o r = g at hch hc
  cases hch with
  | stay | storeHeld | lulled | disarmed | woken => exact hc
  | _ => cases hc

theorem record_serving (s : State n) (t : Thread n) (o : Op) (r : Ret o) :
    (s.record t o r).serving = s.serving := by
  unfold State.record
  repeat' split
  all_goals rfl

theorem Recorded.call (hrec : Recorded s g) (hi : Inv luck listenFd s g) {t : Thread n}
    {r : (o : Op) × Ret o} (hok : Orderly luck s (.call t r)) (hs : s.call t r = some s') :
    Recorded s' (g.after s (.call t r)) := by
  obtain ⟨o, r⟩ := r
  obtain ⟨k, w', hp, hr, rfl⟩ := State.call_cases hs
  dsimp only at k hp hr
  have hsees := hi.owned.sees (.thread t)
  have hmay : (g (.thread t)).may luck t.isLoop o := (hi.busy t _ hp).1
  obtain ⟨-, hm⟩ := moved_call hi.owned.sane hsees hmay (fun _ _ hf => hi.owned.fd_on_loop hf) hok.2 hr
  have hworker : ∀ i, t = .worker i → Disarmed (g (.thread t)) := by
    rintro i rfl
    exact hi.owned.workers i
  constructor
  · intro x c hc
    obtain ⟨rfl, hput⟩ | ⟨c', d, a, hg, rfl, hput⟩ | ⟨hx, -, hput⟩ := g.put_cases t
      ((g (.thread t)).next o r) ((g (.thread t)).gives o r) x
    · simp only [Holding.after, hput] at hc ⊢
      exact (tells_next hsees hmay hr hworker (hrec.tells _) hrec.unborn hc).congr rfl rfl rfl
    · simp only [Holding.after, hput] at hc ⊢
      obtain rfl := Option.some.inj hc
      have hfresh : ∀ c d, g (.thread t) = .fresh c d → t = .loop := by
        intro c d hfresh
        cases t with
        | loop => rfl
        | worker i =>
          have hnot := hi.owned.workers i
          rw [hfresh] at hnot
          exact hnot.elim
      exact (tells_given hsees hmay (hrec.tells _) hfresh hg).congr rfl rfl rfl
    · simp only [Holding.after, hput] at hc ⊢
      have hnot : (g (.thread t)).conn ≠ some c := fun hown => hx (hi.owned.alone _ _ c hc hown)
      obtain ⟨haway, hreturned, hfreed⟩ := record_other (r := r) hsees hmay hnot
      exact (hrec.tells x c hc).congr haway hreturned hfreed
  · intro c hc
    have hborn : s.world.nextConn ≤ c := hm.touches.nextConn.trans hc
    have hnot : (g (.thread t)).conn ≠ some c := by
      intro hown
      exact absurd (hsees.born hi.owned.sane hown) (not_lt.mpr hborn)
    obtain ⟨haway, hreturned, hfreed⟩ := record_other (r := r) hsees hmay hnot
    obtain ⟨haway', hreturned', hfreed'⟩ := hrec.unborn c hborn
    exact ⟨haway.trans haway', hreturned.trans hreturned', hfreed.trans hfreed'⟩
  · intro c hc
    show (s.record t o r).serving = some c
    rw [record_serving]
    apply hrec.serving
    by_cases ht : .loop = t
    · subst ht
      simp only [Holding.after, Holding.put_thread] at hc
      exact next_registered hmay hc
    · simp only [Holding.after, g.put_other ht] at hc
      exact hc

theorem Tells.move {x y : Holder n} {c : ConnId} {d : Conn} {a : Bool} (ht : Tells s x (.held c d a) c)
    (haway : y.isAway (.held c d a) = x.isAway (.held c d a)) : Tells s y (.held c d a) c where
  away := ht.away.trans haway.symm
  returned := ht.returned
  loopFreed hl := nomatch (ht.loopFreed hl).1

theorem Recorded.swap (hrec : Recorded s g) {g' : Holding n}
    (haway : s'.away = s.away) (hreturned : s'.returned = s.returned) (hfreed : s'.loopFreed = s.loopFreed)
    (hnext : s'.world.nextConn = s.world.nextConn)
    (hg : ∀ x, g' x = g x ∨ g' x = .nothing ∨ ∃ y c d a, g y = .held c d a ∧ g' x = .held c d a ∧
      x.isAway (.held c d a) = y.isAway (.held c d a))
    (hserving : ∀ c, (g' (.thread .loop)).registered = some c → s'.serving = some c) : Recorded s' g' := by
  constructor
  · intro x c hc
    have htells : Tells s x (g' x) c := by
      obtain hsame | hnone | ⟨y, c', d, a, hy, hx, hsame⟩ := hg x
      · rw [hsame] at hc ⊢
        exact hrec.tells x c hc
      · rw [hnone] at hc
        cases hc
      · rw [hx] at hc ⊢
        obtain rfl := Option.some.inj hc
        have hold := hrec.tells y c' (by rw [hy]; rfl)
        rw [hy] at hold
        exact hold.move hsame
    exact htells.congr (by rw [haway]) (by rw [hreturned]) (by rw [hfreed])
  · rw [hnext, haway, hreturned, hfreed]
    exact hrec.unborn
  · exact hserving

theorem Holding.pick_cases (g : Holding n) (t : Thread n) (c : ConnId) (x : Holder n) :
    (x = .thread t ∧ g.pick t c x = g (.shelf c)) ∨ (x = .shelf c ∧ g.pick t c x = .nothing) ∨
      g.pick t c x = g x := by
  by_cases hc : x = .shelf c
  · subst hc
    exact .inr (.inl ⟨rfl, Function.update_self _ _ _⟩)
  · by_cases ht : x = .thread t
    · subst ht
      exact .inl ⟨rfl, g.pick_thread t c⟩
    · exact .inr (.inr (by rw [pick, Function.update_of_ne hc, Function.update_of_ne ht]))

/-- The loop takes an armed connection from its shelf and serves it, or takes nothing. -/
theorem Inv.after_iterate (hi : Inv luck listenFd s g) {fuel : Nat} (hs : s.iterate fuel = some s') :
    g.after s (.iterate fuel) = g ∨ ∃ c d, g (.shelf c) = .held c d true ∧
      g.after s (.iterate fuel) = g.pick .loop c ∧ s'.serving = some c ∧ s'.accepted = [] := by
  obtain ⟨hidle, left, event, -, hcases⟩ := iterate_spec hi.owned.sane hs
  simp only [Holding.after]
  split
  · rename_i c hcontext
    split
    · rename_i c' d hheld
      obtain hnone | ⟨d', a, hheld', -⟩ := hi.owned.shelves c
      · rw [hnone] at hheld
        cases hheld
      · rw [hheld'] at hheld
        obtain ⟨rfl, rfl, rfl⟩ := Hold.held.inj hheld
        obtain ⟨hnone, -⟩ | ⟨handler, -, rfl⟩ := hcases
        · obtain ⟨e, he, hc⟩ := Option.bind_eq_some_iff.mp hcontext
          obtain ⟨⟨handler, hhandler, -⟩, -⟩ := hi.found hidle he hc
          rw [he, Option.bind_some, hhandler] at hnone
          cases hnone
        · exact .inr ⟨c, d', hheld', rfl, hcontext, rfl⟩
    · exact .inl rfl
  · exact .inl rfl

theorem Recorded.iterate (hrec : Recorded s g) (hi : Inv luck listenFd s g) {fuel : Nat}
    (hs : s.iterate fuel = some s') : Recorded s' (g.after s (.iterate fuel)) := by
  obtain ⟨hidle, left, event, -, hcases⟩ := iterate_spec hi.owned.sane hs
  have hempty := hi.idle .loop hidle
  have hafter := hi.after_iterate hs
  have hsame : s'.away = s.away ∧ s'.returned = s.returned ∧ s'.loopFreed = s.loopFreed ∧
      s'.world.nextConn = s.world.nextConn := by
    obtain ⟨-, rfl⟩ | ⟨handler, -, rfl⟩ := hcases
    · exact ⟨rfl, rfl, rfl, rfl⟩
    · exact ⟨rfl, rfl, rfl, rfl⟩
  obtain ⟨haway, hreturned, hfreed, hnext⟩ := hsame
  apply hrec.swap haway hreturned hfreed hnext
  · intro x
    obtain hg | ⟨c, d, hheld, hg, -⟩ := hafter
    · exact .inl (by rw [hg])
    · rw [hg]
      obtain ⟨rfl, hx⟩ | ⟨-, hx⟩ | hx := g.pick_cases .loop c x
      · exact .inr (.inr ⟨.shelf c, c, d, true, hheld, by rw [hx, hheld], rfl⟩)
      · exact .inr (.inl hx)
      · exact .inl hx
  · intro c hc
    obtain hg | ⟨c', d, hheld, hg, hserving, -⟩ := hafter
    · rw [hg, hempty] at hc
      cases hc
    · rw [hg, Holding.pick_thread, hheld] at hc
      obtain rfl := Option.some.inj hc
      exact hserving

theorem Recorded.take (hrec : Recorded s g) (hi : Inv luck listenFd s g) {i : Fin n}
    (hs : s.take e404 i = some s') : Recorded s' (g.after s (.take i)) := by
  obtain ⟨-, task, queue, hqueue, rfl⟩ := State.take_cases hs
  obtain ⟨d, hheld⟩ := (hi.owned.queue task.context.tconn).mp (by simp [queued, hqueue])
  have hg : g.after s (.take i) = g.pick (.worker i) task.context.tconn := by
    simp [Holding.after, hqueue]
  rw [hg]
  refine hrec.swap ?_ ?_ ?_ ?_ ?_ ?_
  iterate 4 rfl
  · intro x
    obtain ⟨rfl, hx⟩ | ⟨-, hx⟩ | hx := g.pick_cases (.worker i) task.context.tconn x
    · exact .inr (.inr ⟨.shelf task.context.tconn, _, d, false, hheld, by rw [hx, hheld], rfl⟩)
    · exact .inr (.inl hx)
    · exact .inl hx
  · intro c hc
    rw [g.pick_other (Thread.loop_ne_worker i)] at hc
    exact hrec.serving c hc

theorem Holding.leave_cases (g : Holding n) (t : Thread n) :
    g.leave t = g.put t .nothing Option.none ∨ ∃ c d a,
      g (.thread t) = .held c d a ∧ g.leave t = g.put t .nothing (some (c, d, a)) := by
  unfold leave
  split
  · rename_i c d a hheld
    exact .inr ⟨c, d, a, hheld, rfl⟩
  · exact .inl rfl

theorem Recorded.leave (hrec : Recorded s g) (hi : Inv luck listenFd s g) {t : Thread n}
    (hs : s.leave t = some s') : Recorded s' (g.after s (.leave t)) := by
  obtain ⟨ret, hret, rfl⟩ := State.leave_cases hs
  have hends : Ends luck t (g (.thread t)) ret := hi.busy t _ hret
  have hafter := g.leave_cases t
  rw [Holding.after]
  refine hrec.swap ?_ ?_ ?_ ?_ ?_ ?_
  iterate 4 rfl
  · intro x
    obtain hg | ⟨c, d, a, hheld, hg⟩ := hafter
    · rw [hg]
      obtain ⟨-, hx⟩ | ⟨_, _, _, hgiven, -⟩ | ⟨-, -, hx⟩ := g.put_cases t .nothing none x
      · exact .inr (.inl hx)
      · cases hgiven
      · exact .inl hx
    · rw [hg]
      obtain ⟨-, hx⟩ | ⟨c', d', a', hgiven, rfl, hx⟩ | ⟨-, -, hx⟩ :=
        g.put_cases t .nothing (some (c, d, a)) x
      · exact .inr (.inl hx)
      · obtain ⟨rfl, rfl, rfl⟩ := by simpa using hgiven
        refine .inr (.inr ⟨.thread t, c, d, a, hheld, hx, ?_⟩)
        rw [hheld] at hends
        cases t with
        | loop =>
          obtain rfl := hends.1
          rfl
        | worker i =>
          obtain hnone | ⟨_, hfreed⟩ := hends
          · cases hnone
          · cases hfreed
      · exact .inl hx
  · intro c hc
    apply hrec.serving
    by_cases ht : .loop = t
    · subst ht
      obtain hg | ⟨c', d, a, -, hg⟩ := hafter
      · rw [hg, Holding.put_thread] at hc
        cases hc
      · rw [hg, Holding.put_thread] at hc
        cases hc
    · obtain hg | ⟨c', d, a, -, hg⟩ := hafter
      · rwa [hg, g.put_other ht] at hc
      · rwa [hg, g.put_other ht] at hc

theorem Recorded.step (hrec : Recorded s g) (hi : Inv luck listenFd s g) {l : Label n}
    (hok : Orderly luck s l) (hs : State.step e404 s l = some s') : Recorded s' (g.after s l) := by
  cases l with
  | poll wait =>
    obtain ⟨-, -, -, -, nEvent, te, -, ⟨-, rfl⟩ | ⟨-, rfl⟩⟩ := State.poll_cases hs
    · exact ⟨fun x c hc => (hrec.tells x c hc).congr rfl rfl rfl, hrec.unborn, hrec.serving⟩
    · exact ⟨fun x c hc => (hrec.tells x c hc).congr rfl rfl rfl, hrec.unborn, hrec.serving⟩
  | iterate fuel => exact hrec.iterate hi hs
  | take i => exact hrec.take hi hs
  | call t r => exact hrec.call hi hok hs
  | leave t => exact hrec.leave hi hs

end

theorem recorded_of_reachable {luck : Luck} {e404 : List UInt8} {listenFd : Int} {x : State n × Holding n}
    (h : (watched n e404 listenFd).Reachable (fun x l => Orderly luck x.1 l) x) : Recorded x.1 x.2 := by
  apply h.invariant_of
  · rintro ⟨s, g⟩ ⟨hs, rfl⟩
    constructor
    · exact fun _ _ hc => nomatch hc
    · intro c _
      have hs : s.Fresh listenFd := hs
      simp [hs.away, hs.returned, hs.loopFreed]
    · exact fun _ hc => nomatch hc
  · intro x l y hx hrec hok hstep
    obtain ⟨hs, hg⟩ := Transition.instrument_step hstep
    rw [hg]
    exact hrec.step (inv_of_reachable hx) hok hs

/-- Who holds what at the end of an orderly run. -/
theorem watched_of_reachable {luck : Luck} {e404 : List UInt8} {listenFd : Int} {s : State n}
    (h : (system n e404 listenFd).Reachable (Orderly luck) s) :
    ∃ g, Inv luck listenFd s g ∧ Recorded s g := by
  obtain ⟨g, hg⟩ := h.instrument Holding.none Holding.after
  exact ⟨g, inv_of_reachable hg, recorded_of_reachable hg⟩

theorem orderly_none {e404 : List UInt8} {listenFd : Int} {s : State n}
    (h : (system n e404 listenFd).Reachable State.SwitchesLate s) :
    (system n e404 listenFd).Reachable (Orderly .none) s :=
  h.mono fun _ l hok => ⟨hok, l.granted_none⟩

end TinyosGraphics.Server
