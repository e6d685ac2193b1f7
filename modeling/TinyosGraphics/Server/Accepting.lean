import TinyosGraphics.Server.Handover

/-! Every descriptor that is accepted gets its connection and its entry, or is closed. -/
namespace TinyosGraphics.Server
open Lib Event Core

variable {n : Nat}

/-- The hands of a thread that has no connection with an entry. -/
def Hold.Newcomer : Hold → Prop
  | .nothing | .fd _ _ | .fresh _ _ => True
  | _ => False

/-- Every descriptor in the interest set has an entry or is being given one, and every descriptor that
the running handler has accepted is closed, being worked on, or waiting with its entry. -/
structure Tended (w : World) (fds : List Int) (g : Holding n) : Prop where
  armed : ∀ f, (w.interest f).isSome → (w.te.lookup f).isSome ∨ (g (.thread .loop)).desc = some f
  accepted : ∀ f ∈ fds, w.sockets f = .closed ∨ (g (.thread .loop)).desc = some f ∨
    ∃ c d, g (.shelf c) = .held c d true ∧ d.fd = f
  newcomer : fds ≠ [] → (g (.thread .loop)).Newcomer

section
variable {luck : Luck} {onLoop : Bool} {w w' : World} {h : Hold} {o : Op} {r : Ret o} {f : Int}

/-- Where new connections are refused nothing, a descriptor is kept, put down with its entry, or
closed. -/
private theorem desc_call (haccepting : luck.accepting) (hmay : h.may luck onLoop o) (hgrant : luck.Grants onLoop o r)
    (hr : respond w o r = some w') (hf : h.desc = some f) :
    (h.next o r).desc = some f ∨ (∃ c d a, h.gives o r = some (c, d, a) ∧ d.fd = f) ∨
      w'.sockets f = .closed ∧ w'.interest f = none := by
  have hch := changes_call (r := r) hmay
  generalize h.next o r = h', h.gives o r = g at hch ⊢
  cases hch with
  | storeFresh hfd => exact .inl (by simpa [Hold.desc, hfd] using hf)
  | storeHeld hfd => exact .inl (by simpa [Hold.desc, hfd] using hf)
  | unallocated => exact absurd rfl (hgrant haccepting)
  | unregistrable hneg => exact absurd (hgrant haccepting) hneg
  | freed | accepted => cases hf
  | returned | registered | pushed => exact .inr (.inl ⟨_, _, _, rfl, Option.some.inj hf⟩)
  | closedFd | closed =>
    obtain rfl := Option.some.inj hr
    obtain rfl := Option.some.inj hf
    exact .inr (.inr ⟨Function.update_self _ _ _, Function.update_self _ _ _⟩)
  | _ => exact .inl hf

private theorem newcomer_call (hn : h.Newcomer) (hmay : h.may luck onLoop o) : (h.next o r).Newcomer := by
  have hch := changes_call (r := r) hmay
  generalize h.next o r = h', h.gives o r = g at hch
  cases hch with
  | stay => exact hn
  | storeFresh | allocated | unallocated | armed | returned | registered | unregistrable | accepted | closedFd
  | pushed => trivial
  | _ => exact hn.elim

private theorem closed_call (hs : Sees w h) (hmay : h.may luck onLoop o) (hr : respond w o r = some w')
    (hclosed : w.sockets f = .closed) :
    w'.sockets f = .closed ∨ onLoop = true ∧ (h.next o r).desc = some f := by
  cases o
  case callocConnection f' =>
    obtain rfl : h = .fd f' true := hmay
    cases r with
    | none =>
      obtain rfl := Option.some.inj hr
      exact .inl hclosed
    | some c =>
      simp only [respond] at hr
      split at hr
      · obtain rfl := Option.some.inj hr
        have hne : f ≠ f' := by
          rintro rfl
          rw [HasDesc.socket hs] at hclosed
          cases hclosed
        exact .inl ((Function.update_of_ne hne _ _).trans hclosed)
      · cases hr
  case accept =>
    cases r with
    | none =>
      obtain rfl := Option.some.inj hr
      exact .inl hclosed
    | some f' =>
      simp only [respond] at hr
      split at hr
      · obtain rfl := Option.some.inj hr
        by_cases hne : f = f'
        · exact .inr ⟨hmay.1, by rw [hne]; rfl⟩
        · exact .inl ((Function.update_of_ne hne _ _).trans hclosed)
      · cases hr
  case close f' =>
    obtain rfl := Option.some.inj hr
    by_cases hne : f = f'
    · exact .inl (by rw [hne]; exact Function.update_self _ _ _)
    · exact .inl ((Function.update_of_ne hne _ _).trans hclosed)
  case eventCtl op f' event =>
    obtain ⟨_, rfl⟩ := eventCtl_world hr
    exact .inl hclosed
  case scheduleUnregister f' c =>
    obtain ⟨_, _, rfl⟩ := scheduleUnregister_world hr
    exact .inl hclosed
  all_goals left
  all_goals simp only [respond] at hr
  all_goals repeat' split at hr
  all_goals first
    | exact Option.some.inj hr ▸ hclosed
    | cases hr

private theorem disarmed_desc (hd : Disarmed h) (hs : Sees w h) (hf : h.desc = some f) :
    (w.interest f).isSome = false := by
  cases h with
  | held c d a =>
    obtain rfl := hd.1
    obtain rfl := Option.some.inj hf
    obtain ⟨-, -, -, handler, -, hdesc⟩ := hs
    exact hdesc.armed
  | closing c d isOpen a =>
    cases isOpen with
    | false => cases hf
    | true =>
      obtain rfl : a = false := hd.1
      obtain rfl := Option.some.inj hf
      exact (hs.2.2 rfl).armed
  | nothing => cases hf
  | freed c => cases hf
  | _ => exact hd.elim

end

section
variable {luck : Luck} {listenFd : Int} {e404 : List UInt8} {s s' : State n} {g : Holding n}

/-- What a call adds to the accepted descriptors is in the hands of the thread. -/
private theorem record_accepted {t : Thread n} {h : Hold} {o : Op} {r : Ret o} :
    (s.record t o r).accepted = s.accepted ∨ ∃ f, o = .accept ∧ (h.next o r) = .fd f false ∧
      (s.record t o r).accepted = s.accepted ++ [f] := by
  cases o
  case accept =>
    cases r with
    | none => exact .inl rfl
    | some f => exact .inr ⟨f, rfl, rfl, rfl⟩
  all_goals
    left
    unfold State.record
    repeat' split
    all_goals first | rfl | contradiction

theorem Tended.call {w' : World} (ht : Tended s.world s.accepted g) (haccepting : luck.accepting)
    (hi : Inv luck listenFd s g) {t : Thread n} {o : Op} {r : Ret o}
    (hmay : (g (.thread t)).may luck t.isLoop o) (hgrant : luck.Grants t.isLoop o r)
    (hr : respond s.world o r = some w') :
    Tended w' (s.record t o r).accepted
      (g.put t ((g (.thread t)).next o r) ((g (.thread t)).gives o r)) := by
  have hsees := hi.owned.sees (.thread t)
  obtain ⟨-, hm⟩ := moved_call hi.owned.sane hsees hmay (fun _ _ hf => hi.owned.fd_on_loop hf) hgrant hr
  have hdesc : ∀ {f}, (g (.thread t)).desc = some f → _ := fun {f} =>
    desc_call haccepting hmay hgrant hr (f := f)
  constructor
  · intro f hf
    by_cases hown : (g (.thread t)).desc = some f
    · obtain hkept | ⟨c, d, a, hg, rfl⟩ | ⟨-, hnone⟩ := hdesc hown
      · cases t with
        | loop => exact .inr (by rw [Holding.put_thread]; exact hkept)
        | worker i =>
          rw [disarmed_desc (next_disarmed (hi.owned.workers i) hmay) hm.sees hkept] at hf
          cases hf
      · obtain ⟨-, -, -, handler, -, hhas⟩ := hm.given c d a hg
        exact .inl (by rw [hhas.entry]; rfl)
      · rw [hnone] at hf
        cases hf
    · obtain ⟨hlookup, hinterest⟩ := hm.touches.lookup f hown
      rw [hinterest] at hf
      rw [hlookup]
      obtain hentry | hloop := ht.armed f hf
      · exact .inl hentry
      · have hne : .loop ≠ t := by
          rintro rfl
          exact hown hloop
        exact .inr (by rwa [g.put_other hne])
  · have hkept : ∀ f ∈ s.accepted, w'.sockets f = .closed ∨
        (g.put t ((g (.thread t)).next o r) ((g (.thread t)).gives o r) (.thread .loop)).desc = some f ∨
        ∃ c d, g.put t ((g (.thread t)).next o r) ((g (.thread t)).gives o r) (.shelf c) = .held c d true ∧
          d.fd = f := by
      intro f hf
      obtain hclosed | hown | ⟨c, d, hshelf, rfl⟩ := ht.accepted f hf
      · obtain hclosed | ⟨hloop, hown⟩ := closed_call hsees hmay hr hclosed
        · exact .inl hclosed
        · cases t with
          | loop => exact .inr (.inl (by rwa [Holding.put_thread]))
          | worker i => cases hloop
      · cases t with
        | loop =>
          obtain hown | ⟨c, d, a, hg, rfl⟩ | ⟨hclosed, -⟩ := hdesc hown
          · exact .inr (.inl (by rwa [Holding.put_thread]))
          · -- what is queued has had its entry for long
            obtain rfl : a = true := by
              cases a with
              | true => rfl
              | false =>
                obtain ⟨task, rfl⟩ := (gives_cases hmay hg).2.2.2.2.mp rfl
                obtain ⟨d', hheld, -⟩ := hmay
                have hnewcomer := ht.newcomer (List.ne_nil_of_mem hf)
                rw [hheld] at hnewcomer
                exact hnewcomer.elim
            exact .inr (.inr ⟨c, d, by rw [hg, Holding.put_shelf], rfl⟩)
          · exact .inl hclosed
        | worker i =>
          exact .inr (.inl (by rwa [g.put_other (Thread.loop_ne_worker i)]))
      · exact .inr (.inr ⟨c, d, hi.shelf_put hshelf fun _ _ _ hg => (gives_cases hmay hg).1, rfl⟩)
    intro f hf
    obtain hsame | ⟨f', rfl, hnext, hsame⟩ := record_accepted (s := s) (t := t) (h := g (.thread t)) (r := r)
    · exact hkept f (hsame ▸ hf)
    · rw [hsame] at hf
      obtain hf | hf := List.mem_append.mp hf
      · exact hkept f hf
      · obtain rfl := List.mem_singleton.mp hf
        obtain ⟨hloop, -⟩ := hmay
        cases t with
        | loop => exact .inr (.inl (by rw [Holding.put_thread, hnext]; rfl))
        | worker i => cases hloop
  · intro hne
    obtain hsame | ⟨f', rfl, hnext, -⟩ := record_accepted (s := s) (t := t) (h := g (.thread t)) (o := o) (r := r)
    · rw [hsame] at hne
      cases t with
      | loop =>
        rw [Holding.put_thread]
        exact newcomer_call (ht.newcomer hne) hmay
      | worker i =>
        rw [g.put_other (Thread.loop_ne_worker i)]
        exact ht.newcomer hne
    · obtain ⟨hloop, -⟩ := hmay
      cases t with
      | loop =>
        rw [Holding.put_thread, hnext]
        trivial
      | worker i => cases hloop

/-- What the loop may end with has its entry. -/
theorem Tended.entry {w : World} {fds : List Int} (ht : Tended w fds g) (haccepting : luck.accepting)
    (hsees : Sees w (g (.thread .loop))) (hdone : Done luck (g (.thread .loop))) (f : Int)
    (hf : (w.interest f).isSome) : (w.te.lookup f).isSome := by
  obtain hentry | hown := ht.armed f hf
  · exact hentry
  · cases hheld : g (.thread .loop) with
    | held c d a =>
      rw [hheld] at hsees hown
      obtain rfl := Option.some.inj hown
      obtain ⟨-, -, -, handler, -, hdesc⟩ := hsees
      rw [hdesc.entry]
      rfl
    | nothing =>
      rw [hheld] at hown
      cases hown
    | freed c =>
      rw [hheld] at hown
      cases hown
    | fd f' a =>
      rw [hheld] at hdone
      exact absurd haccepting hdone
    | fresh c d =>
      rw [hheld] at hdone
      exact absurd haccepting hdone
    | lulled c d =>
      rw [hheld] at hdone
      exact hdone.elim
    | closing c d isOpen a =>
      rw [hheld] at hdone
      exact hdone.elim

theorem Tended.empty {w : World} {fds : List Int} (ht : Tended w fds g) (haccepting : luck.accepting)
    (hdone : Done luck (g (.thread .loop))) (hne : fds ≠ []) : g (.thread .loop) = .nothing := by
  have hnewcomer := ht.newcomer hne
  cases hheld : g (.thread .loop) with
  | nothing => rfl
  | fd f a =>
    rw [hheld] at hdone
    exact absurd haccepting hdone
  | fresh c d =>
    rw [hheld] at hdone
    exact absurd haccepting hdone
  | _ =>
    rw [hheld] at hnewcomer
    exact hnewcomer.elim

theorem Tended.iterate (ht : Tended s.world s.accepted g) (hi : Inv luck listenFd s g) {fuel : Nat}
    (hs : s.iterate fuel = some s') : Tended s'.world s'.accepted (g.after s (.iterate fuel)) := by
  obtain ⟨hidle, left, event, -, hcases⟩ := iterate_spec hi.owned.sane hs
  have hempty := hi.idle .loop hidle
  have harmed : ∀ f, (s.world.interest f).isSome → (s.world.te.lookup f).isSome := by
    intro f hf
    obtain hentry | hown := ht.armed f hf
    · exact hentry
    · rw [hempty] at hown
      cases hown
  have hsame : s'.world = s.world ∧ (s'.accepted = s.accepted ∨ s'.accepted = []) := by
    obtain ⟨-, rfl⟩ | ⟨handler, -, rfl⟩ := hcases
    · exact ⟨rfl, .inl rfl⟩
    · exact ⟨rfl, .inr rfl⟩
  obtain ⟨hworld, haccepted⟩ := hsame
  rw [hworld]
  have hnone : ∀ g' : Holding n, Tended s.world [] g' := fun g' =>
    ⟨fun f hf => .inl (harmed f hf), fun _ hf => (List.not_mem_nil hf).elim, fun hne => absurd rfl hne⟩
  obtain hg | ⟨c, d, -, -, -, hempty'⟩ := hi.after_iterate hs
  · rw [hg]
    obtain hkept | hempty' := haccepted
    · rw [hkept]
      exact ht
    · rw [hempty']
      exact hnone g
  · rw [hempty']
    exact hnone _

theorem Tended.take (ht : Tended s.world s.accepted g) (hi : Inv luck listenFd s g) {i : Fin n}
    (hs : s.take e404 i = some s') : Tended s'.world s'.accepted (g.after s (.take i)) := by
  obtain ⟨-, task, queue, hqueue, rfl⟩ := State.take_cases hs
  obtain ⟨d, hheld⟩ := (hi.owned.queue task.context.tconn).mp (by simp [queued, hqueue])
  have hg : g.after s (.take i) = g.pick (.worker i) task.context.tconn := by
    simp [Holding.after, hqueue]
  have hsame : g.pick (.worker i) task.context.tconn (.thread .loop) = g (.thread .loop) :=
    g.pick_other (Thread.loop_ne_worker i) _
  rw [hg]
  constructor
  · rw [hsame]
    exact ht.armed
  · intro f hf
    rw [hsame]
    obtain hclosed | hown | ⟨c, d', hshelf, hfd⟩ := ht.accepted f hf
    · exact .inl hclosed
    · exact .inr (.inl hown)
    · refine .inr (.inr ⟨c, d', ?_, hfd⟩)
      obtain ⟨heq, -⟩ | ⟨heq, -⟩ | hx := g.pick_cases (.worker i) task.context.tconn (.shelf c)
      · cases heq
      · obtain rfl := Holder.shelf.inj heq
        cases hshelf.symm.trans hheld
      · exact hx.trans hshelf
  · rw [hsame]
    exact ht.newcomer

/-- The acception handler ends with empty hands. -/
theorem Tended.leave (ht : Tended s.world s.accepted g) (haccepting : luck.accepting)
    (hi : Inv luck listenFd s g) {t : Thread n} (hs : s.leave t = some s') :
    Tended s'.world s'.accepted (g.after s (.leave t)) := by
  obtain ⟨ret, hret, rfl⟩ := State.leave_cases hs
  obtain ⟨given, hg, hgiven⟩ : ∃ given, g.after s (.leave t) = g.put t .nothing given ∧
      ∀ c d a, given = some (c, d, a) → (g (.thread t)).conn = some c := by
    obtain hg | ⟨c, d, a, hheld, hg⟩ := g.leave_cases t
    · exact ⟨none, hg, by simp⟩
    · refine ⟨some (c, d, a), hg, ?_⟩
      intro c' d' a' hsome
      obtain ⟨rfl, -, -⟩ := by simpa using hsome
      rw [hheld]
      rfl
  rw [hg]
  cases t with
  | worker i =>
    have hsame : g.put (.worker i) .nothing given (.thread .loop) = g (.thread .loop) :=
      g.put_other (Thread.loop_ne_worker i) _ _
    constructor
    · rw [hsame]
      exact ht.armed
    · intro f hf
      rw [hsame]
      obtain hclosed | hown | ⟨c, d, hshelf, hfd⟩ := ht.accepted f hf
      · exact .inl hclosed
      · exact .inr (.inl hown)
      · exact .inr (.inr ⟨c, d, hi.shelf_put hshelf hgiven, hfd⟩)
    · rw [hsame]
      exact ht.newcomer
  | loop =>
    have hdone : Done luck (g (.thread .loop)) := hi.busy .loop _ hret
    constructor
    · exact fun f hf => .inl (ht.entry haccepting (hi.owned.sees _) hdone f hf)
    · intro f hf
      obtain hclosed | hown | ⟨c, d, hshelf, hfd⟩ := ht.accepted f hf
      · exact .inl hclosed
      · rw [ht.empty haccepting hdone (List.ne_nil_of_mem hf)] at hown
        cases hown
      · exact .inr (.inr ⟨c, d, hi.shelf_put hshelf hgiven, hfd⟩)
    · intro _
      rw [Holding.put_thread]
      trivial

theorem Tended.poll (ht : Tended s.world s.accepted g) {wait : Option (List EpollEvent)}
    (hs : s.poll wait = some s') : Tended s'.world s'.accepted (g.after s (.poll wait)) := by
  obtain ⟨-, -, -, -, nEvent, te, hpoll, hcases⟩ := State.poll_cases hs
  obtain ⟨events, rfl⟩ := TgxEvent.poll_events hpoll
  obtain ⟨-, rfl⟩ | ⟨-, rfl⟩ := hcases
  · exact ⟨ht.armed, ht.accepted, ht.newcomer⟩
  · exact ⟨ht.armed, ht.accepted, ht.newcomer⟩

theorem Tended.step (ht : Tended s.world s.accepted g) (haccepting : luck.accepting)
    (hi : Inv luck listenFd s g) {l : Label n} (hok : Orderly luck s l) (hs : State.step e404 s l = some s') :
    Tended s'.world s'.accepted (g.after s l) := by
  cases l with
  | poll wait => exact ht.poll hs
  | iterate fuel => exact ht.iterate hi hs
  | take i => exact ht.take hi hs
  | leave t => exact ht.leave haccepting hi hs
  | call t r =>
    obtain ⟨k, w', hp, hr, rfl⟩ := State.call_cases hs
    exact ht.call haccepting hi (hi.busy t _ hp).1 hok.2 hr

private theorem tended_fresh (hs : s.Fresh listenFd) : Tended s.world [] (Holding.none : Holding n) where
  armed f hf := by
    rw [hs.interest] at hf
    by_cases hne : f = listenFd
    · left
      rw [hne, (owned_fresh hs).listening.entry]
      rfl
    · simp [hne] at hf
  accepted _ hf := (List.not_mem_nil hf).elim
  newcomer hne := absurd rfl hne

end

private theorem tended_of_reachable {luck : Luck} {e404 : List UInt8} {listenFd : Int} {x : State n × Holding n}
    (haccepting : luck.accepting)
    (h : (watched n e404 listenFd).Reachable (fun x l => Orderly luck x.1 l) x) :
    Tended x.1.world x.1.accepted x.2 := by
  apply h.invariant_of
  · rintro ⟨s, g⟩ ⟨hs, rfl⟩
    have hs : s.Fresh listenFd := hs
    rw [hs.accepted]
    exact tended_fresh hs
  · intro x l y hx ht hok hstep
    obtain ⟨hs, hg⟩ := Transition.instrument_step hstep
    rw [hg]
    exact ht.step haccepting (inv_of_reachable hx) hok hs

/-- What has been accepted gets its place in the interest set, its connection and its entry. -/
def Label.welcomes : Label n → Bool
  | .call t ⟨.eventCtl .ADD _ _, r⟩ => !t.isLoop || (r : Int) == 0
  | .call _ ⟨.callocConnection _, r⟩ => r.isSome
  | .call _ ⟨.calloc (.connectionField f), r⟩ => f == .httpReqBody || r
  | .call _ ⟨.scheduleRegister _ _ _, r⟩ => (r : Int) == 0
  | _ => true

private theorem Label.granted_welcomes {l : Label n} (h : l.welcomes) : l.Granted ⟨False, True⟩ := by
  cases l with
  | call t r =>
    obtain ⟨o, r⟩ := r
    cases o
    case calloc what =>
      cases what with
      | string field =>
        cases field with
        | httpReqBuf => trivial
        | httpRespHeader => exact False.elim
      | connectionField f =>
        intro _ hf
        simpa [Label.welcomes, hf] using h
      | _ => trivial
    case callocConnection f => exact fun _ => Option.isSome_iff_ne_none.mp h
    case scheduleRegister f h' c => exact fun _ => eq_of_beq h
    case eventCtl op f event =>
      cases op with
      | ADD =>
        cases t with
        | loop => exact fun _ _ => eq_of_beq h
        | worker i => exact fun _ hloop => by cases hloop
      | _ => trivial
    all_goals trivial
  | _ => trivial

/-- Nothing is in the interest set without an entry in the schedule table, and nothing that the handler
has accepted is left open without both. -/
structure Welcomed (s : State n) : Prop where
  armed : ∀ f, (s.world.interest f).isSome → (s.world.te.lookup f).isSome
  accepted : ∀ f ∈ s.accepted,
    (s.world.interest f).isSome ∧ (s.world.te.lookup f).isSome ∨ s.world.sockets f = .closed

/-- In every run in which the workers let the loop finish and new connections are refused nothing, a
handler returns with all descriptors served. -/
theorem welcomed {e404 : List UInt8} {listenFd : Int} {s : State n}
    (h : (system n e404 listenFd).Reachable (fun s l => s.SwitchesLate l ∧ l.welcomes) s) {ret : Int}
    (hret : s.running .loop = some (.ret ret)) : Welcomed s := by
  have horderly : (system n e404 listenFd).Reachable (Orderly ⟨False, True⟩) s :=
    h.mono fun _ _ hok => ⟨hok.1, Label.granted_welcomes hok.2⟩
  obtain ⟨g, hg⟩ := horderly.instrument Holding.none Holding.after
  have hi : Inv _ listenFd s g := inv_of_reachable hg
  have ht : Tended s.world s.accepted g := tended_of_reachable trivial hg
  have hdone : Done ⟨False, True⟩ (g (.thread .loop)) := hi.busy .loop _ hret
  have hentry := ht.entry trivial (hi.owned.sees _) hdone
  constructor
  · exact hentry
  · intro f hf
    obtain hclosed | hown | ⟨c, d, hshelf, rfl⟩ := ht.accepted f hf
    · exact .inr hclosed
    · rw [ht.empty trivial hdone (List.ne_nil_of_mem hf)] at hown
      cases hown
    · have hs := hi.owned.sees (.shelf c)
      rw [hshelf] at hs
      obtain ⟨-, -, -, handler, -, hdesc⟩ := hs
      exact .inl ⟨hdesc.armed, hentry d.fd hdesc.armed⟩

def accepted : List (Move 1) :=
  accepting.dropLast

def unwelcome : List (Move 1) :=
  [.step (.poll (some [⟨EPOLLIN, 5⟩])), .step (.iterate 2), .step (.call .loop ⟨.accept, some 6⟩), .go .loop,
    .step (.call .loop ⟨.eventCtl .ADD 6 TGX_EVENT_IN, -1⟩)]

def State.returning (s : State n) (t : Thread n) : Option Int :=
  match s.running t with
  | some (.ret r) => some r
  | _ => none

private theorem returning_cases {s : State n} {t : Thread n} {r : Int} (h : s.returning t = some r) :
    s.running t = some (.ret r) := by
  unfold State.returning at h
  split at h
  · rename_i r' hr
    rw [hr, Option.some.inj h]
  · cases h

theorem welcomed_accepted : ∃ s, (system 1 [] 5).guided State.choose (fun s l => s.SwitchesLate l ∧ l.welcomes)
    (.start 1) accepted = some s ∧ s.running .loop = some (.ret 0) ∧ s.accepted = [6] ∧ Welcomed s := by
  have hrun : (((system 1 [] 5).guided State.choose (fun s l => s.SwitchesLate l ∧ l.welcomes) (.start 1)
      accepted).map fun s => (s.returning .loop, s.accepted)) = some (some 0, [6]) := by
    decide +kernel
  obtain ⟨s, hs, hrun⟩ := Option.map_eq_some_iff.mp hrun
  obtain ⟨hret, haccepted⟩ := Prod.mk.inj hrun
  have hret := returning_cases hret
  exact ⟨s, hs, hret, haccepted, welcomed (.of_guided accepted (.init (start_fresh 1)) hs) hret⟩

/-- `tgx_acception_handler` returns without closing the descriptor. -/
theorem left_open : ¬ ∀ (n : Nat) (e404 : List UInt8) (listenFd : Int) (s : State n) (ret : Int),
    (system n e404 listenFd).Reachable (fun _ _ => True) s → s.running .loop = some (.ret ret) →
      ∀ f ∈ s.accepted,
        (s.world.interest f).isSome ∧ (s.world.te.lookup f).isSome ∨ s.world.sockets f = .closed := by
  intro h
  have hrun : (((system 1 [] 5).guided State.choose (fun _ _ => True) (.start 1) unwelcome).map fun s =>
      (s.returning .loop, s.accepted, s.world.interest 6, s.world.sockets 6)) =
        some (some (-1), [6], none, .open none) := by
    decide +kernel
  obtain ⟨s, hs, hrun⟩ := Option.map_eq_some_iff.mp hrun
  simp only [Prod.mk.injEq] at hrun
  obtain ⟨hret, haccepted, hinterest, hsocket⟩ := hrun
  have hbad := h 1 [] 5 s (-1) (.of_guided unwelcome (.init (start_fresh 1)) hs) (returning_cases hret) 6
    (by rw [haccepted]; exact List.mem_singleton_self 6)
  rw [hinterest, hsocket] at hbad
  obtain ⟨hfalse, -⟩ | hfalse := hbad
  · cases hfalse
  · cases hfalse

end TinyosGraphics.Server
