import TinyosGraphics.Server.Histories

/-! A connection is handed over to the workers and back: who touches it when, and what its flag says. It is closed
once, and nobody reads or writes it any more. -/
namespace TinyosGraphics.Server
open Lib Event Core

variable {n : Nat}

/-- The handler and the connection that the next iteration looks up. -/
def State.upcoming (s : State n) : Option (Handler × ConnId) := do
  guard (s.running .loop = none ∧ s.left ≠ 0)
  let fd ← tgxEventGetFd s.world.te (tgxEventGetNextIndex s.world.te s.index)
  let handler ← (← tgxEventGetHandler s.world.te fd)
  let context ← (← tgxEventGetContext s.world.te fd)
  return (handler, context)

/-- The connection that the next call of a thread reads or writes. -/
def State.touching (s : State n) (t : Thread n) : Option ConnId :=
  match s.running t with
  | some (.call o _) => o.conn
  | _ => none

/-- The loop and the workers take turns with every connection. -/
structure HandedOver (s : State n) : Prop where
  dispatched : ∀ handler c, s.upcoming = some (handler, c) → s.away c = true →
    handler = .tgxConnectionHandlerNoOperation
  loop : ∀ c, s.touching .loop = some c → s.away c = false
  worker : ∀ i c, s.touching (.worker i) = some c → s.away c = true ∧ s.loopFreed c = false

section
variable {luck : Luck} {listenFd : Int} {s : State n} {g : Holding n}

private theorem upcoming_cases {handler : Handler} {c : ConnId} (hw : Sane s.world)
    (h : s.upcoming = some (handler, c)) :
    s.running .loop = none ∧ s.left ≠ 0 ∧ ∃ e, s.world.te.lookup s.world.te.first.fd = some e ∧
      e.handler = some handler ∧ e.context = some c := by
  simp only [State.upcoming, Option.bind_eq_bind, guard, Option.pure_def] at h
  split at h
  · rename_i hidle
    rw [Option.bind_some] at h
    simp only [Option.bind_eq_some_iff] at h
    obtain ⟨fd, hfd, _, hhandler, _, rfl, _, hcontext, _, rfl, h⟩ := h
    obtain ⟨rfl, rfl⟩ := Prod.mk.inj (Option.some.inj h)
    obtain ⟨rfl, hfound, hserving⟩ := lookedUp_first hw hfd hhandler hcontext
    obtain ⟨e, he, hhandler⟩ := Option.bind_eq_some_iff.mp hfound.symm
    rw [he] at hserving
    exact ⟨hidle.1, hidle.2, e, he, hhandler, hserving.symm⟩
  · cases h

private theorem live_of_sees {w : World} {h : Hold} {c : ConnId} (hs : Sees w h) (hc : h.conn = some c)
    (hne : h ≠ .freed c) : (w.conns c).isSome := by
  cases h with
  | nothing => cases hc
  | fd f a => cases hc
  | freed c' =>
    obtain rfl := Option.some.inj hc
    exact absurd rfl hne
  | _ =>
    obtain rfl := Option.some.inj hc
    rw [hs.1.conn]
    rfl

/-- A thread touches what it has. -/
theorem touching_cases {t : Thread n} {c : ConnId} (hi : Inv luck listenFd s g)
    (h : s.touching t = some c) :
    (g (.thread t)).conn = some c ∧ (luck.header → (s.world.conns c).isSome) := by
  simp only [State.touching] at h
  split at h
  · rename_i o k hp
    have hsees := hi.owned.sees (.thread t)
    have hmay : (g (.thread t)).may luck t.isLoop o := (hi.busy t _ hp).1
    cases o
    case load c' =>
      obtain rfl := Option.some.inj h
      obtain ⟨hconn, hnot⟩ := hmay
      refine ⟨hconn, fun hheader => ?_⟩
      exact live_of_sees hsees hconn (hnot hheader)
    case store c' d' =>
      obtain rfl := Option.some.inj h
      obtain ⟨d, hheld, -⟩ | ⟨d, a, hheld, -⟩ := hmay
      · rw [hheld] at hsees ⊢
        exact ⟨rfl, fun _ => live_of_sees hsees rfl nofun⟩
      · rw [hheld] at hsees ⊢
        exact ⟨rfl, fun _ => live_of_sees hsees rfl nofun⟩
    case freeConnection c' =>
      obtain rfl := Option.some.inj h
      obtain ⟨d, a, hheld⟩ := hmay
      rw [hheld] at hsees ⊢
      exact ⟨rfl, fun _ => live_of_sees hsees rfl nofun⟩
    all_goals cases h
  · cases h

end

/-- In every run in which the workers let the loop finish, the loop and the workers take turns. -/
theorem handed_over {e404 : List UInt8} {listenFd : Int} {s : State n}
    (h : (system n e404 listenFd).Reachable State.SwitchesLate s) : HandedOver s := by
  obtain ⟨g, hi, hrec⟩ := watched_of_reachable (orderly_none h)
  constructor
  · intro handler c hup haway
    obtain ⟨hidle, hleft, e, he, hhandler, hc⟩ := upcoming_cases hi.owned.sane hup
    obtain ⟨-, ⟨d, hheld⟩ | ⟨hgone, -⟩⟩ := hi.found hidle he hc
    · have htells := (hrec.tells (.shelf c) c (by rw [hheld]; rfl)).away
      rw [haway, hheld] at htells
      cases htells
    · exact Option.some.inj (hhandler.symm.trans (hi.first hleft e c he hc hgone))
  · intro c hc
    exact (hrec.tells _ c (touching_cases hi hc).1).away
  · intro i c hc
    have htells := hrec.tells _ c (touching_cases hi hc).1
    refine ⟨htells.away, ?_⟩
    by_contra hfreed
    obtain ⟨-, hloop⟩ := htells.loopFreed (by simpa using hfreed)
    cases hloop

/-- Surroundings in which every call succeeds and nothing is to be read. The parser finds the method. -/
def World.obliging (w : World) : (o : Op) → Ret o
  | .load c => (w.conns c).getD (newConn 0)
  | .callocConnection _ => some w.nextConn
  | .callocWrapper _ => some w.nextWrapper
  | .taskInit => some w.nextTask
  | .openFile _ => some 0
  | .calloc _ | .realloc | .dlopen _ | .dlsym => true
  | .getContext id => (w.wrappers id).getD false
  | .setHandler _ _ | .eventCtl _ _ _ | .scheduleRegister _ _ _ | .setNonblocking _ => (0 : Int)
  | .accept => none
  | .read _ _ => .again
  | .write _ _ _ count | .sendfile _ _ _ count => .accepted (toSizeT count)
  | .stat _ => some ⟨true, 0, 0⟩
  | .formatDate _ => []
  | .callModule req resp => (0, req, resp)
  | .httpParserExecute text => ⟨text.length, { httpMethod := text.takeWhile (· ≠ 32) }, none⟩
  | .store _ _ | .freeConnection _ | .scheduleUnregister _ _ | .closeFile _ | .close _ | .freeWrapper _
  | .setContext _ | .pushTask _ | .dlclose => ()

/-- A step, or the next call of a thread in obliging surroundings. -/
inductive Move (n : Nat)
  | step (l : Label n)
  | go (t : Thread n)

def State.choose (s : State n) : Move n → Option (Label n)
  | .step l => some l
  | .go t =>
    match s.running t with
    | some (.call o _) => some (.call t ⟨o, World.obliging s.world o⟩)
    | _ => none

instance (s : State n) (l : Label n) : Decidable (s.SwitchesLate l) := by
  unfold State.SwitchesLate
  split <;> infer_instance

/-- The server with 5 to listen on. -/
def State.start (n : Nat) : State n where
  world := {
    te := ((tgxEventScheduleRegister (tgxEventInit 8 4) 5 (some .tgxAcceptionHandler) none true).getD
      (0, tgxEventInit 8 4)).2
    interest := fun fd => if fd = 5 then some EPOLLIN else none
    sockets := fun fd => if 0 ≤ fd ∧ fd ≤ 5 then .open none else .closed
    conns := fun _ => none
    nextConn := 0
    wrappers := fun _ => none
    nextWrapper := 0
    nextTask := 0
    queue := []
    closes := fun _ => 0
    sent := fun _ => [] }
  left := 0
  index := -1
  running := fun _ => none
  serving := none
  accepted := []
  away := fun _ => false
  returned := fun _ => false
  loopFreed := fun _ => false

theorem start_fresh (n : Nat) : (State.start n).Fresh 5 where
  table := ⟨8, 4, by decide, rfl⟩
  listening := ⟨by decide, rfl⟩
  interest := rfl
  sockets fd := by
    simp only [State.start]
    split
    · exact .inr rfl
    · exact .inl rfl
  zero := nofun
  conns := rfl
  closes := rfl
  queue := rfl
  running := rfl
  left := rfl
  accepted := rfl
  away := rfl
  returned := rfl
  loopFreed := rfl

/-- A client is accepted on 6. -/
def accepting : List (Move 1) :=
  [.step (.poll (some [⟨EPOLLIN, 5⟩])), .step (.iterate 2), .step (.call .loop ⟨.accept, some 6⟩)] ++
    List.replicate 12 (.go .loop) ++ [.step (.leave .loop)]

/-- Its request comes with what else is in the batch, and is handed over to the worker. -/
def requesting (others : List EpollEvent) : List (Move 1) :=
  accepting ++ [.step (.poll (some (⟨EPOLLIN, 6⟩ :: others))), .step (.iterate 3)] ++
    List.replicate 7 (.go .loop) ++
    [.step (.call .loop ⟨.read 6 65535, .data (ascii "GET / HTTP/1.1\r\n\r\n")⟩)] ++
    List.replicate 18 (.go .loop) ++ [.step (.leave .loop), .step (.take 0), .go (.worker 0)]

def working (calls : Nat) : List (Move 1) :=
  List.replicate calls (.go (.worker 0))

def answered (r : (o : Op) × Ret o) : List (Move 1) :=
  [.step (.call (.worker 0) r)]

def resting : List (Move 1) :=
  [.step (.leave (.worker 0))]

def retaking : List (Move 1) :=
  resting ++ [.step (.take 0)]

/-- The worker has prepared the response and sets the handler that writes it. -/
def waking (others : List EpollEvent) : List (Move 1) :=
  requesting others ++ working 8 ++ retaking ++ working 55

def returning : List (Move 1) :=
  waking [] ++ working 1

/-- The loop finds the connection writable, and its handler makes so many calls. -/
def writing (calls : Nat) : List (Move 1) :=
  [.step (.poll (some [⟨EPOLLOUT, 6⟩])), .step (.iterate 2)] ++ List.replicate calls (.go .loop) ++
    [.step (.leave .loop)]

/-- Nothing fails: header and file are written, and the connection is closed. -/
def served : List (Move 1) :=
  returning ++ working 1 ++ resting ++ writing 6 ++ writing 12

/-- The loop comes to its second event while the worker is with the connection. -/
def betweenEvents : List (Move 1) :=
  requesting [⟨EPOLLIN, 5⟩]

/-- A turn of the loop for a descriptor on which nobody is to be accepted. -/
def idling : List (Move 1) :=
  [.step (.iterate 1), .go .loop, .step (.leave .loop)]

/-- The worker sets the handler and brings the connection back while the loop has two events of other descriptors before
it. With the next batch the loop is with the connection again. -/
def backAgain : List (Move 1) :=
  [.step (.iterate 3), .step (.leave .loop)] ++ working 8 ++ retaking ++ working 54 ++
    [.step (.poll (some [⟨EPOLLIN, 5⟩, ⟨EPOLLIN, 5⟩]))] ++ working 3 ++ resting ++ idling ++ idling ++
    [.step (.poll (some [⟨EPOLLOUT, 6⟩, ⟨EPOLLIN, 5⟩])), .step (.iterate 2), .go .loop]

theorem handed_over_turns : ∃ s s',
    (system 1 [] 5).guided State.choose State.SwitchesLate (.start 1) betweenEvents = some s ∧
      s.touching (.worker 0) = some 0 ∧ s.upcoming.map Prod.snd = some 0 ∧ HandedOver s ∧
      (system 1 [] 5).guided State.choose State.SwitchesLate s backAgain = some s' ∧
      s'.touching .loop = some 0 ∧ s'.left = 1 ∧ HandedOver s' := by
  have hrun : (((system 1 [] 5).guided State.choose State.SwitchesLate (.start 1) betweenEvents).bind fun s =>
      ((system 1 [] 5).guided State.choose State.SwitchesLate s backAgain).map fun s' =>
        (s.touching (.worker 0), s.upcoming.map Prod.snd, s'.touching .loop, s'.left)) =
          some (some 0, some 0, some 0, 1) := by
    decide +kernel
  obtain ⟨s, hs, hrun⟩ := Option.bind_eq_some_iff.mp hrun
  obtain ⟨s', hs', hrun⟩ := Option.map_eq_some_iff.mp hrun
  simp only [Prod.mk.injEq] at hrun
  obtain ⟨hworker, hup, hloop, hleft⟩ := hrun
  have hreach := Transition.Reachable.of_guided betweenEvents (.init (start_fresh 1)) hs
  exact ⟨s, s', hs, hworker, hup, handed_over hreach, hs', hloop, hleft, handed_over (hreach.of_guided backAgain hs')⟩

/-- The second iteration of a batch looks up the first descriptor again. Its connection has its next
handler by then, but is still with the worker. -/
theorem dispatched_while_away : ¬ ∀ (n : Nat) (e404 : List UInt8) (listenFd : Int) (s : State n),
    (system n e404 listenFd).Reachable (fun _ _ => True) s → HandedOver s := by
  intro h
  have hrun : (((system 1 [] 5).guided State.choose (fun _ _ => True) (.start 1) (waking [⟨EPOLLIN, 5⟩])).map
      fun s => (s.upcoming, s.away 0)) = some (some (.tgxConnectionHandlerWriteHeader, 0), true) := by
    decide +kernel
  obtain ⟨s, hs, hbad⟩ := Option.map_eq_some_iff.mp hrun
  obtain ⟨hup, haway⟩ := Prod.mk.inj hbad
  have hover := h 1 [] 5 s (.of_guided (waking [⟨EPOLLIN, 5⟩]) (.init (start_fresh 1)) hs)
  cases hover.dispatched _ 0 hup haway

/-- A connection with its entry in the schedule table. -/
structure Live (s : State n) (c : ConnId) (d : Conn) : Prop where
  conn : s.world.conns c = some d
  entry : ∃ e, s.world.te.lookup d.fd = some e ∧ e.context = some c

/-- The flag is set exactly when the descriptor is out of the interest set. -/
def Agree (w : World) (d : Conn) : Prop :=
  d.travelling = true ↔ w.interest d.fd = none

/-- The loop is not in the middle of a handler of the connection. -/
def State.Resting (s : State n) (c : ConnId) : Prop :=
  s.running .loop = none ∨ s.serving ≠ some c

/-- `tgx_close_connection` takes the descriptor out of the interest set, whatever the calls return. -/
def ClosesWithDel (c : ConnId) (d : Conn) : Prop :=
  ∀ answer : (o : Op) → Ret o, answer (.load c) = d → Op.eventCtl .DEL d.fd 0 ∈ (tgxCloseConnection c).calls answer

private theorem closesWithDel_iff (c : ConnId) (d : Conn) : ClosesWithDel c d ↔ d.travelling = false := by
  have hfree : ∀ answer : (o : Op) → Ret o, Op.eventCtl .DEL d.fd 0 ∉ (tgxFreeConnection c).calls answer := by
    intro answer
    simp only [tgxFreeConnection, load, close, dlclose, freeConnection, Core.call, Prog.calls_op_bind]
    split
    · split
      · simp
      · simp
    · split
      · simp
      · simp
  have hcalls : ∀ answer : (o : Op) → Ret o, answer (.load c) = d →
      (Op.eventCtl .DEL d.fd 0 ∈ (tgxCloseConnection c).calls answer ↔ d.travelling = false) := by
    intro answer hd
    simp only [tgxCloseConnection, load, Core.tgxEventScheduleUnregister, Core.tgxEventCtl, Core.call,
      Prog.calls_op_bind, hd]
    cases ht : d.travelling with
    | false => simp [hd]
    | true => simpa using hfree answer
  constructor
  · intro hdel
    exact (hcalls (World.obliging ((State.start 0).world.setConn c (some d)))
      (by simp [World.obliging])).mp (hdel _ (by simp [World.obliging]))
  · intro ht answer hd
    exact (hcalls answer hd).mpr ht

private theorem held_flag {listenFd : Int} {luck : Luck} {s : State n} {g : Holding n} {x : Holder n} {c : ConnId}
    {d d' : Conn} {a : Bool} (hi : Inv luck listenFd s g) (hrec : Recorded s g) (hheld : g x = .held c d' a)
    (hd : s.world.conns c = some d) :
    d' = d ∧ (s.world.interest d.fd).isSome = a ∧ s.returned c = (a && d.travelling) := by
  have hs := hi.owned.sees x
  rw [hheld] at hs
  obtain ⟨hc, -, -, handler, -, hdesc⟩ := hs
  obtain rfl := Option.some.inj (hc.conn.symm.trans hd)
  have htells := (hrec.tells x c (by rw [hheld]; rfl)).returned
  rw [hheld] at htells
  exact ⟨rfl, hdesc.armed, htells⟩

private theorem agree_iff {w : World} {d : Conn} {a : Bool} (ha : (w.interest d.fd).isSome = a) :
    Agree w d ↔ (d.travelling = true ↔ a = false) := by
  rw [Agree, ← ha, Option.isSome_eq_false_iff, Option.isNone_iff_eq_none]

/-- In every run in which the workers let the loop finish, flag and interest set agree about a connection
as long as no worker has brought it back, and no longer. -/
theorem flag_agrees_iff {e404 : List UInt8} {listenFd : Int} {s : State n}
    (h : (system n e404 listenFd).Reachable State.SwitchesLate s) {c : ConnId} {d : Conn} (hlive : Live s c d) :
    (s.Resting c → (Agree s.world d ↔ s.returned c = false)) ∧
      ∀ t (rest : Unit → M Int), s.running t = some (tgxCloseConnection c >>= rest) →
        ((ClosesWithDel c d ↔ (s.world.interest d.fd).isSome) ↔ s.returned c = false) := by
  obtain ⟨g, hi, hrec⟩ := watched_of_reachable (orderly_none h)
  obtain ⟨hd, e, he, hc⟩ := hlive
  constructor
  · intro hrest
    obtain ⟨x, hregistered, hdesc⟩ := hi.owned.entries _ e c he hc
    obtain ⟨d', a, hheld, ha⟩ : ∃ d' a, g x = .held c d' a ∧ (a = false → d'.travelling = true) := by
      cases x with
      | thread t =>
        cases t with
        | loop =>
          obtain hidle | hother := hrest
          · rw [hi.idle .loop hidle] at hregistered
            cases hregistered
          · exact absurd (hrec.serving c hregistered) hother
        | worker i =>
          have hworker := hi.owned.workers i
          cases hg : g (.thread (.worker i)) with
          | held c' d' a =>
            rw [hg] at hworker hregistered
            obtain rfl := Option.some.inj hregistered
            exact ⟨d', a, rfl, fun _ => hworker.2⟩
          | lulled c' d' =>
            rw [hg] at hworker
            exact hworker.elim
          | _ =>
            rw [hg] at hregistered
            cases hregistered
      | shelf c' =>
        obtain hnone | ⟨d', a, hheld, ha⟩ := hi.owned.shelves c'
        · rw [hnone] at hregistered
          cases hregistered
        · rw [hheld] at hregistered
          obtain rfl := Option.some.inj hregistered
          exact ⟨d', a, hheld, ha⟩
    obtain ⟨rfl, harmed, hreturned⟩ := held_flag hi hrec hheld hd
    rw [agree_iff harmed, hreturned]
    cases a with
    | true => simp
    | false => simp [ha rfl]
  · intro t rest hp
    have hsees := hi.owned.sees (.thread t)
    obtain ⟨hmay, hloaded⟩ := hi.busy t _ hp
    have hload : respond s.world (.load c) d = some s.world := by simp [respond, hd]
    have hallows : (g (.thread t)).allows .none (.load c) d :=
      (moved_load hi.owned.sane hsees hmay.1 hload).1
    obtain ⟨⟨d', a, hheld, -, hflag⟩, -⟩ := hloaded d _ ⟨hallows, rfl⟩
    obtain ⟨rfl, harmed, hreturned⟩ := held_flag hi hrec hheld hd
    rw [closesWithDel_iff, harmed, hreturned]
    cases a with
    | true => simp
    | false => simpa using hflag

theorem flag_agrees_parsing : ∃ s d, (system 1 [] 5).guided State.choose State.SwitchesLate (.start 1)
      (requesting []) = some s ∧ Live s 0 d ∧ (s.Resting 0 → (Agree s.world d ↔ s.returned 0 = false)) ∧
      ∀ t (rest : Unit → M Int), s.running t = some (tgxCloseConnection 0 >>= rest) →
        ((ClosesWithDel 0 d ↔ (s.world.interest d.fd).isSome) ↔ s.returned 0 = false) := by
  have hrun : (((system 1 [] 5).guided State.choose State.SwitchesLate (.start 1) (requesting [])).bind
      fun s => (s.world.conns 0).bind fun d => (s.world.te.lookup d.fd).bind Schedule.context) = some 0 := by
    decide +kernel
  obtain ⟨s, hs, hrun⟩ := Option.bind_eq_some_iff.mp hrun
  obtain ⟨d, hd, hrun⟩ := Option.bind_eq_some_iff.mp hrun
  have hlive : Live s 0 d := ⟨hd, Option.bind_eq_some_iff.mp hrun⟩
  exact ⟨s, d, hs, hlive, flag_agrees_iff (.of_guided (requesting []) (.init (start_fresh 1)) hs) hlive⟩

/-- The flag stays set when `_task_end_travelling` puts the descriptor back. -/
theorem flag_never_cleared : ¬ ∀ (n : Nat) (e404 : List UInt8) (listenFd : Int) (s : State n) (c : ConnId)
    (d : Conn), (system n e404 listenFd).Reachable (fun _ _ => True) s → Live s c d →
    (s.Resting c → Agree s.world d) ∧ ∀ t (rest : Unit → M Int),
      s.running t = some (tgxCloseConnection c >>= rest) → (ClosesWithDel c d ↔ (s.world.interest d.fd).isSome) := by
  intro h
  have hrun : (((system 1 [] 5).guided State.choose (fun _ _ => True) (.start 1) returning).bind fun s =>
      (s.world.conns 0).bind fun d =>
        if s.running .loop = none ∧ d.travelling = true ∧ s.world.interest d.fd = some EPOLLOUT
        then (s.world.te.lookup d.fd).bind Schedule.context else none) = some 0 := by
    decide +kernel
  obtain ⟨s, hs, hrun⟩ := Option.bind_eq_some_iff.mp hrun
  obtain ⟨d, hd, hrun⟩ := Option.bind_eq_some_iff.mp hrun
  split at hrun
  · rename_i hback
    obtain ⟨hidle, ht, harmed⟩ := hback
    have hagree := h 1 [] 5 s 0 d (.of_guided returning (.init (start_fresh 1)) hs)
      ⟨hd, Option.bind_eq_some_iff.mp hrun⟩
    have hnone := (hagree.1 (.inl hidle)).mp ht
    rw [harmed] at hnone
    cases hnone
  · cases hrun

def Label.headerHad : Label n → Bool
  | .call _ ⟨.calloc (.string .httpRespHeader), r⟩ => r
  | _ => true

theorem Label.granted_headerHad {l : Label n} (h : l.headerHad) : l.Granted ⟨True, False⟩ := by
  refine granted_of_header id ?_
  rintro - t r rfl
  exact h

/-- No connection is closed twice, and whoever is about to read or write a connection finds it in
memory. -/
structure ClosedOnce (s : State n) : Prop where
  closes : ∀ c, s.world.closes c ≤ 1
  live : ∀ t c, s.touching t = some c → (s.world.conns c).isSome

/-- In every run in which the workers let the loop finish and no header buffer is refused, connections
are closed once. -/
theorem closed_once {e404 : List UInt8} {listenFd : Int} {s : State n}
    (h : (system n e404 listenFd).Reachable (fun s l => s.SwitchesLate l ∧ l.headerHad) s) : ClosedOnce s := by
  have horderly : (system n e404 listenFd).Reachable (Orderly ⟨True, False⟩) s :=
    h.mono fun _ _ hok => ⟨hok.1, Label.granted_headerHad hok.2⟩
  obtain ⟨g, hi, -⟩ := watched_of_reachable horderly
  exact ⟨hi.owned.sane.closes, fun t c hc => (touching_cases hi hc).2 trivial⟩

def preparing : List (Move 1) :=
  requesting [] ++ working 8 ++ retaking ++ working 3

/-- The buffer of the header is refused: `COPY` closes the connection, and so does `_task_end_travelling`. -/
def refused : List (Move 1) :=
  preparing ++ answered ⟨.calloc (.string .httpRespHeader), false⟩ ++ working 7

theorem closed_once_served : ∃ s, (system 1 [] 5).guided State.choose
    (fun s l => s.SwitchesLate l ∧ l.headerHad) (.start 1) served = some s ∧ s.world.closes 0 = 1 ∧ ClosedOnce s := by
  have hrun : ((system 1 [] 5).guided State.choose (fun s l => s.SwitchesLate l ∧ l.headerHad) (.start 1)
      served).map (fun s => s.world.closes 0) = some 1 := by
    decide +kernel
  obtain ⟨s, hs, hcloses⟩ := Option.map_eq_some_iff.mp hrun
  exact ⟨s, hs, hcloses, closed_once (.of_guided served (.init (start_fresh 1)) hs)⟩

theorem closed_twice : ¬ ∀ (n : Nat) (e404 : List UInt8) (listenFd : Int) (s : State n),
    (system n e404 listenFd).Reachable (fun _ _ => True) s → ClosedOnce s := by
  intro h
  have hrun : (((system 1 [] 5).guided State.choose (fun _ _ => True) (.start 1) refused).map
      fun s => (s.touching (.worker 0), (s.world.conns 0).isSome)) = some (some 0, false) := by
    decide +kernel
  obtain ⟨s, hs, hbad⟩ := Option.map_eq_some_iff.mp hrun
  obtain ⟨htouching, hfreed⟩ := Prod.mk.inj hbad
  have hlive := (h 1 [] 5 s (.of_guided refused (.init (start_fresh 1)) hs)).live _ 0 htouching
  rw [hfreed] at hlive
  cases hlive

end TinyosGraphics.Server
