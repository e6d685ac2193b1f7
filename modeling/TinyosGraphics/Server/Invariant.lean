import TinyosGraphics.Server.Calls

/-! Who holds what in the server. Next to the threads, every connection has a shelf on which it rests
when no thread has it: in the interest set, or in the queue. -/
namespace TinyosGraphics.Server
open Lib Event Core

inductive Holder (n : Nat)
  | thread (t : Thread n)
  | shelf (c : ConnId)
  deriving DecidableEq

/-- Who holds what. -/
abbrev Holding (n : Nat) := Holder n → Hold

variable {n : Nat}

def Thread.isLoop : Thread n → Bool
  | loop => true
  | worker _ => false

theorem Thread.loop_ne_worker (i : Fin n) : Thread.loop ≠ .worker i := by
  simp

namespace Holding

/-- A thread goes on with `h`, and puts something on its shelf. -/
def put (g : Holding n) (t : Thread n) (h : Hold) : Option (ConnId × Conn × Bool) → Holding n
  | some (c, d, a) => Function.update (Function.update g (.thread t) h) (.shelf c) (.held c d a)
  | none => Function.update g (.thread t) h

theorem put_cases (g : Holding n) (t : Thread n) (h : Hold) (given : Option (ConnId × Conn × Bool))
    (x : Holder n) :
    (x = .thread t ∧ g.put t h given x = h) ∨
      (∃ c d a, given = some (c, d, a) ∧ x = .shelf c ∧ g.put t h given x = .held c d a) ∨
      (x ≠ .thread t ∧ (∀ c d a, given = some (c, d, a) → x ≠ .shelf c) ∧ g.put t h given x = g x) := by
  by_cases hx : x = .thread t
  · subst hx
    cases given with
    | none => exact .inl ⟨rfl, Function.update_self _ _ _⟩
    | some p =>
      obtain ⟨c, d, a⟩ := p
      have hne : Holder.thread t ≠ .shelf c := nofun
      refine .inl ⟨rfl, ?_⟩
      rw [put, Function.update_of_ne hne, Function.update_self]
  · cases given with
    | none => exact .inr (.inr ⟨hx, (fun _ _ _ hgiven => nomatch hgiven), Function.update_of_ne hx _ _⟩)
    | some p =>
      obtain ⟨c, d, a⟩ := p
      by_cases hc : x = .shelf c
      · subst hc
        exact .inr (.inl ⟨c, d, a, rfl, rfl, Function.update_self _ _ _⟩)
      · refine .inr (.inr ⟨hx, ?_, ?_⟩)
        · intro c' d' a' hgiven
          obtain ⟨rfl, -, -⟩ := by simpa using hgiven
          exact hc
        · rw [put, Function.update_of_ne hc, Function.update_of_ne hx]

@[simp]
theorem put_thread (g : Holding n) (t : Thread n) (h : Hold) (given : Option (ConnId × Conn × Bool)) :
    g.put t h given (.thread t) = h := by
  obtain ⟨-, hput⟩ | ⟨_, _, _, -, heq, -⟩ | ⟨hne, -⟩ := g.put_cases t h given (.thread t)
  · exact hput
  · cases heq
  · exact absurd rfl hne

@[simp]
theorem put_shelf (g : Holding n) (t : Thread n) (h : Hold) (c : ConnId) (d : Conn) (a : Bool) :
    g.put t h (some (c, d, a)) (.shelf c) = .held c d a :=
  Function.update_self _ _ _

def pick (g : Holding n) (t : Thread n) (c : ConnId) : Holding n :=
  Function.update (Function.update g (.thread t) (g (.shelf c))) (.shelf c) .nothing

def leave (g : Holding n) (t : Thread n) : Holding n :=
  match g (.thread t) with
  | .held c d a => g.put t .nothing (some (c, d, a))
  | _ => g.put t .nothing none

def none : Holding n := fun _ => .nothing

def after (g : Holding n) (s : State n) : Label n → Holding n
  | .poll _ => g
  | .iterate _ =>
    match (s.world.te.lookup s.world.te.first.fd).bind Schedule.context with
    | some c =>
      -- a connection on its way is left where it is
      match g (.shelf c) with
      | .held _ _ true => g.pick .loop c
      | _ => g
    | Option.none => g
  | .take i =>
    match s.world.queue with
    | task :: _ => g.pick (.worker i) task.context.tconn
    | [] => g
  | .call t r =>
    g.put t ((g (.thread t)).next r.1 r.2) ((g (.thread t)).gives r.1 r.2)
  | .leave t => g.leave t

end Holding

/-- What a worker may have: its connection is out of the interest set and says so. -/
def Disarmed : Hold → Prop
  | .nothing | .freed _ => True
  | .held _ d a => a = false ∧ d.travelling = true
  | .closing _ d _ a => a = false ∧ d.travelling = true
  | .fd _ _ | .fresh _ _ | .lulled _ _ => False

def Shelved (c : ConnId) (h : Hold) : Prop :=
  h = .nothing ∨ ∃ d a, h = .held c d a ∧ (a = false → d.travelling = true)

/-- The connections of the queue. -/
def queued (w : World) : List ConnId :=
  w.queue.map fun task => task.context.tconn

/-- Everything in the world has one holder. -/
structure Owned (listenFd : Int) (w : World) (g : Holding n) : Prop where
  sane : Sane w
  sees : ∀ x, Sees w (g x)
  alone : ∀ x y c, (g x).conn = some c → (g y).conn = some c → x = y
  workers : ∀ i, Disarmed (g (.thread (.worker i)))
  shelves : ∀ c, Shelved c (g (.shelf c))
  entries : ∀ f e c, w.te.lookup f = some e → e.context = some c →
    ∃ x, (g x).registered = some c ∧ (g x).desc = some f
  others : ∀ f e, w.te.lookup f = some e → e.context = none → f = listenFd
  listening : HasDesc w listenFd none (some ⟨listenFd, some .tgxAcceptionHandler, none⟩) true
  queue : ∀ c, c ∈ queued w ↔ ∃ d, g (.shelf c) = .held c d false
  nodup : (queued w).Nodup

section
variable {luck : Luck} {onLoop : Bool} {w w' : World} {h : Hold} {c : ConnId} {d : Conn} {a : Bool}
  {o : Op} {r : Ret o}

theorem gives_cases (hmay : h.may luck onLoop o) (hg : h.gives o r = some (c, d, a)) :
    h.conn = some c ∧ h.next o r = .nothing ∧ (a = false → d.travelling = true) ∧
      (a = true → h.desc = some d.fd) ∧ (a = false ↔ ∃ task, o = .pushTask task) := by
  have hch := changes_call (r := r) hmay
  rw [hg] at hch
  generalize h.next o r = h' at hch ⊢
  cases hch with
  | returned => exact ⟨rfl, rfl, nofun, fun _ => rfl, by simp⟩
  | registered => exact ⟨rfl, rfl, nofun, fun _ => rfl, by simp⟩
  | pushed ht => exact ⟨rfl, rfl, fun _ => ht, nofun, by simp⟩

theorem next_conn (hmay : h.may luck onLoop o) (hr : respond w o r = some w')
    (hc : (h.next o r).conn = some c) : h.conn = some c ∨ w.nextConn ≤ c := by
  have hch := changes_call (r := r) hmay
  generalize h.next o r = h', h.gives o r = g at hch hc
  cases hch with
  | allocated =>
    obtain rfl := Option.some.inj hc
    simp only [respond] at hr
    split at hr
    · rename_i hnew
      exact .inr hnew.ge
    · cases hr
  | unallocated | armed | returned | registered | unregistrable | accepted | closedFd | pushed => cases hc
  | _ => exact .inl hc

/-- A worker's calls leave its descriptor out of the interest set until it puts it down. -/
theorem next_disarmed (hd : Disarmed h) (hmay : h.may luck false o) : Disarmed (h.next o r) := by
  have hch := changes_call (r := r) hmay
  generalize h.next o r = h', h.gives o r = g at hch
  cases hch with
  | stay => exact hd
  | storeHeld _ ht => exact ⟨hd.1, ht hd.2⟩
  | lulled => cases hd.1
  | disarmedClosing ht => cases ht.symm.trans hd.2
  | unregistered => exact hd
  | accepted hloop => cases hloop
  | closed => exact ⟨rfl, hd.2⟩
  | unallocated | freed | returned | closedFd | pushed => trivial
  | _ => exact hd.elim

private theorem respond_queue (hr : respond w o r = some w') (hpush : ∀ task, o ≠ .pushTask task) :
    w'.queue = w.queue := by
  cases o
  case pushTask task => exact absurd rfl (hpush task)
  case eventCtl op f event =>
    obtain ⟨_, rfl⟩ := eventCtl_world hr
    rfl
  case scheduleUnregister f c =>
    obtain ⟨_, _, rfl⟩ := scheduleUnregister_world hr
    rfl
  all_goals simp only [respond] at hr
  all_goals repeat' split at hr
  all_goals first
    | exact Option.some.inj hr ▸ rfl
    | cases hr

private theorem respond_queued (hmay : h.may luck onLoop o) (hr : respond w o r = some w') :
    (∃ c d, h.gives o r = some (c, d, false) ∧ queued w' = queued w ++ [c]) ∨
      ((∀ c d, h.gives o r ≠ some (c, d, false)) ∧ queued w' = queued w) := by
  by_cases hpush : ∃ task, o = .pushTask task
  · obtain ⟨task, rfl⟩ := hpush
    obtain ⟨d, rfl, -⟩ := hmay
    obtain rfl := Option.some.inj hr
    exact .inl ⟨_, d, rfl, List.map_append⟩
  · refine .inr ⟨fun c d hg => hpush ((gives_cases hmay hg).2.2.2.2.mp rfl), ?_⟩
    rw [queued, respond_queue hr fun task ho => hpush ⟨task, ho⟩, queued]

end

section
variable {luck : Luck} {listenFd : Int} {w w' : World} {g : Holding n} {t : Thread n} {o : Op} {r : Ret o}

theorem Owned.fd_on_loop (ho : Owned listenFd w g) {f : Int} {a : Bool}
    (hf : g (.thread t) = .fd f a) : t.isLoop = true := by
  cases t with
  | loop => rfl
  | worker i =>
    have hworker := ho.workers i
    rw [hf] at hworker
    exact hworker.elim

/-- No two holders have one open descriptor. -/
theorem Owned.desc_apart (ho : Owned listenFd w g) {x y : Holder n} {f : Int}
    (hx : (g x).desc = some f) (hy : (g y).desc = some f) : x = y := by
  have hsame : (g x).owner = (g y).owner := by
    simpa using ((ho.sees x).socket hx).symm.trans ((ho.sees y).socket hy)
  have hloop : ∀ z a, g z = .fd f a → z = .thread .loop := by
    intro z a hz
    cases z with
    | thread t =>
      have ht := ho.fd_on_loop hz
      cases t with
      | loop => rfl
      | worker i => cases ht
    | shelf c =>
      obtain hnone | ⟨d, a', hheld, -⟩ := ho.shelves c
      · rw [hnone] at hz
        cases hz
      · rw [hheld] at hz
        cases hz
  obtain ⟨a, hxfd⟩ | ⟨c, hxc, hxo⟩ := desc_cases hx
  · obtain ⟨a', hyfd⟩ | ⟨c, -, hyo⟩ := desc_cases hy
    · rw [hloop x a hxfd, hloop y a' hyfd]
    · rw [hxfd, hyo] at hsame
      cases hsame
  · obtain ⟨a', hyfd⟩ | ⟨c', hyc, hyo⟩ := desc_cases hy
    · rw [hyfd, hxo] at hsame
      cases hsame
    · obtain rfl := Option.some.inj (hxo.symm.trans (hsame.trans hyo))
      exact ho.alone x y c hxc hyc

theorem Owned.listen_apart (ho : Owned listenFd w g) (x : Holder n) : (g x).desc ≠ some listenFd := by
  intro hx
  obtain ⟨a, hfd⟩ | ⟨c, -, howner⟩ := desc_cases hx
  · have hs := ho.sees x
    rw [hfd] at hs
    have hentry := hs.entry
    rw [ho.listening.entry] at hentry
    cases hentry
  · have hsocket := (ho.sees x).socket hx
    rw [ho.listening.socket, howner] at hsocket
    cases hsocket

private theorem Owned.conn_apart (ho : Owned listenFd w g) {y : Holder n} {c : ConnId} (hy : y ≠ .thread t)
    (hc : (g y).conn = some c) : (g (.thread t)).conn ≠ some c :=
  fun hown => hy (ho.alone _ _ _ hc hown)

private theorem Owned.unshelved (ho : Owned listenFd w g) {c : ConnId} (hown : (g (.thread t)).conn = some c) (d : Conn)
    (a : Bool) : g (.shelf c) ≠ .held c d a := by
  intro hheld
  have hc : (g (.shelf c)).conn = some c := by rw [hheld]; rfl
  have hne : Holder.shelf c ≠ .thread t := nofun
  exact ho.conn_apart hne hc hown

private theorem Owned.unqueued (ho : Owned listenFd w g) {c : ConnId} (hown : (g (.thread t)).conn = some c) :
    c ∉ queued w := by
  intro hin
  obtain ⟨d, hheld⟩ := (ho.queue c).mp hin
  exact ho.unshelved hown d false hheld

private theorem Owned.alone_call (ho : Owned listenFd w g) (hmay : (g (.thread t)).may luck t.isLoop o)
    (hr : respond w o r = some w') {x y : Holder n} {c : ConnId}
    (hxc : (g.put t ((g (.thread t)).next o r) ((g (.thread t)).gives o r) x).conn = some c)
    (hyc : (g.put t ((g (.thread t)).next o r) ((g (.thread t)).gives o r) y).conn = some c) : x = y := by
  have hold : ∀ {z}, z ≠ .thread t → (g z).conn = some c →
      ¬ ((g (.thread t)).conn = some c ∨ w.nextConn ≤ c) := by
    rintro z hz hzc (hown | hnew)
    · exact ho.conn_apart hz hzc hown
    · exact absurd ((ho.sees z).born ho.sane hzc) (not_lt.mpr hnew)
  have hmoved : ∀ {z}, (g.put t ((g (.thread t)).next o r) ((g (.thread t)).gives o r) z).conn = some c →
      (z = .thread t ∧ ((g (.thread t)).next o r).conn = some c) ∨
      (z = .shelf c ∧ ∃ d a, (g (.thread t)).gives o r = some (c, d, a)) ∨
      (z ≠ .thread t ∧ (g z).conn = some c) := by
    intro z hz
    obtain ⟨hzt, hput⟩ | ⟨c', d, a, hg, hzc, hput⟩ | ⟨hzt, -, hput⟩ :=
      g.put_cases t ((g (.thread t)).next o r) ((g (.thread t)).gives o r) z
    · rw [hput] at hz
      exact .inl ⟨hzt, hz⟩
    · rw [hput] at hz
      obtain rfl := Option.some.inj hz
      exact .inr (.inl ⟨hzc, d, a, hg⟩)
    · rw [hput] at hz
      exact .inr (.inr ⟨hzt, hz⟩)
  have hempty : ∀ {d a}, (g (.thread t)).gives o r = some (c, d, a) →
      ((g (.thread t)).next o r).conn ≠ some c := by
    intro d a hg
    rw [(gives_cases hmay hg).2.1]
    nofun
  obtain ⟨rfl, hxn⟩ | ⟨rfl, d, a, hxg⟩ | ⟨hxt, hxo⟩ := hmoved hxc
  · obtain ⟨rfl, -⟩ | ⟨-, d, a, hyg⟩ | ⟨hyt, hyo⟩ := hmoved hyc
    · rfl
    · exact absurd hxn (hempty hyg)
    · exact absurd (next_conn hmay hr hxn) (hold hyt hyo)
  · obtain ⟨-, hyn⟩ | ⟨rfl, -⟩ | ⟨hyt, hyo⟩ := hmoved hyc
    · exact absurd hyn (hempty hxg)
    · rfl
    · exact absurd (.inl (gives_cases hmay hxg).1) (hold hyt hyo)
  · obtain ⟨-, hyn⟩ | ⟨-, d, a, hyg⟩ | ⟨hyt, hyo⟩ := hmoved hyc
    · exact absurd (next_conn hmay hr hyn) (hold hxt hxo)
    · exact absurd (.inl (gives_cases hmay hyg).1) (hold hxt hxo)
    · exact ho.alone x y c hxo hyo

private theorem Owned.entries_call (ho : Owned listenFd w g) (hmay : (g (.thread t)).may luck t.isLoop o)
    (hm : Moved w w' (g (.thread t)) ((g (.thread t)).next o r) ((g (.thread t)).gives o r)) {f : Int}
    {e : Schedule Handler ConnId} {c : ConnId} (he : w'.te.lookup f = some e) (hc : e.context = some c) :
    ∃ x, (g.put t ((g (.thread t)).next o r) ((g (.thread t)).gives o r) x).registered = some c ∧
      (g.put t ((g (.thread t)).next o r) ((g (.thread t)).gives o r) x).desc = some f := by
  by_cases hown : (g (.thread t)).desc = some f
  · obtain hkept | ⟨c', d, a, hg, rfl⟩ | hnone := hm.desc f hown
    · obtain ⟨c', hregistered, hcontext⟩ := hm.sees.registered hkept he
      obtain rfl := Option.some.inj (hcontext.symm.trans hc)
      exact ⟨.thread t, by simpa using hregistered, by simpa using hkept⟩
    · obtain ⟨c'', hregistered, hcontext⟩ := (hm.given c' d a hg).registered rfl he
      obtain rfl := Option.some.inj hregistered
      obtain rfl := Option.some.inj (hcontext.symm.trans hc)
      refine ⟨.shelf c', ?_⟩
      rw [hg, Holding.put_shelf]
      exact ⟨rfl, rfl⟩
    · rw [hnone] at he
      cases he
  · rw [(hm.touches.lookup f hown).1] at he
    obtain ⟨x, hregistered, hdesc'⟩ := ho.entries f e c he hc
    refine ⟨x, ?_⟩
    obtain ⟨rfl, -⟩ | ⟨c', d', a', hg, rfl, -⟩ | ⟨-, -, hput⟩ :=
      g.put_cases t ((g (.thread t)).next o r) ((g (.thread t)).gives o r) x
    · exact absurd hdesc' hown
    · obtain hnone | ⟨d'', a'', hshelf, -⟩ := ho.shelves c'
      · rw [hnone] at hdesc'
        cases hdesc'
      · exact absurd hshelf (ho.unshelved (gives_cases hmay hg).1 _ _)
    · rw [hput]
      exact ⟨hregistered, hdesc'⟩

/-- After a call the queue is what lies on the shelves out of the interest set. -/
private theorem Owned.queue_call (ho : Owned listenFd w g) (hmay : (g (.thread t)).may luck t.isLoop o)
    (hr : respond w o r = some w') (c : ConnId) :
    c ∈ queued w' ↔
      ∃ d, g.put t ((g (.thread t)).next o r) ((g (.thread t)).gives o r) (.shelf c) = .held c d false := by
  have hold : ∀ {d a}, (g (.thread t)).gives o r = some (c, d, a) → c ∉ queued w :=
    fun hg => ho.unqueued (gives_cases hmay hg).1
  obtain ⟨heq, -⟩ | ⟨c', d, a, hg, heq, hput⟩ | ⟨-, hne, hput⟩ := g.put_cases t _ _ (.shelf c)
  · cases heq
  · obtain rfl := Holder.shelf.inj heq
    rw [hput]
    obtain ⟨c', d', hg', hq⟩ | ⟨hno, hq⟩ := respond_queued hmay hr
    · obtain ⟨rfl, rfl, rfl⟩ := by simpa [hg] using hg'
      simp [hq]
    · have ha : a ≠ false := by
        rintro rfl
        exact hno c d hg
      simp [hq, hold hg, ha]
  · rw [hput]
    obtain ⟨c', d', hg', hq⟩ | ⟨-, hq⟩ := respond_queued hmay hr
    · have hother : c ≠ c' := by
        rintro rfl
        exact hne c d' false hg' rfl
      simpa [hq, hother] using ho.queue c
    · rw [hq]
      exact ho.queue c

theorem Owned.call (ho : Owned listenFd w g) (hmay : (g (.thread t)).may luck t.isLoop o)
    (hgrant : luck.Grants t.isLoop o r) (hr : respond w o r = some w') :
    (g (.thread t)).allows luck o r ∧
      Owned listenFd w' (g.put t ((g (.thread t)).next o r) ((g (.thread t)).gives o r)) := by
  obtain ⟨hallows, hm⟩ := moved_call ho.sane (ho.sees _) hmay (fun _ _ hf => ho.fd_on_loop hf) hgrant hr
  refine ⟨hallows, ?_⟩
  constructor
  · exact hm.sane
  · intro x
    obtain ⟨-, hput⟩ | ⟨c, d, a, hg, -, hput⟩ | ⟨hx, -, hput⟩ := g.put_cases t _ _ x
    · rw [hput]
      exact hm.sees
    · rw [hput]
      exact hm.given c d a hg
    · rw [hput]
      exact (ho.sees x).frame ho.sane hm.touches (fun c => ho.conn_apart hx)
        fun f hf hown => hx (ho.desc_apart hf hown)
  · exact fun x y c hxc hyc => ho.alone_call hmay hr hxc hyc
  · intro i
    obtain ⟨heq, hput⟩ | ⟨c, d, a, -, heq, -⟩ | ⟨-, -, hput⟩ := g.put_cases t _ _ (.thread (.worker i))
    · rw [hput, ← heq]
      have ht : t = .worker i := (Holder.thread.inj heq).symm
      rw [ht] at hmay
      exact next_disarmed (ho.workers i) hmay
    · cases heq
    · rw [hput]
      exact ho.workers i
  · intro c
    obtain ⟨heq, -⟩ | ⟨c', d, a, hg, heq, hput⟩ | ⟨-, -, hput⟩ := g.put_cases t _ _ (.shelf c)
    · cases heq
    · obtain rfl := Holder.shelf.inj heq
      rw [hput]
      exact .inr ⟨d, a, rfl, (gives_cases hmay hg).2.2.1⟩
    · rw [hput]
      exact ho.shelves c
  · exact fun f e c he hc => ho.entries_call hmay hm he hc
  · intro f e he hc
    by_cases hown : (g (.thread t)).desc = some f
    · obtain hkept | ⟨c, d, a, hg, rfl⟩ | hnone := hm.desc f hown
      · obtain ⟨c, -, hcontext⟩ := hm.sees.registered hkept he
        rw [hc] at hcontext
        cases hcontext
      · obtain ⟨c, -, hcontext⟩ := (hm.given c d a hg).registered rfl he
        rw [hc] at hcontext
        cases hcontext
      · rw [hnone] at he
        cases he
    · rw [(hm.touches.lookup f hown).1] at he
      exact ho.others f e he hc
  · exact ho.listening.frame hm.touches (ho.listen_apart _)
  · exact ho.queue_call hmay hr
  · obtain ⟨c, d, hg, hq⟩ | ⟨-, hq⟩ := respond_queued hmay hr
    · have hold : c ∉ queued w := ho.unqueued (gives_cases hmay hg).1
      rw [hq]
      exact ho.nodup.append (List.nodup_singleton c) (by simpa using hold)
    · rw [hq]
      exact ho.nodup

end

section
variable {listenFd : Int} {w w' : World} {g : Holding n}

private theorem swap_cases (g : Holding n) (t : Thread n) (c : ConnId) (x : Holder n) :
    (x = .thread t ∧ (g ∘ Equiv.swap (.shelf c) (.thread t)) x = g (.shelf c)) ∨
      (x = .shelf c ∧ (g ∘ Equiv.swap (.shelf c) (.thread t)) x = g (.thread t)) ∨
      (x ≠ .thread t ∧ x ≠ .shelf c ∧ (g ∘ Equiv.swap (.shelf c) (.thread t)) x = g x) := by
  by_cases ht : x = .thread t
  · exact .inl ⟨ht, by simp [ht]⟩
  · by_cases hc : x = .shelf c
    · exact .inr (.inl ⟨hc, by simp [hc]⟩)
    · exact .inr (.inr ⟨ht, hc, by simp [Equiv.swap_apply_of_ne_of_ne hc ht]⟩)

/-- A thread and a shelf change what they have. -/
theorem Owned.swap (ho : Owned listenFd w g) (halike : Alike w w') {t : Thread n} {c : ConnId}
    (hthread : ∀ i, t = .worker i → Disarmed (g (.shelf c))) (hshelf : Shelved c (g (.thread t)))
    (hqueue : ∀ c', c' ∈ queued w' ↔
      ∃ d, (g ∘ Equiv.swap (.shelf c) (.thread t)) (.shelf c') = .held c' d false)
    (hnodup : (queued w').Nodup) :
    Owned listenFd w' (g ∘ Equiv.swap (.shelf c) (.thread t)) := by
  constructor
  · exact halike.sane ho.sane
  · exact fun x => halike.sees ho.sane (ho.sees _)
  · exact fun x y c' hx hy => (Equiv.swap _ _).injective (ho.alone _ _ c' hx hy)
  · intro i
    obtain ⟨heq, hswap⟩ | ⟨heq, -⟩ | ⟨-, -, hswap⟩ := swap_cases g t c (.thread (.worker i))
    · rw [hswap]
      exact hthread i (Holder.thread.inj heq).symm
    · cases heq
    · rw [hswap]
      exact ho.workers i
  · intro c'
    obtain ⟨heq, -⟩ | ⟨heq, hswap⟩ | ⟨-, -, hswap⟩ := swap_cases g t c (.shelf c')
    · cases heq
    · obtain rfl := Holder.shelf.inj heq
      rw [hswap]
      exact hshelf
    · rw [hswap]
      exact ho.shelves c'
  · intro f e c' he hc'
    rw [halike.te] at he
    obtain ⟨x, hx⟩ := ho.entries f e c' he hc'
    exact ⟨Equiv.swap (.shelf c) (.thread t) x, by simpa using hx⟩
  · rw [halike.te]
    exact ho.others
  · exact ho.listening.frame (halike.touches .nothing) nofun
  · exact hqueue
  · exact hnodup

theorem Owned.pick (ho : Owned listenFd w g) (halike : Alike w w') {t : Thread n} {c : ConnId}
    (hempty : g (.thread t) = .nothing) (hthread : ∀ i, t = .worker i → Disarmed (g (.shelf c)))
    (hqueue : ∀ c', c' ∈ queued w' ↔ c' ∈ queued w ∧ c' ≠ c) (hnodup : (queued w').Nodup) :
    Owned listenFd w' (g.pick t c) := by
  have hpick : g.pick t c = g ∘ Equiv.swap (.shelf c) (.thread t) := by
    rw [Equiv.comp_swap_eq_update, hempty]
    rfl
  rw [hpick]
  apply ho.swap halike hthread
  · exact .inl hempty
  · intro c'
    rw [hqueue, ho.queue]
    obtain ⟨heq, -⟩ | ⟨heq, hswap⟩ | ⟨-, hne, hswap⟩ := swap_cases g t c (.shelf c')
    · cases heq
    · obtain rfl := Holder.shelf.inj heq
      rw [hswap]
      simp [hempty]
    · have hne' : c' ≠ c := fun h => hne (h ▸ rfl)
      rw [hswap]
      simp [hne']
  · exact hnodup

theorem Owned.shelve (ho : Owned listenFd w g) {t : Thread n} {c : ConnId} {d : Conn}
    (hheld : g (.thread t) = .held c d true) :
    Owned listenFd w (g.put t .nothing (some (c, d, true))) := by
  have hshelf : g (.shelf c) = .nothing := by
    obtain hnone | ⟨d', a, hother, -⟩ := ho.shelves c
    · exact hnone
    · have heq := ho.alone (.shelf c) (.thread t) c (by rw [hother]; rfl) (by rw [hheld]; rfl)
      cases heq
  have hput : g.put t .nothing (some (c, d, true)) = g ∘ Equiv.swap (.shelf c) (.thread t) := by
    rw [Equiv.comp_swap_eq_update, hheld, hshelf]
    rfl
  rw [hput]
  apply ho.swap (Alike.refl w)
  · intro i _
    rw [hshelf]
    trivial
  · exact .inr ⟨d, true, hheld, nofun⟩
  · intro c'
    rw [ho.queue]
    obtain ⟨heq, -⟩ | ⟨heq, hswap⟩ | ⟨-, -, hswap⟩ := swap_cases g t c (.shelf c')
    · cases heq
    · obtain rfl := Holder.shelf.inj heq
      rw [hswap]
      simp [hheld, hshelf]
    · rw [hswap]
  · exact ho.nodup

/-- A thread forgets what has no entry. -/
theorem Owned.drop (ho : Owned listenFd w g) {t : Thread n} (hnone : (g (.thread t)).registered = none) :
    Owned listenFd w (g.put t .nothing none) := by
  have hkept : ∀ x, (x = .thread t ∧ g.put t .nothing none x = .nothing) ∨
      (x ≠ .thread t ∧ g.put t .nothing none x = g x) := by
    intro x
    obtain h | ⟨_, _, _, hg, -⟩ | ⟨hx, -, hput⟩ := g.put_cases t .nothing none x
    · exact .inl h
    · cases hg
    · exact .inr ⟨hx, hput⟩
  constructor
  · exact ho.sane
  · intro x
    obtain ⟨-, hput⟩ | ⟨-, hput⟩ := hkept x
    · rw [hput]
      trivial
    · rw [hput]
      exact ho.sees x
  · intro x y c hx hy
    obtain ⟨-, hput⟩ | ⟨-, hput⟩ := hkept x
    · rw [hput] at hx
      cases hx
    · rw [hput] at hx
      obtain ⟨-, hput'⟩ | ⟨-, hput'⟩ := hkept y
      · rw [hput'] at hy
        cases hy
      · rw [hput'] at hy
        exact ho.alone x y c hx hy
  · intro i
    obtain ⟨-, hput⟩ | ⟨-, hput⟩ := hkept (.thread (.worker i))
    · rw [hput]
      trivial
    · rw [hput]
      exact ho.workers i
  · intro c
    obtain ⟨heq, -⟩ | ⟨-, hput⟩ := hkept (.shelf c)
    · cases heq
    · rw [hput]
      exact ho.shelves c
  · intro f e c he hc
    obtain ⟨x, hx⟩ := ho.entries f e c he hc
    refine ⟨x, ?_⟩
    obtain ⟨rfl, -⟩ | ⟨-, hput⟩ := hkept x
    · rw [hnone] at hx
      cases hx.1
    · rw [hput]
      exact hx
  · exact ho.others
  · exact ho.listening
  · intro c
    obtain ⟨heq, -⟩ | ⟨-, hput⟩ := hkept (.shelf c)
    · cases heq
    · rw [hput]
      exact ho.queue c
  · exact ho.nodup

/-- A poll fills the array of events. -/
theorem Owned.poll (ho : Owned listenFd w g) {te : TgxEvent Handler ConnId} {nEvent : Int}
    {wait : Option (List EpollEvent)} (h : tgxEventPoll w.te wait = (nEvent, te)) :
    Owned listenFd { w with te := te } g := by
  obtain ⟨events, rfl⟩ := TgxEvent.poll_events h
  have hdesc : ∀ {f owner entry a}, HasDesc w f owner entry a →
      HasDesc { w with te := { w.te with epollEvents := events } } f owner entry a :=
    fun hf => ⟨hf.pos, hf.socket, hf.entry, hf.armed⟩
  have hconn : ∀ {c d k}, HasConn w c d k →
      HasConn { w with te := { w.te with epollEvents := events } } c d k :=
    fun hc => ⟨hc.conn, hc.closes⟩
  constructor
  · exact ⟨⟨ho.sane.started.engine, ho.sane.started.epollFd⟩, ho.sane.wellFormed, ho.sane.closed,
      ho.sane.zero, ho.sane.unborn, ho.sane.closes⟩
  · intro x
    have hs := ho.sees x
    cases hx : g x with
    | nothing => trivial
    | fd f a =>
      rw [hx] at hs
      exact hdesc hs
    | fresh c d =>
      rw [hx] at hs
      obtain ⟨hc, hsized, htravelling, hf⟩ := hs
      exact ⟨hconn hc, hsized, htravelling, hdesc hf⟩
    | held c d a =>
      rw [hx] at hs
      obtain ⟨hc, hsized, hrange, hh, hne, hf⟩ := hs
      exact ⟨hconn hc, hsized, hrange, hh, hne, hdesc hf⟩
    | lulled c d =>
      rw [hx] at hs
      obtain ⟨hc, hsized, hrange, hf⟩ := hs
      exact ⟨hconn hc, hsized, hrange, hdesc hf⟩
    | closing c d isOpen a =>
      rw [hx] at hs
      obtain ⟨hc, hpos, hf⟩ := hs
      exact ⟨hconn hc, hpos, fun hopen => hdesc (hf hopen)⟩
    | freed c =>
      rw [hx] at hs
      exact hs
  · exact ho.alone
  · exact ho.workers
  · exact ho.shelves
  · exact ho.entries
  · exact ho.others
  · exact hdesc ho.listening
  · exact ho.queue
  · exact ho.nodup

/-- Nobody has anything when the server starts. -/
theorem owned_fresh {s : State n} (hs : s.Fresh listenFd) : Owned listenFd s.world (Holding.none : Holding n) := by
  obtain ⟨maxfds, epollFd, hepoll, hreg⟩ := hs.table
  obtain ⟨hwf', -, ⟨-, hrange, hlook⟩ | ⟨hneg, -⟩⟩ := TgxEvent.register_spec
    (TgxEvent.wellFormed_init maxfds epollFd) (TgxEvent.lookup_init maxfds epollFd listenFd) hreg
  swap
  · cases hneg
  have hother : ∀ f, f ≠ listenFd → s.world.te.lookup f = none := by
    intro f hf
    rw [hlook, if_neg hf, TgxEvent.lookup_init]
  constructor
  · constructor
    · have hstarted : (tgxEventInit maxfds epollFd : TgxEvent Handler ConnId).Started := ⟨rfl, hepoll⟩
      exact hstarted.register hreg
    · exact hwf'
    · intro f hclosed
      have hne : f ≠ listenFd := by
        rintro rfl
        rw [hs.listening.2] at hclosed
        cases hclosed
      exact ⟨hother f hne, by simp [hs.interest, hne]⟩
    · exact hs.zero
    · intro c _
      simp [hs.conns, hs.closes]
    · intro c
      simp [hs.closes]
  · exact fun x => trivial
  · exact fun x y c hx => nomatch hx
  · exact fun i => trivial
  · exact fun c => .inl rfl
  · intro f e c he hc
    by_cases hf : f = listenFd
    · rw [hlook, if_pos hf] at he
      obtain rfl := Option.some.inj he
      cases hc
    · rw [hother f hf] at he
      cases he
  · intro f e he _
    by_contra hf
    rw [hother f hf] at he
    cases he
  · refine ⟨hs.listening.1, hs.listening.2, ?_, ?_⟩
    · rw [hlook, if_pos rfl]
    · simp [hs.interest]
  · intro c
    simp [queued, hs.queue, Holding.none]
  · simp [queued, hs.queue]

end
end TinyosGraphics.Server
