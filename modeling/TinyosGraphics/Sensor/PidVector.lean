import Mathlib.Data.List.Chain
import Mathlib.Data.List.Perm.Subperm
import TinyosGraphics.Lib.Chain

/-! The process list of `pid_vector.c` as it lies in memory: a sentinel, and behind it nodes that are linked
both ways. -/
namespace TinyosGraphics.PidVector
open Lib

abbrev Addr := Nat

/-- What the list reads and writes of a `pid_info_t`. -/
structure PidInfo where
  id : Int
  name : List UInt8
  next : Option Addr
  prev : Option Addr

/-- `pid_vector_t`, the nodes that are allocated, and how many of them `calloc` has given so far. -/
structure PidVectorT where
  head : Option Addr
  tail : Option Addr
  numProcess : Int
  nodes : Addr → Option PidInfo
  given : Nat

namespace PidVectorT

/-- The node at a pointer; `none` for a null pointer and for freed memory. -/
def deref (pv : PidVectorT) (p : Option Addr) : Option PidInfo :=
  p.bind pv.nodes

def modify (pv : PidVectorT) (p : Option Addr) (f : PidInfo → PidInfo) : Option PidVectorT :=
  match p with
  | none => none
  | some a => (pv.nodes a).map fun n => { pv with nodes := Function.update pv.nodes a (some (f n)) }

/-- `free`; `none` where the node has been freed before. -/
def free (pv : PidVectorT) (p : Option Addr) : Option PidVectorT :=
  match p with
  | none => some pv
  | some a => (pv.nodes a).map fun _ => { pv with nodes := Function.update pv.nodes a none }

/-- The caller's `calloc`, which gives a new object, and what the caller fills in. -/
def calloc (pv : PidVectorT) (id : Int) (name : List UInt8) : PidVectorT :=
  { pv with nodes := Function.update pv.nodes pv.given (some ⟨id, name, none, none⟩), given := pv.given + 1 }

/-- The `next` links in memory. -/
def next (pv : PidVectorT) (a : Addr) : Option (Option Addr) :=
  (pv.nodes a).map PidInfo.next

end PidVectorT

def pidVectorInit : PidVectorT where
  head := some 0
  tail := some 0
  numProcess := 0
  nodes := Function.update (fun _ => none) 0 (some ⟨0, [], none, none⟩)
  given := 1

def pidVectorAdd (pv : PidVectorT) (pinfo : Option Addr) : Option (Int × PidVectorT) :=
  if pinfo = none then some (-1, pv)
  else do
    let pv ← pv.modify pv.tail fun n => { n with next := pinfo }
    let pv ← pv.modify pinfo fun n => { n with prev := pv.tail }
    let pv := { pv with tail := pinfo }
    let pv ← pv.modify pinfo fun n => { n with next := none }
    some (0, pv)

/-- `q->next = p->next; p->next->prev = p; free(q)`, as all three loops have it. -/
def unlink (p q : Option Addr) (pv : PidVectorT) : Option PidVectorT := do
  let n ← pv.deref p
  let pv ← pv.modify q fun m => { m with next := n.next }
  let n ← pv.deref p
  let pv ← pv.modify n.next fun m => { m with prev := p }
  pv.free q

/-- The loop of the deletions. A walk that takes more steps than nodes have been given never ends. -/
def delLoop (hit : Int → List UInt8 → Bool) : Nat → Option Addr → Option Addr → PidVectorT →
    Option (Int × PidVectorT)
  | 0, _, _, _ => none
  | fuel + 1, p, q, pv =>
    if p = none then some (-1, pv)
    else do
      let n ← pv.deref p
      if hit n.id n.name then (unlink p q pv).map fun pv => (0, pv) else delLoop hit fuel n.next n.next pv

def del (hit : Int → List UInt8 → Bool) (pv : PidVectorT) : Option (Int × PidVectorT) := do
  let sentinel ← pv.deref pv.head
  delLoop hit (pv.given + 1) sentinel.next pv.head pv

def pidVectorDelById (pv : PidVectorT) (id : Int) : Option (Int × PidVectorT) :=
  del (fun i _ => i == id) pv

def pidVectorDelByName (pv : PidVectorT) (name : List UInt8) : Option (Int × PidVectorT) :=
  del (fun _ s => s == name) pv

def destroyLoop : Nat → Option Addr → Option Addr → PidVectorT → Option PidVectorT
  | 0, _, _, _ => none
  | fuel + 1, p, q, pv =>
    if p = none then some pv
    else do
      let pv ← unlink p q pv
      let n ← pv.deref p
      destroyLoop fuel n.next n.next pv

def pidVectorDestroy (pv : PidVectorT) : Option PidVectorT := do
  let sentinel ← pv.deref pv.head
  let pv ← destroyLoop (pv.given + 1) sentinel.next pv.head pv
  let pv ← pv.free pv.head
  some { pv with head := none, tail := none, numProcess := 0 }

/-- A process that was added, and its node. -/
structure Entry where
  node : Addr
  id : Int
  name : List UInt8

/-- These entries are in the list: behind the sentinel come their nodes, and no other is allocated. -/
structure Holds (pv : PidVectorT) (sentinel : Addr) (es : List Entry) : Prop where
  next : Chain pv.next pv.head (sentinel :: es.map Entry.node)
  prev : (sentinel :: es.map Entry.node).IsChain fun a b => (pv.nodes b).map PidInfo.prev = some (some a)
  tail : pv.tail = (sentinel :: es.map Entry.node).getLast?
  filled : ∀ e ∈ es, (pv.nodes e.node).map (fun n => (n.id, n.name)) = some (e.id, e.name)
  live : ∀ a, (pv.nodes a).isSome ↔ a ∈ sentinel :: es.map Entry.node
  given : ∀ a, pv.given ≤ a → pv.nodes a = none

inductive Op
  /-- a null pointer, or a new node with this id and name -/
  | add (pinfo : Option (Int × List UInt8))
  | delById (id : Int)
  | delByName (name : List UInt8)

namespace Op

def call (pv : PidVectorT) : Op → Option (Int × PidVectorT)
  | .add none => pidVectorAdd pv none
  | .add (some (id, name)) => pidVectorAdd (pv.calloc id name) (some pv.given)
  | .delById id => pidVectorDelById pv id
  | .delByName name => pidVectorDelByName pv name

def hits : Op → Int → List UInt8 → Bool
  | .add _, _, _ => false
  | .delById id, i, _ => i == id
  | .delByName name, _, s => s == name

def Adds : Op → Prop
  | .add pinfo => pinfo ≠ none
  | .delById _ | .delByName _ => False

/-- The later call is not asked to delete what the earlier one adds. -/
def Spares (earlier later : Op) : Prop :=
  ∀ id name, earlier = .add (some (id, name)) → later.hits id name = false

end Op

/-- What a deletion that returned `r` has done. -/
def Deleted (hit : Entry → Bool) (pv : PidVectorT) (es : List Entry) (r : Int) (pv' : PidVectorT)
    (es' : List Entry) : Prop :=
  (r = 0 ∧ ∃ e, es.find? hit = some e ∧ es' = es.eraseP hit ∧
    ∀ a, (pv'.nodes a).isSome ↔ (pv.nodes a).isSome ∧ a ≠ e.node) ∨
  (r = -1 ∧ es' = es ∧ pv' = pv)

def Obeys (pv : PidVectorT) (es : List Entry) (op : Op) (r : Int) (pv' : PidVectorT) (es' : List Entry) : Prop :=
  match op with
  | .add none => es' = es
  | .add (some (id, name)) => es' = es ++ [⟨pv.given, id, name⟩]
  | .delById _ | .delByName _ => Deleted (fun e => op.hits e.id e.name) pv es r pv' es'

/-- Every call returns and does its part, the list is in order between the calls, and `ends` is met after
the last. -/
def Managed (ends : PidVectorT → Prop) (sentinel : Addr) : PidVectorT → List Entry → List Op → Prop
  | pv, es, [] => Holds pv sentinel es ∧ ends pv
  | pv, es, op :: ops => Holds pv sentinel es ∧
    ∃ r pv' es', op.call pv = some (r, pv') ∧ Obeys pv es op r pv' es' ∧ Managed ends sentinel pv' es' ops

/-- The destruction returns, and has freed whatever was allocated. -/
def Destroyed (pv : PidVectorT) : Prop :=
  ∃ pv', pidVectorDestroy pv = some pv' ∧ ∀ a, pv'.nodes a = none

section
variable {pv pv' : PidVectorT} {p q : Option Addr} {a s : Addr} {f : PidInfo → PidInfo}

private theorem modify_cases (h : pv.modify p f = some pv') : ∃ a n, p = some a ∧ pv.nodes a = some n ∧
    pv' = { pv with nodes := Function.update pv.nodes a (some (f n)) } := by
  cases p with
  | none => cases h
  | some a =>
    obtain ⟨n, hn, rfl⟩ := Option.map_eq_some_iff.mp h
    exact ⟨a, n, rfl, hn, rfl⟩

private theorem modify_other (h : pv.modify p f = some pv') {c : Addr} (hc : p ≠ some c) :
    pv'.nodes c = pv.nodes c := by
  obtain ⟨a, n, rfl, -, rfl⟩ := modify_cases h
  have hca : c ≠ a := fun heq => hc (congrArg some heq.symm)
  simp [hca]

private theorem map_update {β : Type} {nodes : Addr → Option PidInfo} {n m : PidInfo} (hn : nodes a = some n)
    (g : PidInfo → β) (hg : g m = g n) (c : Addr) :
    (Function.update nodes a (some m) c).map g = (nodes c).map g := by
  by_cases hca : c = a
  · subst hca
    rw [Function.update_self, hn, Option.map_some, Option.map_some, hg]
  · rw [Function.update_of_ne hca]

private theorem modify_map {β : Type} (h : pv.modify p f = some pv') (g : PidInfo → β) (hg : ∀ n, g (f n) = g n)
    (c : Addr) : (pv'.nodes c).map g = (pv.nodes c).map g := by
  obtain ⟨a, n, -, hn, rfl⟩ := modify_cases h
  exact map_update hn g (hg n) c

private theorem modify_isSome (h : pv.modify p f = some pv') (c : Addr) :
    (pv'.nodes c).isSome = (pv.nodes c).isSome := by
  have hnode := modify_map h (fun _ => ()) (fun _ => rfl) c
  simpa using congrArg Option.isSome hnode

private theorem unlink_cases (h : unlink (some a) (some s) pv = some pv') :
    (∃ b, pv.next a = some (some b)) ∧ pv'.head = pv.head ∧
      (∀ c, (pv'.nodes c).isSome ↔ (pv.nodes c).isSome ∧ c ≠ s) ∧ ∀ c, c ≠ s → pv'.next c = pv.next c := by
  obtain ⟨n, hn, h⟩ := Option.bind_eq_some_iff.mp h
  obtain ⟨pv₁, h₁, h⟩ := Option.bind_eq_some_iff.mp h
  obtain ⟨n₁, hn₁, h⟩ := Option.bind_eq_some_iff.mp h
  obtain ⟨pv₂, h₂, h⟩ := Option.bind_eq_some_iff.mp h
  obtain ⟨m₂, -, rfl⟩ := Option.map_eq_some_iff.mp h
  have hn : pv.nodes a = some n := hn
  have hn₁ : pv₁.nodes a = some n₁ := hn₁
  have hsame : n₁.next = n.next := by
    obtain ⟨s', m, hs, hm, rfl⟩ := modify_cases h₁
    obtain rfl := Option.some.inj hs
    by_cases has : a = s
    · subst has
      obtain rfl : _ = n₁ := by simpa using hn₁
      rfl
    · obtain rfl : n = n₁ := by simpa [has, hn] using hn₁
      rfl
  have hhead : pv₂.head = pv.head := by
    obtain ⟨-, -, -, -, rfl⟩ := modify_cases h₂
    obtain ⟨-, -, -, -, rfl⟩ := modify_cases h₁
    rfl
  refine ⟨?_, hhead, fun c => ?_, fun c hc => ?_⟩
  · obtain ⟨b, -, hb, -⟩ := modify_cases h₂
    exact ⟨b, by rw [PidVectorT.next, hn, ← hb, hsame]; rfl⟩
  · rw [← modify_isSome h₁ c, ← modify_isSome h₂ c]
    by_cases hcs : c = s <;> simp [hcs]
  · have hsc : some s ≠ some c := fun heq => hc (Option.some.inj heq).symm
    show (Function.update pv₂.nodes s none c).map PidInfo.next = (pv.nodes c).map PidInfo.next
    rw [Function.update_of_ne hc, ← modify_other h₁ hsc]
    exact modify_map h₂ PidInfo.next (fun _ => rfl) c

end

section
variable {pv pv' : PidVectorT} {s s' : Addr} {es es' : List Entry} {hit : Int → List UInt8 → Bool}

theorem holds_init : Holds pidVectorInit 0 [] where
  next := ⟨rfl, none, rfl, rfl⟩
  prev := .singleton 0
  tail := rfl
  filled _ he := by cases he
  live a := by
    by_cases ha : a = 0 <;> simp [pidVectorInit, ha]
  given a ha := by
    have hne : a ≠ 0 := Nat.ne_of_gt ha
    simp [pidVectorInit, hne]

theorem Holds.head (h : Holds pv s es) : pv.head = some s :=
  h.next.1

private theorem Holds.sentinel (h : Holds pv s es) :
    ∃ n, pv.deref pv.head = some n ∧ Chain pv.next n.next (es.map Entry.node) := by
  obtain ⟨hhead, l, hnext, hrest⟩ := h.next
  obtain ⟨n, hn, rfl⟩ := Option.map_eq_some_iff.mp hnext
  exact ⟨n, by rw [hhead]; exact hn, hrest⟩

private theorem Holds.lt_given (h : Holds pv s es) {a : Addr} (ha : a ∈ s :: es.map Entry.node) : a < pv.given := by
  by_contra hge
  have hlive := (h.live a).mpr ha
  rw [h.given a (Nat.le_of_not_lt hge)] at hlive
  cases hlive

/-- The walk is not cut short. -/
theorem Holds.length_le (h : Holds pv s es) : es.length < pv.given + 1 := by
  have hsub : s :: es.map Entry.node ⊆ List.range pv.given := fun a ha => List.mem_range.mpr (h.lt_given ha)
  have hle := (List.subperm_of_subset h.next.nodup hsub).length_le
  rw [List.length_range, List.length_cons, List.length_map] at hle
  omega

private theorem delLoop_skip {front back : List Entry} {p : Option Addr}
    (hnext : Chain pv.next p ((front ++ back).map Entry.node))
    (hfilled : ∀ e ∈ front, (pv.nodes e.node).map (fun n => (n.id, n.name)) = some (e.id, e.name))
    (hmiss : ∀ e ∈ front, hit e.id e.name = false) (fuel : Nat) (q : Option Addr) :
    delLoop hit (fuel + front.length) p q pv =
      delLoop hit fuel (back.map Entry.node).head? (if front = [] then q else (back.map Entry.node).head?) pv := by
  induction front generalizing p q with
  | nil =>
    rw [hnext.eq_head?]
    rfl
  | cons e front ih =>
    obtain ⟨rfl, l, hlink, hrest⟩ := hnext
    obtain ⟨n, hn, rfl⟩ := Option.map_eq_some_iff.mp hlink
    have hloop := ih hrest (fun d hd => hfilled d (by simp [hd])) (fun d hd => hmiss d (by simp [hd])) n.next
    have hdata := hfilled e (by simp)
    obtain ⟨hid, hname⟩ : n.id = e.id ∧ n.name = e.name := by simpa [hn] using hdata
    have hno : hit n.id n.name = false := by
      rw [hid, hname]
      exact hmiss e (by simp)
    have hstep : delLoop hit (fuel + front.length + 1) (some e.node) q pv =
        delLoop hit (fuel + front.length) n.next n.next pv := by
      simp [delLoop, PidVectorT.deref, hn, hno]
    rw [List.length_cons, ← Nat.add_assoc, hstep, hloop, if_neg (List.cons_ne_nil e front)]
    cases front with
    | nil =>
      rw [if_pos rfl, hrest.eq_head?]
      rfl
    | cons d front => rw [if_neg (List.cons_ne_nil d front)]

private theorem del_miss (h : Holds pv s es) (hmiss : ∀ e ∈ es, hit e.id e.name = false) :
    del hit pv = some (-1, pv) := by
  obtain ⟨n, hn, hnext⟩ := h.sentinel
  obtain ⟨fuel, hfuel⟩ := Nat.exists_eq_add_of_lt h.length_le
  have hall : Chain pv.next n.next ((es ++ []).map Entry.node) := by rwa [List.append_nil]
  have hloop := delLoop_skip hall h.filled hmiss (fuel + 1) pv.head
  have hcount : pv.given + 1 = fuel + 1 + es.length := by omega
  rw [del, hn, hcount]
  exact hloop

private theorem not_holds_of_unlink (h : Holds pv s es) {front back : List Addr} {a f : Addr}
    (hsplit : s :: es.map Entry.node = front ++ f :: back) (hu : unlink (some a) (some f) pv = some pv') :
    ¬ Holds pv' s' es' := by
  intro h'
  obtain ⟨-, hhead, hlive, hlinks⟩ := unlink_cases hu
  have hnext : Chain pv.next pv.head (front ++ f :: back) := hsplit ▸ h.next
  have hreached : Reaches pv'.next pv'.head f :=
    hhead ▸ hnext.reaches_of_links fun c hc => hlinks c (hnext.ne_of_mem_front hc)
  have hstill := (h'.live f).mpr (h'.next.reaches_iff.mp hreached)
  exact ((hlive f).mp hstill).2 rfl

/-- At the first hit the trailing pointer is the sentinel if that is the first entry, and else the entry's own
node. -/
private theorem del_first {e : Entry} {front back : List Entry} (h : Holds pv s (front ++ e :: back))
    (hhit : hit e.id e.name = true) (hmiss : ∀ d ∈ front, hit d.id d.name = false) :
    del hit pv = (unlink (some e.node) (if front = [] then some s else some e.node) pv).map fun pv => (0, pv) := by
  obtain ⟨n, hn, hnext⟩ := h.sentinel
  obtain ⟨fuel, hfuel⟩ := Nat.exists_eq_add_of_lt h.length_le
  have hloop := delLoop_skip hnext (fun d hd => h.filled d (by simp [hd])) hmiss (fuel + back.length + 2) pv.head
  have hcount : pv.given + 1 = fuel + back.length + 2 + front.length := by
    rw [hfuel, List.length_append, List.length_cons]
    omega
  obtain ⟨m, hm, hdata⟩ := Option.map_eq_some_iff.mp (h.filled e (by simp))
  obtain ⟨hid, hname⟩ := Prod.mk.inj hdata
  have hgo : hit m.id m.name = true := by
    rw [hid, hname]
    exact hhit
  rw [del, hn, hcount]
  refine hloop.trans ?_
  rw [List.map_cons, List.head?_cons, h.head]
  simp [delLoop, PidVectorT.deref, hm, hgo]

/-- A deletion that hits an entry frees the sentinel, or leaves a link to the node it frees, or touches
memory that is not allocated. -/
private theorem del_hit (h : Holds pv s es) (hhit : ∃ e ∈ es, hit e.id e.name = true) {r : Int}
    (hdel : del hit pv = some (r, pv')) : ¬ Holds pv' s' es' := by
  have hsome : (es.find? fun e => hit e.id e.name).isSome = true := by simpa using hhit
  obtain ⟨e, he⟩ := Option.isSome_iff_exists.mp hsome
  obtain ⟨hit_e, front, back, rfl, hmiss⟩ := List.find?_eq_some_iff_append.mp he
  rw [del_first h hit_e fun d hd => by simpa using hmiss d hd] at hdel
  obtain ⟨pv'', hu, heq⟩ := Option.map_eq_some_iff.mp hdel
  obtain ⟨-, rfl⟩ := Prod.mk.inj heq
  by_cases hfront : front = []
  · subst hfront
    exact @not_holds_of_unlink _ _ _ _ _ _ h [] _ _ _ rfl hu
  · rw [if_neg hfront] at hu
    exact not_holds_of_unlink h (by rw [List.map_append, List.map_cons, ← List.cons_append]) hu

/-- The node behind which the next one is put. -/
theorem Holds.last (h : Holds pv s es) :
    ∃ front t n, s :: es.map Entry.node = front ++ [t] ∧ pv.tail = some t ∧ pv.nodes t = some n := by
  obtain hnil | ⟨front, t, hsplit⟩ := (s :: es.map Entry.node).eq_nil_or_concat
  · cases hnil
  rw [List.concat_eq_append] at hsplit
  obtain ⟨n, hn⟩ := Option.isSome_iff_exists.mp ((h.live t).mpr (by simp [hsplit]))
  refine ⟨front, t, n, hsplit, ?_, hn⟩
  rw [h.tail, hsplit, List.getLast?_concat]

private theorem add_eq {t : Addr} {n : PidInfo} (htail : pv.tail = some t) (hn : pv.nodes t = some n)
    (ht : t < pv.given)
    (id : Int) (name : List UInt8) : pidVectorAdd (pv.calloc id name) (some pv.given) = some (0,
      { pv with
        tail := some pv.given
        given := pv.given + 1
        nodes := Function.update (Function.update pv.nodes t (some { n with next := some pv.given })) pv.given
          (some ⟨id, name, none, some t⟩) }) := by
  have hne : t ≠ pv.given := Nat.ne_of_lt ht
  simp [pidVectorAdd, PidVectorT.calloc, PidVectorT.modify, htail, hn, hne, hne.symm]
  rw [Function.update_comm hne.symm, Function.update_idem]

private theorem add_spec (h : Holds pv s es) (id : Int) (name : List UInt8) :
    ∃ pv', pidVectorAdd (pv.calloc id name) (some pv.given) = some (0, pv') ∧
      Holds pv' s (es ++ [⟨pv.given, id, name⟩]) := by
  obtain ⟨front, t, n, hsplit, htail, hn⟩ := h.last
  have hold : ∀ a ∈ front ++ [t], a ≠ pv.given := fun a ha => Nat.ne_of_lt (h.lt_given (hsplit ▸ ha))
  have ht : t ≠ pv.given := hold t (by simp)
  refine ⟨_, add_eq htail hn (h.lt_given (by simp [hsplit])) id name, ?_⟩
  have hsnoc : s :: (es ++ [(⟨pv.given, id, name⟩ : Entry)]).map Entry.node = front ++ [t, pv.given] := by
    rw [List.map_append, ← List.cons_append, hsplit, List.append_assoc]
    rfl
  -- of the old nodes only the `next` of the last is another
  have hsame {β : Type} (g : PidInfo → β) (hg : g { n with next := some pv.given } = g n) (b : Addr)
      (hb : b ≠ pv.given) : (Function.update (Function.update pv.nodes t (some { n with next := some pv.given }))
        pv.given (some ⟨id, name, none, some t⟩) b).map g = (pv.nodes b).map g := by
    rw [Function.update_of_ne hb]
    exact map_update hn g hg b
  constructor
  · rw [hsnoc]
    have hnext : Chain pv.next pv.head (front ++ [t]) := hsplit ▸ h.next
    refine hnext.snoc ?_ ?_ fun c hc => ?_
    · simp [PidVectorT.next, ht]
    · simp [PidVectorT.next]
    · simp [PidVectorT.next, hnext.ne_of_mem_front hc, hold c (by simp [hc])]
  · rw [hsnoc, List.isChain_append_cons_cons]
    have hprev := h.prev
    rw [hsplit] at hprev
    refine ⟨hprev.imp_of_mem_imp fun a b _ hb hab => ?_, by simp, .singleton _⟩
    exact (hsame PidInfo.prev rfl b (hold b hb)).trans hab
  · rw [hsnoc]
    simp
  · intro e he
    rcases List.mem_append.mp he with he | he
    · have hmem : e.node ∈ s :: es.map Entry.node := List.mem_cons_of_mem _ (List.mem_map_of_mem he)
      exact (hsame _ rfl e.node (Nat.ne_of_lt (h.lt_given hmem))).trans (h.filled e he)
    · obtain rfl := List.mem_singleton.mp he
      simp
  · intro a
    rw [hsnoc, List.append_cons, ← hsplit, List.mem_append, List.mem_singleton]
    by_cases hag : a = pv.given
    · simp [hag]
    · have hnode := congrArg Option.isSome (hsame (fun _ => ()) rfl a hag)
      rw [Option.isSome_map, Option.isSome_map] at hnode
      rw [hnode, h.live a, or_iff_left hag]
  · intro a ha
    have hag : a ≠ pv.given := Nat.ne_of_gt ha
    have hnode := hsame (fun _ => ()) rfl a hag
    rw [h.given a (Nat.le_of_succ_le ha), Option.map_none, Option.map_eq_none_iff] at hnode
    exact hnode

private theorem destroyLoop_same (fuel : Nat) (a : Addr) (pv : PidVectorT) :
    destroyLoop fuel (some a) (some a) pv = none := by
  cases fuel with
  | zero => rfl
  | succ fuel =>
    rw [destroyLoop, if_neg (by simp)]
    cases hu : unlink (some a) (some a) pv with
    | none => rfl
    | some pv' =>
      obtain ⟨-, -, hlive, -⟩ := unlink_cases hu
      have hfreed : pv'.nodes a = none := by simpa using hlive a
      show (pv'.nodes a).bind _ = none
      rw [hfreed]
      rfl

private theorem destroyed_iff (h : Holds pv s es) : Destroyed pv ↔ es = [] := by
  obtain ⟨n, hn, hnext⟩ := h.sentinel
  cases es with
  | nil =>
    have hnull : n.next = none := hnext
    have hs : pv.nodes s = some n := by
      rw [h.head] at hn
      exact hn
    have hdestroy : pidVectorDestroy pv = some
        { pv with head := none, tail := none, numProcess := 0, nodes := Function.update pv.nodes s none } := by
      simp [pidVectorDestroy, h.head, PidVectorT.deref, hs, hnull, destroyLoop, PidVectorT.free]
    refine iff_of_true ⟨_, hdestroy, fun a => ?_⟩ rfl
    by_cases has : a = s
    · simp [has]
    · have hlive := h.live a
      simpa [has] using hlive
  | cons e es =>
    refine iff_of_false ?_ (List.cons_ne_nil e es)
    rintro ⟨pv', hdestroy, -⟩
    obtain ⟨hfirst, l, hlink, hrest⟩ := hnext
    have hne : e.node ≠ s := by
      intro heq
      have hdup := h.next.nodup
      simp [heq] at hdup
    have hnone : destroyLoop (pv.given + 1) n.next pv.head pv = none := by
      rw [destroyLoop, hfirst, h.head, if_neg (by simp)]
      cases hu : unlink (some e.node) (some s) pv with
      | none => rfl
      | some pv₁ =>
        obtain ⟨⟨b, hb⟩, -, -, hlinks⟩ := unlink_cases hu
        obtain ⟨n₁, hn₁, hnext₁⟩ := Option.map_eq_some_iff.mp ((hlinks e.node hne).trans hb)
        show (pv₁.nodes e.node).bind _ = none
        rw [hn₁]
        show destroyLoop pv.given n₁.next n₁.next pv₁ = none
        rw [hnext₁]
        exact destroyLoop_same _ b pv₁
    rw [pidVectorDestroy, hn] at hdestroy
    simp [hnone] at hdestroy

end

section
variable {ends : PidVectorT → Prop} {pv pv' : PidVectorT} {s : Addr} {es : List Entry} {ops : List Op}

private theorem Managed.holds (h : Managed ends s pv es ops) : Holds pv s es := by
  cases ops with
  | nil => exact h.1
  | cons op ops => exact h.1

private theorem managed_add_none (h : Holds pv s es) :
    Managed ends s pv es (.add none :: ops) ↔ Managed ends s pv es ops := by
  constructor
  · rintro ⟨-, r, pv', es', hcall, rfl, hrest⟩
    obtain ⟨-, rfl⟩ := Prod.mk.inj (Option.some.inj hcall)
    exact hrest
  · exact fun hrest => ⟨h, -1, pv, es, rfl, rfl, hrest⟩

private theorem managed_add (ends : PidVectorT → Prop) (h : Holds pv s es) (id : Int) (name : List UInt8)
    (ops : List Op) :
    ∃ pv' e, e.id = id ∧ e.name = name ∧ Holds pv' s (es ++ [e]) ∧
      (Managed ends s pv es (.add (some (id, name)) :: ops) ↔ Managed ends s pv' (es ++ [e]) ops) := by
  obtain ⟨pv', hadd, h'⟩ := add_spec h id name
  refine ⟨pv', _, rfl, rfl, h', ?_, ?_⟩
  · rintro ⟨-, r, pv'', es', hcall, rfl, hrest⟩
    obtain ⟨-, rfl⟩ := Prod.mk.inj (Option.some.inj (hadd.symm.trans hcall))
    exact hrest
  · exact fun hrest => ⟨h, 0, pv', _, hadd, rfl, hrest⟩

private theorem managed_del {hit : Int → List UInt8 → Bool} {op : Op} (h : Holds pv s es)
    (hcall : op.call pv = del hit pv) (hhits : op.hits = hit)
    (hobeys : ∀ r pv' es', Obeys pv es op r pv' es' ↔ Deleted (fun e => op.hits e.id e.name) pv es r pv' es') :
    Managed ends s pv es (op :: ops) ↔ (∀ e ∈ es, op.hits e.id e.name = false) ∧ Managed ends s pv es ops := by
  subst hhits
  constructor
  · rintro ⟨-, r, pv', es', hdel, hdone, hrest⟩
    rw [hcall] at hdel
    have hmiss : ∀ e ∈ es, op.hits e.id e.name = false := by
      intro e he
      by_contra hhit
      exact del_hit h ⟨e, he, by simpa using hhit⟩ hdel hrest.holds
    rw [del_miss h hmiss] at hdel
    obtain ⟨rfl, rfl⟩ := Prod.mk.inj (Option.some.inj hdel)
    rcases (hobeys _ _ _).mp hdone with ⟨hzero, -⟩ | ⟨-, rfl, -⟩
    · cases hzero
    · exact ⟨hmiss, hrest⟩
  · rintro ⟨hmiss, hrest⟩
    exact ⟨h, -1, pv, es, hcall.trans (del_miss h hmiss), (hobeys _ _ _).mpr (.inr ⟨rfl, rfl, rfl⟩), hrest⟩

private theorem managed_cons (ends : PidVectorT → Prop) (h : Holds pv s es) (op : Op) (ops : List Op) :
    ∃ pv' new, Holds pv' s (es ++ new) ∧ (op.Adds ↔ new ≠ []) ∧
    (∀ later, op.Spares later ↔ ∀ e ∈ new, later.hits e.id e.name = false) ∧
    (Managed ends s pv es (op :: ops) ↔
      (∀ e ∈ es, op.hits e.id e.name = false) ∧ Managed ends s pv' (es ++ new) ops) := by
  have hdelete (hdel : Managed ends s pv es (op :: ops) ↔
      (∀ e ∈ es, op.hits e.id e.name = false) ∧ Managed ends s pv es ops)
      (hop : ∀ pinfo, op ≠ .add pinfo) (hadds : ¬ op.Adds) : ∃ pv' new, Holds pv' s (es ++ new) ∧
        (op.Adds ↔ new ≠ []) ∧ (∀ later, op.Spares later ↔ ∀ e ∈ new, later.hits e.id e.name = false) ∧
        (Managed ends s pv es (op :: ops) ↔
          (∀ e ∈ es, op.hits e.id e.name = false) ∧ Managed ends s pv' (es ++ new) ops) := by
    refine ⟨pv, [], by rwa [List.append_nil], by simp [hadds], fun later => ?_, by rwa [List.append_nil]⟩
    simp [Op.Spares, hop]
  cases op with
  | add pinfo =>
    match pinfo with
    | none =>
      refine ⟨pv, [], by rwa [List.append_nil], by simp [Op.Adds], fun later => by simp [Op.Spares], ?_⟩
      rw [managed_add_none h, List.append_nil]
      simp [Op.hits]
    | some (id, name) =>
      obtain ⟨pv', e, rfl, rfl, h', hadd⟩ := managed_add ends h id name ops
      refine ⟨pv', [e], h', by simp [Op.Adds], fun later => ?_, ?_⟩
      · simp only [List.mem_singleton, forall_eq]
        constructor
        · exact fun hspares => hspares e.id e.name rfl
        · rintro hmiss id name ⟨⟩
          exact hmiss
      · rw [hadd]
        simp [Op.hits]
  | delById id => exact hdelete (managed_del h rfl rfl fun _ _ _ => .rfl) (by simp) (by simp [Op.Adds])
  | delByName name => exact hdelete (managed_del h rfl rfl fun _ _ _ => .rfl) (by simp) (by simp [Op.Adds])

theorem kept_iff (h : Holds pv s es) (ops : List Op) : Managed (fun _ => True) s pv es ops ↔
    (∀ op ∈ ops, ∀ e ∈ es, op.hits e.id e.name = false) ∧ ops.Pairwise Op.Spares := by
  induction ops generalizing pv es with
  | nil => simp [Managed, h]
  | cons op ops ih =>
    obtain ⟨pv', new, h', -, hspares, hop⟩ := managed_cons (fun _ => True) h op ops
    rw [hop, ih h', List.forall_mem_cons, List.pairwise_cons]
    simp only [hspares, List.forall_mem_append]
    constructor
    · rintro ⟨hfirst, hrest, hpairs⟩
      exact ⟨⟨hfirst, fun o ho => (hrest o ho).1⟩, fun o ho => (hrest o ho).2, hpairs⟩
    · rintro ⟨⟨hfirst, hold⟩, hnew, hpairs⟩
      exact ⟨hfirst, fun o ho => ⟨hold o ho, hnew o ho⟩, hpairs⟩

private theorem destroyed_after_iff (h : Holds pv s es) (ops : List Op) :
    Managed Destroyed s pv es ops ↔ es = [] ∧ ∀ op ∈ ops, ¬ op.Adds := by
  induction ops generalizing pv es with
  | nil => simp [Managed, h, destroyed_iff h]
  | cons op ops ih =>
    obtain ⟨pv', new, h', hadds, -, hop⟩ := managed_cons Destroyed h op ops
    rw [hop, ih h', List.forall_mem_cons, List.append_eq_nil_iff, hadds, not_ne_iff]
    constructor
    · rintro ⟨-, ⟨hes, hnew⟩, hrest⟩
      exact ⟨hes, hnew, hrest⟩
    · rintro ⟨rfl, hnew, hrest⟩
      exact ⟨by simp, ⟨rfl, hnew⟩, hrest⟩

end

/-- The list is in order after each call as long as no deletion is asked for what has been added; the
destruction is right only of a list that nothing was added to. -/
theorem managed_iff (ops : List Op) :
    (Managed Destroyed 0 pidVectorInit [] ops ↔ ∀ op ∈ ops, ¬ op.Adds) ∧
      (Managed (fun _ => True) 0 pidVectorInit [] ops ↔ ops.Pairwise Op.Spares) := by
  refine ⟨?_, ?_⟩
  · simpa using destroyed_after_iff holds_init ops
  · simpa using kept_iff holds_init ops

/-- One process: the destruction of its list comes to a null pointer, and so does its deletion. -/
theorem one_process : ¬ Managed Destroyed 0 pidVectorInit [] [.add (some (7, []))] ∧
    ¬ Managed (fun _ => True) 0 pidVectorInit [] [.add (some (7, [])), .delById 7] := by
  have hadd (r : Int) (pv : PidVectorT) (h : Op.call pidVectorInit (.add (some (7, []))) = some (r, pv)) :
      pidVectorDestroy pv = none ∧ pidVectorDelById pv 7 = none := by
    obtain ⟨rfl, rfl⟩ := Prod.mk.inj (Option.some.inj h)
    exact ⟨rfl, rfl⟩
  constructor
  · rintro ⟨-, r, pv, es, hcall, -, -, pv', hdestroy, -⟩
    rw [(hadd r pv hcall).1] at hdestroy
    cases hdestroy
  · rintro ⟨-, r, pv, es, hcall, -, -, r', pv', es', hdel, -⟩
    rw [Op.call, (hadd r pv hcall).2] at hdel
    cases hdel

end TinyosGraphics.PidVector
