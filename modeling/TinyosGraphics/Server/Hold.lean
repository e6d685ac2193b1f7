import TinyosGraphics.Server.Loop

/-! What a thread has in its hands, and the rules of handling it: which calls a thread may make with
it, which answers it can count on, and what it holds afterwards. -/
namespace TinyosGraphics.Server
open Lib Event Core

/-- The header buffer has no room yet, or all the room it will ever get. -/
def Sized (d : Conn) : Prop :=
  d.httpRespHeader.size = 0 ∨ d.httpRespHeader.size = MAX_BUFFER_SIZE

/-- A descriptor or a connection in the hands of a thread. `armed` says whether the descriptor is in
the interest set. -/
inductive Hold
  | nothing
  /-- accepted, without a connection -/
  | fd (f : Int) (armed : Bool)
  /-- allocated, without an entry in the schedule table -/
  | fresh (c : ConnId) (d : Conn)
  /-- with an entry in the schedule table -/
  | held (c : ConnId) (d : Conn) (armed : Bool)
  /-- in the interest set, with the handler that does nothing -/
  | lulled (c : ConnId) (d : Conn)
  /-- taken out of the table, to be freed -/
  | closing (c : ConnId) (d : Conn) (isOpen armed : Bool)
  | freed (c : ConnId)

/-- What a run may be promised about allocations and about accepted descriptors. -/
structure Luck where
  /-- the buffer of a response header can always be had -/
  header : Prop
  /-- an accepted descriptor always gets its connection and its entry -/
  accepting : Prop

namespace Hold

def conn : Hold → Option ConnId
  | nothing | fd _ _ => none
  | fresh c _ | held c _ _ | lulled c _ | closing c _ _ _ | freed c => some c

def desc : Hold → Option Int
  | fd f _ => some f
  | fresh _ d | held _ d _ | lulled _ d | closing _ d true _ => some d.fd
  | nothing | closing _ _ false _ | freed _ => none

def next (h : Hold) : (o : Op) → Ret o → Hold
  | .store _ d', _ =>
    match h with
    | fresh c _ => fresh c d'
    | held c _ a => held c d' a
    | h => h
  | .callocConnection f, r =>
    match r with
    | some c => fresh c (newConn f)
    | none => nothing
  | .freeConnection c, _ => freed c
  | .setHandler _ h', _ =>
    match h with
    | held c d a => if h' = .tgxConnectionHandlerNoOperation then lulled c d else held c d a
    | h => h
  | .eventCtl op _ _, r =>
    if r = 0 then
      match op, h with
      | .ADD, fd f _ => fd f true
      | .ADD, held _ _ _ => nothing
      | .DEL, lulled c d => held c d false
      | .DEL, closing c d isOpen _ => closing c d isOpen false
      | _, h => h
    else
      match h with
      | lulled c d => held c d true
      | h => h
  | .scheduleRegister _ _ _, _ => nothing
  | .scheduleUnregister _ _, _ =>
    match h with
    | held c d a => closing c d true a
    | h => h
  | .accept, r =>
    match r with
    | some f => fd f false
    | none => h
  | .close _, _ =>
    match h with
    | closing c d _ _ => closing c d false false
    | _ => nothing
  | .pushTask _, _ => nothing
  | _, _ => h

/-- What a call may be made with. A freed connection is touched only where a header buffer could not
be had. -/
def may (luck : Luck) (onLoop : Bool) (h : Hold) : Op → Prop
  | .load c => h.conn = some c ∧ (luck.header → h ≠ freed c)
  | .store c d' =>
    (∃ d, h = fresh c d ∧ d'.fd = d.fd ∧ d'.travelling = d.travelling ∧ Sized d') ∨
    ∃ d a, h = held c d a ∧ d'.fd = d.fd ∧ Sized d' ∧
      (d.travelling = true → d'.travelling = true) ∧
      (d'.travelling = true → d.travelling = true ∨ a = false)
  | .callocConnection f => h = fd f true
  | .freeConnection c => ∃ d a, h = closing c d false a
  | .setHandler f h' =>
    ∃ c d a, h = held c d a ∧ d.fd = f ∧ h' ≠ .tgxAcceptionHandler ∧
      (a = true ∨ onLoop = false ∧ h' ≠ .tgxConnectionHandlerNoOperation)
  | .eventCtl .ADD f _ =>
    h = fd f false ∨ ∃ c d, h = held c d false ∧ d.fd = f ∧ d.travelling = true ∧ onLoop = false
  | .eventCtl .DEL f _ =>
    ∃ c d, (h = lulled c d ∨ ∃ a, h = closing c d true a ∧ d.travelling = false) ∧ d.fd = f
  | .eventCtl .MOD _ _ => False
  | .scheduleRegister f h' c => ∃ d, h = fresh c d ∧ d.fd = f ∧ h' ≠ .tgxAcceptionHandler
  | .scheduleUnregister f c => ∃ d a, h = held c d a ∧ d.fd = f ∧ (a = true ∨ d.travelling = true)
  | .accept => onLoop = true ∧ h = nothing
  | .close f => (∃ a, h = fd f a) ∨ ∃ c d a, h = closing c d true a ∧ d.fd = f
  | .pushTask t => ∃ d, h = held t.context.tconn d false ∧ d.travelling = true
  | _ => True

def allows (luck : Luck) (h : Hold) : (o : Op) → Ret o → Prop
  | .load _, d' =>
    match h with
    | fresh _ d | held _ d _ | lulled _ d | closing _ d _ _ => d' = d ∧ 0 < d.fd
    | _ => False
  | .setHandler _ _, r => r = 0
  | .eventCtl _ _ _, r => (r = 0 ∨ r = -1) ∧ (luck.accepting → ∀ f a, h = fd f a → r = 0)
  | .calloc what, r =>
    match what with
    | .string .httpRespHeader => luck.header → r = true
    | .connectionField f => luck.accepting → f ≠ .httpReqBody → r = true
    | _ => True
  | .callocConnection _, r => luck.accepting → r ≠ none
  | .scheduleRegister _ _ _, r => (r = 0 ∨ r = -1) ∧ (luck.accepting → r = 0)
  | _, _ => True

def rules (luck : Luck) (onLoop : Bool) : Rules Op Ret Hold where
  may h o := h.may luck onLoop o
  after h o r h' := h.allows luck o r ∧ h' = h.next o r
  stuck _ := True

end Hold
end TinyosGraphics.Server
