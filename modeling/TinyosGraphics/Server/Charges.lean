import TinyosGraphics.Server.Loop

/-! Task wrappers and tasks in the hands of a thread, and the rules under which each of them is freed: the first
`_post_task` of a connection succeeds once it has its wrapper, and there is no second one. -/
namespace TinyosGraphics.Server
open Lib Event Core

/-- A thread between `_post_task` and the end of a task. -/
structure Charge where
  /-- the wrapper that `_post_task` has allocated, until its task is pushed -/
  posting : Option WrapperContext := none
  /-- its task -/
  posted : Option Nat := none
  /-- the task that a worker has taken -/
  taken : Option TgxTask := none
  /-- whether the wrapper of that task has been freed -/
  wrapperFreed : Bool := false
  deriving DecidableEq

namespace Charge

/-- The charge after a call. -/
def next (h : Charge) : (o : Op) → Ret o → Charge
  | .callocWrapper c, r =>
    match r with
    | some id => { h with posting := some ⟨id, c⟩ }
    | none => h
  | .taskInit, r =>
    match r with
    | some task => { h with posted := some task }
    | none => h
  | .pushTask _, _ => { h with posting := none, posted := none }
  | .freeWrapper _, _ => { h with wrapperFreed := true }
  | _, _ => h

/-- A thread that has taken a task gets no wrapper for another one, and what `_post_task` calls once it has its
wrapper succeeds. -/
def Meets (h : Charge) : (o : Op) → Ret o → Prop
  | .callocWrapper _, r => h.taken.isSome → r = none
  | .taskInit, r => r ≠ none
  | .calloc .taskInternal, r => r = true
  | .setHandler _ _, r => h.posting.isSome → 0 ≤ r
  | .eventCtl _ _ _, r => h.posting.isSome → 0 ≤ r
  | _, _ => True

/-- The task that the loop posts for a request: its only one. -/
def Parses (t : TgxTask) : Prop :=
  t.taskHandler = .taskHttpParserDo ∧ t.onTaskComplete = .taskHttpParserOnComplete

/-- What a call may be made with, by a thread that serves `context`. -/
def may (context : Option ConnId) (h : Charge) : Op → Prop
  | .callocWrapper c => h.taken = none → h = {} ∧ context = some c
  | .taskInit => ∃ w, h = { posting := some w }
  | .pushTask t => h = { posting := some t.context, posted := some t.id } ∧ Parses t
  | .freeWrapper id => ∃ t, h = { taken := some t } ∧ id = t.context.id
  | _ => True

/-- Whoever gets a wrapper has no task. -/
theorem taken_of_meets {h : Charge} {c : ConnId} {id : Nat} (hmeets : h.Meets (.callocWrapper c) (some id)) :
    h.taken = none := by
  by_contra hsome
  cases hmeets (Option.isSome_iff_ne_none.mpr hsome)

/-- The rules for a thread that serves `context`. -/
def rules (context : Option ConnId) : Rules Op Ret Charge where
  may := may context
  after h o r h' := h.Meets o r ∧ h' = h.next o r
  stuck _ := True

def keeps : Op → Bool
  | .callocWrapper _ | .taskInit | .pushTask _ | .freeWrapper _ => false
  | _ => true

private theorem may_of_keeps {context : Option ConnId} {h : Charge} {o : Op} (ho : keeps o = true) :
    h.may context o := by
  cases o
  all_goals trivial

theorem next_of_keeps {h : Charge} {o : Op} (ho : keeps o = true) (r : Ret o) : h.next o r = h := by
  cases o
  all_goals first | rfl | cases ho

abbrev Keeps {α : Type} (p : M α) : Prop :=
  p.Only fun o => keeps o = true

private theorem keeps_call {o : Op} (ho : keeps o = true) : Keeps (call o) :=
  .op o ho

private theorem keeps_then {α : Type} {o : Op} {f : Ret o → M α} (ho : keeps o = true) (hf : ∀ r, Keeps (f r)) :
    Keeps (call o >>= f) :=
  ⟨ho, hf⟩

private theorem keeps_tgxFreeConnection (c : ConnId) : Keeps (tgxFreeConnection c) := by
  simp only [tgxFreeConnection]
  apply keeps_then rfl
  intro d
  have hend : Keeps (if d.dlopenHandle = true then do dlclose; freeConnection c else freeConnection c) := by
    split
    · exact keeps_then rfl fun _ => keeps_call rfl
    · exact keeps_call rfl
  split
  · exact keeps_then rfl fun _ => hend
  · exact hend

private theorem keeps_tgxCloseConnection (c : ConnId) : Keeps (tgxCloseConnection c) := by
  simp only [tgxCloseConnection]
  apply keeps_then rfl
  intro d
  apply keeps_then rfl
  intro _
  split
  · exact keeps_then rfl fun _ => keeps_tgxFreeConnection c
  · exact keeps_tgxFreeConnection c

private theorem keeps_closing {α : Type} (c : ConnId) (p : M α) (hp : Keeps p) : Keeps (do tgxCloseConnection c; p) :=
  .bind (keeps_tgxCloseConnection c) fun _ => hp

private theorem keeps_setString (c : ConnId) (f : StringField) (str : TgxString) : Keeps (setString c f str) :=
  keeps_then rfl fun _ => keeps_call rfl

private theorem keeps_stringGrow (c : ConnId) (f : StringField) (boundry : Int) : Keeps (stringGrow c f boundry) := by
  simp only [stringGrow]
  apply keeps_then rfl
  intro d
  refine .ite (.bind (keeps_setString _ _ _) fun _ => ?_) trivial
  apply keeps_then rfl
  intro _
  exact .ite (.bind (keeps_setString _ _ _) fun _ => trivial) trivial

private theorem keeps_stringCheckBoundry (c : ConnId) (f : StringField) (boundry : Int) :
    Keeps (stringCheckBoundry c f boundry) := by
  simp only [stringCheckBoundry]
  refine .ite trivial ?_
  apply keeps_then rfl
  intro d
  refine .ite ?_ (keeps_stringGrow _ _ _)
  apply keeps_then rfl
  intro _
  refine .ite ?_ ?_
  · exact .bind (keeps_setString _ _ _) fun _ => keeps_stringGrow _ _ _
  · exact .bind (keeps_setString _ _ _) fun _ => trivial

private theorem keeps_readLoop (c : ConnId) (fuel : Nat) : Keeps (readLoop c fuel) := by
  induction fuel with
  | zero => trivial
  | succ fuel ih =>
    simp only [readLoop]
    apply keeps_then rfl
    intro d
    refine .bind (keeps_stringCheckBoundry _ _ _) fun _ => .ite (keeps_closing c _ trivial) ?_
    apply keeps_then rfl
    intro d
    apply keeps_then rfl
    intro r
    split
    · trivial
    · exact keeps_closing c _ trivial
    · exact keeps_closing c _ trivial
    · exact keeps_then rfl fun _ => ih

private theorem keeps_writeHeaderLoop (c : ConnId) (header : List UInt8) (headerLength : Int) (fuel : Nat) :
    Keeps (writeHeaderLoop c header headerLength fuel) := by
  induction fuel with
  | zero => trivial
  | succ fuel ih =>
    simp only [writeHeaderLoop]
    apply keeps_then rfl
    intro d
    apply keeps_then rfl
    intro nWrite
    apply keeps_then rfl
    intro _
    split
    · trivial
    · exact keeps_closing c _ trivial
    · refine .ite ?_ ih
      apply keeps_then rfl
      intro _
      refine .ite ?_ (.ite ?_ (keeps_closing c _ trivial))
      · exact keeps_then rfl fun _ => trivial
      · exact keeps_then rfl fun _ => trivial

private theorem keeps_tgxConnectionHandlerWriteHeader (fuel : Nat) (c : ConnId) (event : UInt32) :
    Keeps (tgxConnectionHandlerWriteHeader fuel c event) := by
  simp only [tgxConnectionHandlerWriteHeader]
  refine .ite (keeps_closing c _ trivial) ?_
  apply keeps_then rfl
  intro d
  split
  · exact keeps_closing c _ trivial
  · exact .ite (keeps_closing c _ trivial) (keeps_writeHeaderLoop _ _ _ _)

private theorem keeps_sendfileLoop (c : ConnId) (file : Nat) (contentLength : Int) (fuel : Nat) :
    Keeps (sendfileLoop c file contentLength fuel) := by
  induction fuel with
  | zero => trivial
  | succ fuel ih =>
    simp only [sendfileLoop]
    apply keeps_then rfl
    intro d
    apply keeps_then rfl
    intro nWrite
    apply keeps_then rfl
    intro _
    split
    · exact keeps_then rfl fun _ => trivial
    · exact keeps_then rfl fun _ => keeps_closing c _ trivial
    · refine .ite ?_ ih
      exact keeps_then rfl fun _ => keeps_closing c _ trivial

private theorem keeps_tgxConnectionHandlerGetMethodWriteFile (fuel : Nat) (c : ConnId) (event : UInt32) :
    Keeps (tgxConnectionHandlerGetMethodWriteFile fuel c event) := by
  simp only [tgxConnectionHandlerGetMethodWriteFile]
  refine .ite (keeps_closing c _ trivial) ?_
  apply keeps_then rfl
  intro d
  apply keeps_then rfl
  intro statbuf
  split
  · exact keeps_closing c _ trivial
  · refine .ite (keeps_closing c _ trivial) ?_
    apply keeps_then rfl
    intro file
    split
    · exact keeps_closing c _ trivial
    · exact keeps_sendfileLoop _ _ _ _

private theorem keeps_writeBufferLoop (c : ConnId) (body : List UInt8) (contentLength : Int) (fuel : Nat) :
    Keeps (writeBufferLoop c body contentLength fuel) := by
  induction fuel with
  | zero => trivial
  | succ fuel ih =>
    simp only [writeBufferLoop]
    apply keeps_then rfl
    intro d
    apply keeps_then rfl
    intro nWrite
    apply keeps_then rfl
    intro _
    split
    · trivial
    · exact keeps_closing c _ trivial
    · exact .ite (keeps_closing c _ trivial) ih

private theorem keeps_tgxConnectionHandlerPostMethodWriteBuffer (fuel : Nat) (c : ConnId) (event : UInt32) :
    Keeps (tgxConnectionHandlerPostMethodWriteBuffer fuel c event) := by
  simp only [tgxConnectionHandlerPostMethodWriteBuffer]
  refine .ite (keeps_closing c _ trivial) ?_
  apply keeps_then rfl
  intro d
  split
  · trivial
  · exact keeps_writeBufferLoop _ _ _ _

private theorem keeps_tgxNewConnection (fd : Int) : Keeps (tgxNewConnection fd) := by
  simp only [tgxNewConnection]
  apply keeps_then rfl
  intro c
  split
  · trivial
  · iterate 7
      apply keeps_then rfl
      intro _
    exact .ite trivial trivial

private theorem keeps_tgxAcceptionHandler (fuel : Nat) : Keeps (tgxAcceptionHandler fuel) := by
  induction fuel with
  | zero => trivial
  | succ fuel ih =>
    simp only [tgxAcceptionHandler]
    apply keeps_then rfl
    intro infd
    split
    · trivial
    · apply keeps_then rfl
      intro _
      refine .ite (keeps_then rfl fun _ => trivial) ?_
      apply keeps_then rfl
      intro _
      refine .ite trivial (.bind (keeps_tgxNewConnection _) fun c => ?_)
      split
      · trivial
      · apply keeps_then rfl
        intro _
        exact .ite trivial ih

section
variable {context : Option ConnId} {α : Type} {post : Charge → α → Prop} {h : Charge}

private theorem always_keeps {p : M α} (hp : Keeps p) : (rules context).Always (fun h' _ => h' = h) p h :=
  Rules.always_of_only hp (fun _ ho => may_of_keeps ho) (fun _ r _ ho hafter => hafter.2.trans (next_of_keeps ho r))
    trivial

private theorem always_then {β : Type} {p : M β} {f : β → M α} (hp : Keeps p)
    (hf : ∀ b, (rules context).Always post (f b) h) : (rules context).Always post (p >>= f) h := by
  refine (always_keeps hp).bind fun h' b hh => ?_
  rw [hh]
  exact hf b

/-- The rule for a call that keeps what it has, with what its answer has to meet. -/
private theorem always_met {o : Op} {f : Ret o → M α} (ho : keeps o = true)
    (hf : ∀ r, h.Meets o r → (rules context).Always post (f r) h) : (rules context).Always post (call o >>= f) h := by
  refine Rules.Always.op (may_of_keeps ho) ?_
  rintro r h' ⟨hmeets, rfl⟩
  rw [next_of_keeps ho]
  exact hf r hmeets

end

theorem always_taskStartTravelling {context : Option ConnId} {h : Charge} (w : WrapperContext)
    (hposting : h.posting.isSome) :
    (rules context).Always (fun h' ret => h' = h ∧ ret = 0) (taskStartTravelling w) h := by
  simp only [taskStartTravelling]
  apply always_met rfl
  intro d _
  apply always_met rfl
  intro _ _
  apply always_met rfl
  intro ret1 hret1
  apply always_met rfl
  intro ret2 hret2
  have hok : ¬ (ret1 < 0 ∨ ret2 < 0) :=
    not_or.mpr ⟨Int.not_lt.mpr (hret1 hposting), Int.not_lt.mpr (hret2 hposting)⟩
  rw [if_neg hok]
  apply always_met rfl
  intro d _
  apply always_met rfl
  intro _ _
  exact ⟨rfl, rfl⟩

/-- The loop hands over what it allocates, together with the task that parses the request. -/
theorem always_postTask (c : ConnId) :
    (rules (some c)).Always (fun h' _ => h' = {})
      (postTask c .taskStartTravelling .taskHttpParserDo .taskHttpParserOnComplete) {} := by
  simp only [postTask]
  refine Rules.Always.op (fun _ => ⟨rfl, rfl⟩) ?_
  rintro r _ ⟨-, rfl⟩
  cases r with
  | none => rfl
  | some id =>
    refine Rules.Always.op ⟨⟨id, c⟩, rfl⟩ ?_
    rintro r _ ⟨hmeets, rfl⟩
    cases r with
    | none => exact absurd rfl hmeets
    | some task =>
      simp only [tgxPostTask, bind_assoc]
      refine (always_taskStartTravelling ⟨id, c⟩ rfl).bind ?_
      rintro _ ret ⟨rfl, rfl⟩
      rw [if_neg (by decide)]
      simp only [bind_assoc]
      apply always_met rfl
      intro r hr
      obtain rfl : r = true := hr
      simp only [Bool.not_true, Bool.false_eq_true, if_false]
      refine Rules.Always.op ⟨rfl, rfl, rfl⟩ ?_
      rintro _ _ ⟨-, rfl⟩
      exact rfl

theorem always_tgxConnectionHandlerRead (fuel : Nat) (c : ConnId) (event : UInt32) :
    (rules (some c)).Always (fun h _ => h = {}) (tgxConnectionHandlerRead fuel c event) {} := by
  have hclose : (rules (some c)).Always (fun h _ => h = {}) (do tgxCloseConnection c; return (-1 : Int)) {} :=
    always_keeps (keeps_closing c _ trivial)
  simp only [tgxConnectionHandlerRead]
  refine .ite (fun _ => hclose) fun _ => ?_
  refine always_then (keeps_readLoop c fuel) fun _ => .ite (fun _ => rfl) fun _ => ?_
  apply always_met rfl
  intro d _
  split
  · trivial
  · apply always_met rfl
    intro _ _
    split
    · rfl
    · refine (always_postTask c).bind ?_
      rintro _ ret rfl
      exact .ite (fun _ => hclose) fun _ => rfl
    · exact hclose
    · trivial

/-- A handler of the loop ends with empty hands. -/
theorem always_runHandler (fuel : Nat) (handler : Handler) (context : Option ConnId) (event : UInt32) :
    (rules context).Always (fun h _ => h = {}) (runHandler fuel handler context event) {} := by
  cases handler with
  | tgxAcceptionHandler => exact always_keeps (keeps_tgxAcceptionHandler fuel)
  | tgxConnectionHandlerNoOperation => rfl
  | tgxConnectionHandlerRead =>
    cases context with
    | none => rfl
    | some c => exact always_tgxConnectionHandlerRead fuel c event
  | tgxConnectionHandlerWriteHeader =>
    cases context with
    | none => rfl
    | some c => exact always_keeps (keeps_tgxConnectionHandlerWriteHeader fuel c event)
  | tgxConnectionHandlerGetMethodWriteFile =>
    cases context with
    | none => rfl
    | some c => exact always_keeps (keeps_tgxConnectionHandlerGetMethodWriteFile fuel c event)
  | tgxConnectionHandlerPostMethodWriteBuffer =>
    cases context with
    | none => rfl
    | some c => exact always_keeps (keeps_tgxConnectionHandlerPostMethodWriteBuffer fuel c event)

private theorem keeps_taskHttpParserDo (w : WrapperContext) : Keeps (taskHttpParserDo w) := by
  simp only [taskHttpParserDo]
  apply keeps_then rfl
  intro _
  refine .ite trivial ?_
  apply keeps_then rfl
  intro d
  split
  · trivial
  · apply keeps_then rfl
    intro r
    apply keeps_then rfl
    intro _
    exact .ite trivial trivial

section
variable {t : TgxTask}

theorem always_closeAndFree :
    (rules none).Always (fun h _ => h = { taken := some t, wrapperFreed := true }) (closeAndFree t.context)
      { taken := some t } := by
  refine always_then (keeps_tgxCloseConnection _) fun _ => ?_
  refine Rules.Always.op ⟨t, rfl, rfl⟩ ?_
  rintro _ _ ⟨-, rfl⟩
  exact rfl

theorem always_postNext {onPost : OnPost} {handler : TaskHandler} {onComplete : OnComplete} :
    (rules none).Always (fun h _ => h = { taken := some t, wrapperFreed := true })
      (do
        let ret ← postTask t.context.tconn onPost handler onComplete
        if ret < 0 then closeAndFree t.context else return 0)
      { taken := some t } := by
  simp only [postTask, bind_assoc]
  refine Rules.Always.op nofun ?_
  rintro r _ ⟨hmeets, rfl⟩
  obtain rfl : r = none := hmeets rfl
  exact always_closeAndFree

theorem always_runTask (e404 : List UInt8) (ht : Parses t) :
    (rules none).Always (fun h _ => h = { taken := some t, wrapperFreed := true }) (State.runTask e404 t)
      { taken := some t } := by
  simp only [State.runTask, ht.1, ht.2, runTaskHandler, runOnComplete]
  refine always_then (keeps_taskHttpParserDo _) fun ret => ?_
  simp only [taskHttpParserOnComplete]
  refine .ite (fun _ => always_closeAndFree) fun _ => ?_
  apply always_met rfl
  intro d _
  exact .ite (fun _ => always_postNext) fun _ => .ite (fun _ => always_postNext) fun _ => always_closeAndFree

end

end Charge

end TinyosGraphics.Server
