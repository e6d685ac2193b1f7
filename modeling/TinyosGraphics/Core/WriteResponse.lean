import TinyosGraphics.Core.Serving

/-! A response to a POST on its way to the client: what the two handlers that share `rw_pos` pass to
`write`, from `_task_end_travelling` to the close. -/
namespace TinyosGraphics.Core
open Lib Event

/-- The answers to calls: `write` takes some of what it is offered or would block, and `epoll_ctl` adds. -/
def Writable : (o : Op) → Ret o → Prop
  | .write _ _ _ count, r =>
    match r with
    | .accepted n => 0 < n ∨ count = 0
    | .again => True
    | .error => False
  | .eventCtl op _ _, r => op = .ADD → r = 0
  | _, _ => True

def NotBlocked : (o : Op) → Ret o → Prop
  | .write _ _ _ _, r => r ≠ .again
  | _, _ => True

/-- A step whose answer meets `outcome`. -/
def AnswersMeet (outcome : (o : Op) → Ret o → Prop) (_ : Serving) : ServingLabel → Prop
  | .answer r => outcome r.1 r.2
  | _ => True

/-- The texts of a response that is ready to be written. -/
structure Conn.Response (d : Conn) (H B : List UInt8) : Prop where
  header : d.httpRespHeader.text = some H
  size : d.httpRespHeader.size ≠ 0
  body : d.httpRespBody.text = some B
  post : startsWith d.httpParser.httpMethod (ascii "POST") = true

/-- A worker has prepared the response and starts `_task_end_travelling`. -/
structure Prepared (fd : Int) (c : ConnId) (H B : List UInt8) (x : Serving) : Prop where
  running : ∃ id, x.running = some (taskEndTravelling ⟨id, c⟩ 0)
  conn : ∃ d, Registered x.state fd c .tgxConnectionHandlerNoOperation d ∧ d.Response H B
  sent : x.state.sent fd = []
  closes : x.state.closes c = 0

/-- What has been accepted is the start of the response, the whole of it once the connection is closed,
and `write` is only offered bytes of the two texts. -/
structure Delivers (fd : Int) (c : ConnId) (H B : List UInt8) (x : Serving) : Prop where
  start : acceptedText x.state fd <+: (H ++ B).map some
  whole : 0 < x.state.closes c → acceptedText x.state fd = (H ++ B).map some
  inside : ∀ f text start count k, x.running = some (.call (.write f text start count) k) →
    (text = H ∨ text = B) ∧ 0 ≤ start ∧ 0 ≤ count ∧ start + count ≤ text.length

section
variable (fd : Int) (c : ConnId) (H B : List UInt8)

def responseGuards : Guards where
  write w f text start count :=
    f = fd ∧ (text = H ∨ text = B) ∧ 0 ≤ start ∧ 0 ≤ count ∧ start + count ≤ text.length ∧
      acceptedText w fd ++ (text.drop start.toNat).map some <+: (H ++ B).map some
  sendfile _ _ _ _ _ := False
  unregister w := acceptedText w fd = (H ++ B).map some

def responseRules : Rules Op Ret World :=
  (responseGuards fd H B).rules (fun o r => Writable o r ∧ NotBlocked o r) True

/-- Between two calls of a handler: the header is to be written, or the body, or all is done. -/
def Between (w : World) : Prop :=
  (∃ d, Registered w fd c .tgxConnectionHandlerWriteHeader d ∧ d.Response H B ∧ d.rwPos = 0 ∧
    acceptedText w fd = []) ∨
  (∃ d, Registered w fd c .tgxConnectionHandlerPostMethodWriteBuffer d ∧ d.Response H B ∧ d.rwPos = 0 ∧
    acceptedText w fd = H.map some) ∨
  Unregistered w fd ∧ acceptedText w fd = (H ++ B).map some

end

section
variable {fd : Int} {c : ConnId} {H B : List UInt8} {w : World} {d : Conn}

private theorem toInt32_length {text : List UInt8} (h : text.length < 2 ^ 31) : toInt32 text.length = text.length := by
  rw [toInt32, Int.bmod_eq_of_le] <;> omega

private theorem toSizeT_of_nonneg {x : Int} (h0 : 0 ≤ x) (h : x < 2 ^ 64) : (toSizeT x : Int) = x := by
  rw [toSizeT, Int.emod_eq_of_lt h0 h, Int.toNat_of_nonneg h0]

/-- The bytes of a text from position `k` on, up to its end, are offered and `n` of them are accepted. -/
private theorem accepted_more {text before : List UInt8} {k n : Nat} (hn : k + n ≤ text.length)
    (hacc : acceptedText w fd = (before ++ text.take k).map some) :
    acceptedText (w.addSent fd (.text text k n)) fd = (before ++ text.take (k + n)).map some := by
  rw [acceptedText_addSent, hacc, Sent.bytes_inside (by omega) (by omega), ← List.map_append, Int.toNat_natCast,
    List.append_assoc, ← List.take_add]

private theorem Conn.Response.not_get (hd : d.Response H B) :
    startsWith d.httpParser.httpMethod (ascii "GET") = false := by
  obtain ⟨rest, hm⟩ := List.isPrefixOf_iff_prefix.mp hd.post
  rw [← hm]
  rfl

theorem Conn.Response.moved (hd : d.Response H B) (pos : Int) : { d with rwPos := pos }.Response H B :=
  ⟨hd.header, hd.size, hd.body, hd.post⟩

/-- The header's loop starts anywhere in the header, and leaves the body's handler in its place. -/
theorem always_writeHeaderLoop (hH : H.length < 2 ^ 31) (fuel k : Nat)
    (hreg : Registered w fd c .tgxConnectionHandlerWriteHeader d) (hd : d.Response H B) (hpos : d.rwPos = k)
    (hk : k ≤ H.length) (hacc : acceptedText w fd = (H.take k).map some) :
    (responseRules fd H B).Always (fun w _ => Between fd c H B w)
      (writeHeaderLoop c H (toInt32 H.length) fuel) w := by
  rw [toInt32_length hH]
  induction fuel generalizing w d k with
  | zero => exact trivial
  | succ fuel ih =>
    obtain rfl := hreg.fd
    rw [writeHeaderLoop]
    refine always_load hreg.conn ?_
    rw [hpos]
    refine always_write ?_ ?_ ?_ ?_
    · refine ⟨rfl, .inl rfl, by omega, by omega, by omega, ?_⟩
      rw [hacc, ← List.map_append, Int.toNat_natCast, List.take_append_drop, List.map_append]
      exact List.prefix_append _ _
    · rintro n hn -
      have hsize : (toSizeT ((H.length : Int) - k) : Int) = H.length - k :=
        toSizeT_of_nonneg (by omega) (by omega)
      have hacc' : acceptedText (w.addSent d.fd (.text H k n)) d.fd = (H.take (k + n)).map some :=
        accepted_more (by omega) (show _ = ([] ++ H.take k).map some from hacc)
      refine always_store hreg.conn ?_
      have hreg' := (hreg.addSent d.fd (.text H k n)).setConn
        (show { d with rwPos := (k : Int) + n }.fd = d.fd from rfl)
      refine Rules.Always.ite (fun (hend : (k : Int) + n = H.length) => ?_) (fun _ => ?_)
      · refine always_store hreg'.conn ?_
        simp only [hd.not_get, hd.post, Bool.false_eq_true, if_false, if_true]
        have hreg₀ := hreg'.setConn (show { d with rwPos := 0 }.fd = d.fd from rfl)
        refine always_setHandler hreg₀ fun te hreg₁ => .inr (.inl ⟨_, hreg₁, hd.moved 0, rfl, ?_⟩)
        rw [List.take_of_length_le (by omega)] at hacc'
        exact hacc'
      · exact ih (k + n) hreg' (hd.moved _) (by simp) (by omega) hacc'
    · rintro ⟨-, hout⟩
      exact absurd rfl hout
    · rintro ⟨hout, -⟩
      exact hout.elim

/-- The body's loop starts anywhere in the body, and closes the connection at its end. -/
theorem always_writeBufferLoop (hB : B.length < 2 ^ 31) (fuel k : Nat)
    (hreg : Registered w fd c .tgxConnectionHandlerPostMethodWriteBuffer d) (hpos : d.rwPos = k)
    (hk : k ≤ B.length) (hacc : acceptedText w fd = (H ++ B.take k).map some) :
    (responseRules fd H B).Always (fun w _ => Between fd c H B w)
      (writeBufferLoop c B (toInt32 B.length) fuel) w := by
  rw [toInt32_length hB]
  induction fuel generalizing w d k with
  | zero => exact trivial
  | succ fuel ih =>
    obtain rfl := hreg.fd
    rw [writeBufferLoop]
    refine always_load hreg.conn ?_
    rw [hpos]
    refine always_write ?_ ?_ ?_ ?_
    · refine ⟨rfl, .inr rfl, by omega, by omega, by omega, ?_⟩
      rw [hacc, ← List.map_append, Int.toNat_natCast, List.append_assoc, List.take_append_drop]
    · rintro n hn -
      have hsize : (toSizeT ((B.length : Int) - k) : Int) = B.length - k :=
        toSizeT_of_nonneg (by omega) (by omega)
      have hacc' : acceptedText (w.addSent d.fd (.text B k n)) d.fd = (H ++ B.take (k + n)).map some :=
        accepted_more (by omega) hacc
      refine always_store hreg.conn ?_
      have hreg' := (hreg.addSent d.fd (.text B k n)).setConn
        (show { d with rwPos := (k : Int) + n }.fd = d.fd from rfl)
      refine Rules.Always.ite (fun (hend : (k : Int) + n = B.length) => ?_) (fun _ => ?_)
      · rw [List.take_of_length_le (by omega)] at hacc'
        refine always_tgxCloseConnection hreg' hacc' fun w' hun hsent _ => .inr (.inr ⟨hun, ?_⟩)
        rw [← hacc', acceptedText, hsent]
        rfl
      · exact ih (k + n) hreg' (by simp) (by omega) hacc'
    · rintro ⟨-, hout⟩
      exact absurd rfl hout
    · rintro ⟨hout, -⟩
      exact hout.elim

/-- Every call of a handler between two events leaves the connection between two events. -/
private theorem always_dispatch (hH : H.length < 2 ^ 31) (hB : B.length < 2 ^ 31) (hw : Between fd c H B w)
    {fuel : Nat} {p : M Int} (hp : dispatchOut fd w fuel = some p) :
    (responseRules fd H B).Always (fun w _ => Between fd c H B w) p w := by
  have hout : hasFlag TGX_EVENT_OUT TGX_EVENT_OUT = true := by decide
  obtain ⟨d, hreg, hd, hpos, hacc⟩ | ⟨d, hreg, hd, hpos, hacc⟩ | ⟨hun, -⟩ := hw
  · obtain rfl := dispatchOut_registered hreg hp
    simp only [runHandler, tgxConnectionHandlerWriteHeader, hout, Bool.not_true, Bool.false_eq_true, if_false]
    refine always_load hreg.conn ?_
    simp only [hd.header, hd.size, if_false]
    exact always_writeHeaderLoop hH fuel 0 hreg hd hpos (Nat.zero_le _) (by simpa using hacc)
  · obtain rfl := dispatchOut_registered hreg hp
    simp only [runHandler, tgxConnectionHandlerPostMethodWriteBuffer, hout, Bool.not_true, Bool.false_eq_true,
      if_false]
    refine always_load hreg.conn ?_
    simp only [hd.body]
    exact always_writeBufferLoop hB fuel 0 hreg hpos (Nat.zero_le _) (by simpa using hacc)
  · rw [dispatchOut_unregistered hun] at hp
    cases hp

/-- The worker puts the cursor to 0 and the descriptor back into the event loop. -/
theorem always_taskEndTravelling (hreg : Registered w fd c .tgxConnectionHandlerNoOperation d)
    (hd : d.Response H B) (hsent : w.sent fd = []) (id : Nat) :
    (responseRules fd H B).Always (fun w _ => Between fd c H B w) (taskEndTravelling ⟨id, c⟩ 0) w := by
  obtain rfl := hreg.fd
  simp only [taskEndTravelling, lt_self_iff_false, if_false]
  refine always_load hreg.conn (always_store hreg.conn ?_)
  have hreg₀ := hreg.setConn (show { d with rwPos := 0 }.fd = d.fd from rfl)
  refine always_setHandler hreg₀ fun te hreg₁ => ?_
  refine always_quiet rfl fun r w' hsame hr => ?_
  obtain rfl : r = 0 := hr.1 rfl
  simp only [lt_self_iff_false, or_self, if_false]
  refine always_quiet rfl fun _ w'' hsame' _ => .inl ⟨_, (hreg₁.same hsame).same hsame', hd.moved 0, rfl, ?_⟩
  simp [acceptedText, hsame'.sent, hsame.sent, World.setConn, hsent]

/-- What has been accepted stays the start of the response. -/
def Started (fd : Int) (c : ConnId) (H B : List UInt8) (w : World) : Prop :=
  acceptedText w fd <+: (H ++ B).map some ∧ (0 < w.closes c → acceptedText w fd = (H ++ B).map some)

private theorem started_step {o : Op} {r : Ret o} {w' : World} (h : Started fd c H B w)
    (hmay : (responseRules fd H B).may w o) (hafter : (responseRules fd H B).after w o r w') :
    Started fd c H B w' := by
  obtain ⟨hr, -⟩ := hafter
  by_cases hwrite : ∃ f t start count, o = .write f t start count
  · obtain ⟨f, t, start, count, rfl⟩ := hwrite
    obtain ⟨rfl, -, h0, hcount, hin, hpre⟩ := hmay
    cases r with
    | accepted n =>
      obtain ⟨hn, rfl⟩ : n ≤ toSizeT count ∧ w.addSent f (.text t start n) = w' := by
        simpa [respond] using hr
      have hle : (toSizeT count : Int) ≤ count := by
        simp only [toSizeT]
        omega
      rw [Started, acceptedText_addSent, Sent.bytes_inside h0 (by omega)]
      refine ⟨.trans ?_ hpre, fun hc => ?_⟩
      · exact (List.prefix_append_right_inj _).mpr ((List.take_prefix _ _).map _)
      · -- after the close there is nothing left that could be accepted
        rw [h.2 hc] at hpre ⊢
        obtain ⟨rest, hrest⟩ := hpre
        have hlen := congrArg List.length hrest
        simp only [List.length_append, List.length_map] at hlen
        have hnil : t.drop start.toNat = [] := List.length_eq_zero_iff.mp (by omega)
        simp [hnil]
    | again => exact Option.some.inj hr ▸ h
    | error => exact Option.some.inj hr ▸ h
  by_cases hun : ∃ f c', o = .scheduleUnregister f c'
  · obtain ⟨f, c', rfl⟩ := hun
    obtain ⟨te, -, rfl⟩ := Option.map_eq_some_iff.mp hr
    exact ⟨h.1, fun _ => hmay⟩
  have hkeep := respond_history hr (fun f t start count ho => hwrite ⟨f, t, start, count, ho⟩)
    (fun f file offset count ho => by subst ho; exact hmay) (fun f c' ho => hun ⟨f, c', ho⟩)
  simpa [Started, acceptedText, hkeep.1, hkeep.2] using h

end

section
variable {fd : Int} {c : ConnId} {H B : List UInt8}

/-- In a run without would-blocks the client is sent the header and then the body, byte for byte. -/
theorem response_delivered (hH : H.length < 2 ^ 31) (hB : B.length < 2 ^ 31) {x : Serving}
    (h : (serving fd (Prepared fd c H B)).Reachable
      (AnswersMeet fun o r => Writable o r ∧ NotBlocked o r) x) :
    Delivers fd c H B x := by
  obtain ⟨hstarted, hfollows⟩ : Started fd c H B x.state ∧ x.Follows (responseRules fd H B) (Between fd c H B) := by
    refine Process.follows_of_reachable (fun x r s' hok hr => ⟨hr, hok⟩)
      (fun x e p hx _ hp => always_dispatch hH hB hx hp) (fun s o r s' hs => started_step hs)
      (fun x hx => ?_) h
    obtain ⟨id, hrun⟩ := hx.running
    obtain ⟨d, hreg, hd⟩ := hx.conn
    refine ⟨⟨by simp [acceptedText, hx.sent], by simp [hx.closes]⟩, ?_⟩
    simpa [Process.Follows, hrun] using always_taskEndTravelling hreg hd hx.sent id
  refine ⟨hstarted.1, hstarted.2, fun f text start count k hx => ?_⟩
  obtain ⟨-, htext, h0, hcount, hin, -⟩ := hfollows.may hx
  exact ⟨htext, h0, hcount, hin⟩

def okHeader : List UInt8 :=
  ascii "HTTP/1.1 200 OK\r\n\r\n"

def rowsBody : List UInt8 :=
  ascii "[20,21,19]"

/-- A POST that has been answered, and how much of a text has been written. -/
def answeredConn (rwPos : Int) : Conn :=
  { newConn 5 with
    httpRespHeader := ⟨20, some ⟨20, okHeader ++ [0]⟩⟩
    httpRespBody := ⟨11, some ⟨11, rowsBody ++ [0]⟩⟩
    travelling := true
    httpParser := { httpMethod := ascii "POST" }
    rwPos := rwPos }

def answeredPost : Serving :=
  ⟨oneConnection .tgxConnectionHandlerNoOperation (answeredConn 0) none, some (taskEndTravelling ⟨0, 0⟩ 0)⟩

private theorem answeredPost_prepared : Prepared 5 0 okHeader rowsBody answeredPost where
  running := ⟨0, rfl⟩
  conn := ⟨answeredConn 0, oneConnection_registered _ _ rfl, by decide +kernel, by decide, by decide +kernel, rfl⟩
  sent := rfl
  closes := rfl

def handBack : List ServingLabel :=
  [.answer ⟨.load 0, answeredConn 0⟩, .answer ⟨.store 0 (answeredConn 0), ()⟩,
    .answer ⟨.setHandler 5 .tgxConnectionHandlerWriteHeader, 0⟩, .answer ⟨.eventCtl .ADD 5 TGX_EVENT_OUT, 0⟩,
    .answer ⟨.freeWrapper 0, ()⟩, .finish]

/-- A turn of a handler's loop, in which `write` takes a part of the `count` bytes that are left. -/
def partWritten (text : List UInt8) (start : Int) (count : Int) (part : Nat) : List ServingLabel :=
  [.answer ⟨.load 0, answeredConn start⟩, .answer ⟨.write 5 text start count, .accepted part⟩,
    .answer ⟨.store 0 (answeredConn (start + part)), ()⟩]

/-- The header goes out in one event, in three parts, and the body in the next one, in two. -/
def inParts : List ServingLabel :=
  handBack ++
    [.start 4, .answer ⟨.load 0, answeredConn 0⟩] ++
    partWritten okHeader 0 19 8 ++ partWritten okHeader 8 11 1 ++ partWritten okHeader 9 10 10 ++
    [.answer ⟨.store 0 (answeredConn 0), ()⟩, .answer ⟨.setHandler 5 .tgxConnectionHandlerPostMethodWriteBuffer, 0⟩,
      .finish] ++
    [.start 4, .answer ⟨.load 0, answeredConn 0⟩] ++
    partWritten rowsBody 0 10 4 ++ partWritten rowsBody 4 6 6 ++
    [.answer ⟨.load 0, answeredConn 10⟩, .answer ⟨.scheduleUnregister 5 0, ()⟩,
      .answer ⟨.load 0, answeredConn 10⟩, .answer ⟨.close 5, ()⟩, .answer ⟨.freeConnection 0, ()⟩, .finish]

theorem response_delivered_parts :
    ∃ x, (serving 5 (Prepared 5 0 okHeader rowsBody)).replay answeredPost inParts = some x ∧
      0 < x.state.closes 0 ∧ Delivers 5 0 okHeader rowsBody x := by
  have hrun : ((serving 5 (Prepared 5 0 okHeader rowsBody)).replay answeredPost inParts).map
      (fun x => x.state.closes 0) = some 1 := by
    decide +kernel
  obtain ⟨x, hx, hcloses⟩ := Option.map_eq_some_iff.mp hrun
  refine ⟨x, hx, by omega, response_delivered (by decide +kernel) (by decide +kernel) ?_⟩
  refine Transition.Reachable.of_good_replay answeredPost_prepared inParts hx ?_
  simp only [inParts, handBack, partWritten, List.forall_mem_append, List.forall_mem_cons]
  simp [AnswersMeet, Writable, NotBlocked]

def blockedAtOnce : List ServingLabel :=
  handBack ++
    [.start 2, .answer ⟨.load 0, answeredConn 0⟩, .answer ⟨.load 0, answeredConn 0⟩,
      .answer ⟨.write 5 okHeader 0 19, .again⟩, .answer ⟨.store 0 (answeredConn (-1)), ()⟩, .finish,
      .start 2, .answer ⟨.load 0, answeredConn (-1)⟩, .answer ⟨.load 0, answeredConn (-1)⟩]

/-- The first position that a program's next call would write from. -/
def nextStart : Option (M Int) → Option Int
  | some (.call (.write _ _ start _) _) => some start
  | _ => none

private theorem nextStart_eq_some {p : Option (M Int)} {start : Int} (h : nextStart p = some start) :
    ∃ f text count k, p = some (.call (.write f text start count) k) := by
  unfold nextStart at h
  split at h
  · obtain rfl := Option.some.inj h
    exact ⟨_, _, _, _, rfl⟩
  · cases h

/-- After a would-block the byte before the header is passed to `write`. -/
theorem byte_before_header :
    ¬ ∀ {fd : Int} {c : ConnId} {H B : List UInt8} {x : Serving},
      (serving fd (Prepared fd c H B)).Reachable (AnswersMeet Writable) x → Delivers fd c H B x := by
  intro hall
  have hrun : ((serving 5 (Prepared 5 0 okHeader rowsBody)).replay answeredPost blockedAtOnce).map
      (fun x => nextStart x.running) = some (some (-1)) := by
    decide +kernel
  obtain ⟨x, hx, hstart⟩ := Option.map_eq_some_iff.mp hrun
  obtain ⟨f, text, count, k, hnext⟩ := nextStart_eq_some hstart
  have hreach : (serving 5 (Prepared 5 0 okHeader rowsBody)).Reachable (AnswersMeet Writable) x := by
    refine Transition.Reachable.of_good_replay answeredPost_prepared blockedAtOnce hx ?_
    simp only [blockedAtOnce, handBack, List.forall_mem_append, List.forall_mem_cons]
    simp [AnswersMeet, Writable]
  have := ((hall hreach).inside f text (-1) count k hnext).2.1
  omega

end
end TinyosGraphics.Core
