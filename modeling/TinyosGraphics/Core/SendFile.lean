import TinyosGraphics.Core.Serving

/-! A file on its way to the client: what `tgx_connection_handler_get_method_write_file` sends over
successive events, and the length that `_task_get_prepare_write_do` has announced. -/
namespace TinyosGraphics.Core
open Lib Event

/-- The positions in the file of the bytes that one `sendfile` has sent. -/
def Sent.offsets : Sent → List Int
  | .text _ _ _ => []
  | .file _ offset n => (List.range n).map fun i : Nat => offset + i

def Sent.isFile : Sent → Bool
  | .text _ _ _ => false
  | .file _ _ _ => true

/-- What was sent is `header` and then, as `files`, the first `k` bytes of a file, in order and once each. -/
structure FileSent (header files sent : List Sent) (k : Nat) : Prop where
  split : sent = header ++ files
  only : ∀ x ∈ files, x.isFile = true
  bytes : files.flatMap Sent.offsets = (List.range k).map fun i : Nat => (i : Int)

theorem FileSent.more {header files sent : List Sent} {k : Nat} (h : FileSent header files sent k)
    (file n : Nat) :
    FileSent header (files ++ [.file file k n]) (sent ++ [.file file k n]) (k + n) where
  split := by rw [h.split, List.append_assoc]
  only := by
    intro x hx
    obtain hx | hx := List.mem_append.mp hx
    · exact h.only x hx
    · obtain rfl := List.mem_singleton.mp hx
      rfl
  bytes := by
    rw [List.flatMap_append, h.bytes, List.range_add, List.map_append]
    simp [Sent.offsets]

theorem FileSent.unique {header files files' sent : List Sent} {k k' : Nat}
    (h : FileSent header files sent k) (h' : FileSent header files' sent k') : files = files' ∧ k = k' := by
  obtain rfl : files = files' := List.append_cancel_left (h.split.symm.trans h'.split)
  refine ⟨rfl, ?_⟩
  simpa using congrArg List.length (h.bytes.symm.trans h'.bytes)

/-- The answers to calls about a regular file of `S` bytes that stays as it is. A `sendfile` that is
asked for something that is there sends some of it or would block; a negative offset or count is an
error. -/
def FileAnswers (S : Int) : (o : Op) → Ret o → Prop
  | .stat _, r => ∃ mtime, r = some ⟨true, S, mtime⟩
  | .openFile _, r => r.isSome
  | .sendfile _ _ offset count, r =>
    match r with
    | .accepted n => 0 ≤ offset ∧ 0 ≤ count ∧
        if S ≤ offset ∨ count = 0 then n = 0 else 0 < n ∧ n ≤ count ∧ offset + n ≤ S
    | .again => 0 ≤ offset ∧ 0 ≤ count
    | .error => offset < 0 ∨ count < 0
  | _, _ => True

/-- The steps of a run over such a file. A handler's loop gets more turns than the file has bytes. -/
def FileStep (S : Int) (_ : Serving) : ServingLabel → Prop
  | .start fuel => S < fuel
  | .answer r => FileAnswers S r.1 r.2
  | .finish => True

/-- The header has been written, and EPOLLOUT events go to the handler that sends the file. -/
structure HeaderSent (fd : Int) (c : ConnId) (header : List Sent) (x : Serving) : Prop where
  idle : x.running = none
  conn : ∃ d, Registered x.state fd c .tgxConnectionHandlerGetMethodWriteFile d ∧ d.rwPos = 0
  armed : ∃ m, x.state.interest fd = some m ∧ hasFlag m EPOLLOUT = true
  sent : x.state.sent fd = header
  closes : x.state.closes c = 0

/-- After the header come the bytes 0, 1, ... of the file, in order and once each, and nothing else. The
connection is closed once all `S` are sent and not before, and up to then the next event is handled. -/
def SendsFile (S : Int) (fd : Int) (c : ConnId) (header : List Sent) (x : Serving) : Prop :=
  x.running ≠ some .stuck ∧
  ∃ files, ∃ k : Nat, FileSent header files (x.state.sent fd) k ∧ k ≤ S ∧
    (0 < x.state.closes c → k = S) ∧
    (x.running = none → files ≠ [] → k = S → 0 < x.state.closes c) ∧
    (x.running = none → x.state.closes c = 0 → ∀ fuel, (dispatchOut fd x.state fuel).isSome)

section
variable (S : Int) (fd : Int) (c : ConnId) (header : List Sent)

def fileGuards : Guards where
  write _ _ _ _ _ := False
  sendfile w f _ offset count :=
    f = fd ∧ ∃ files, ∃ k : Nat, FileSent header files (w.sent fd) k ∧ offset = k ∧ 0 ≤ count ∧ offset + count ≤ S
  unregister w := ∃ files, ∃ k : Nat, FileSent header files (w.sent fd) k ∧ k = S

def fileRules : Rules Op Ret World :=
  (fileGuards S fd header).rules (FileAnswers S) False

/-- Between two calls of the handler: a part of the file is sent, or all of it and the connection closed. -/
def Resting (w : World) : Prop :=
  (∃ d files, ∃ k : Nat, Registered w fd c .tgxConnectionHandlerGetMethodWriteFile d ∧ d.rwPos = k ∧
    FileSent header files (w.sent fd) k ∧ k ≤ S ∧ (files = [] ∨ k < S) ∧ w.closes c = 0 ∧
    ∃ m, w.interest fd = some m ∧ hasFlag m EPOLLOUT = true) ∨
  Unregistered w fd ∧ 0 < w.closes c ∧ ∃ files, ∃ k : Nat, FileSent header files (w.sent fd) k ∧ k = S

/-- What has been sent is a part of the file, all of it once the connection is closed. -/
def PartSent (w : World) : Prop :=
  ∃ files, ∃ k : Nat, FileSent header files (w.sent fd) k ∧ k ≤ S ∧ (0 < w.closes c → k = S)

end

section
variable {S : Int} {fd : Int} {c : ConnId} {header : List Sent} {w : World} {d : Conn}

/-- The file's loop goes on where the last `sendfile` has stopped, and closes the connection at the end. -/
theorem always_sendfileLoop (hS : S < 2 ^ 31) (file fuel k : Nat) (files : List Sent)
    (hreg : Registered w fd c .tgxConnectionHandlerGetMethodWriteFile d) (hpos : d.rwPos = k)
    (hsent : FileSent header files (w.sent fd) k) (hk : k ≤ S) (hrest : files = [] ∨ k < S)
    (hcloses : w.closes c = 0) (harmed : ∃ m, w.interest fd = some m ∧ hasFlag m EPOLLOUT = true)
    (hfuel : S < k + fuel) :
    (fileRules S fd header).Always (fun w _ => Resting S fd c header w) (sendfileLoop c file S fuel) w := by
  induction fuel generalizing w d k files with
  | zero => omega
  | succ fuel ih =>
    obtain rfl := hreg.fd
    have hcount : toInt32 (S - k) = S - k := by
      rw [toInt32, Int.bmod_eq_of_le] <;> omega
    rw [sendfileLoop]
    refine always_load hreg.conn ?_
    rw [hpos, hcount]
    refine always_sendfile ?_ ?_ ?_ ?_
    · exact ⟨rfl, files, k, hsent, rfl, by omega, by omega⟩
    · rintro n - ⟨-, -, hn⟩
      have hnS : (k : Int) + n ≤ S := by
        split at hn
        · omega
        · omega
      have hcut : toInt32 ((k : Int) + (WriteResult.accepted n).moved) = (k + n : Nat) := by
        rw [WriteResult.moved, toInt32, Int.bmod_eq_of_le] <;> omega
      have hsent' : FileSent header (files ++ [.file file k n]) ((w.addSent d.fd (.file file k n)).sent d.fd)
          (k + n) := by
        simpa [World.addSent] using hsent.more file n
      rw [hcut]
      refine always_store hreg.conn ?_
      have hreg' := (hreg.addSent d.fd (.file file k n)).setConn
        (show { d with rwPos := ((k + n : Nat) : Int) }.fd = d.fd from rfl)
      refine Rules.Always.ite (fun (hend : ((k + n : Nat) : Int) = S) => ?_)
        (fun (hend : ¬ ((k + n : Nat) : Int) = S) => ?_)
      · refine always_idle rfl fun _ _ => ?_
        refine always_tgxCloseConnection hreg' ⟨_, _, hsent', hend⟩ fun w' hun hs hc => .inr ⟨hun, by omega, ?_⟩
        exact ⟨_, _, hs ▸ hsent', hend⟩
      · have hpos : 0 < n := by
          split at hn
          · omega
          · exact hn.1
        exact ih (k + n) _ hreg' rfl hsent' (by omega) (.inr (by omega)) hcloses harmed (by omega)
    · rintro -
      have hstay : toInt32 ((k : Int) + WriteResult.again.moved) = k := by
        rw [WriteResult.moved, toInt32, Int.bmod_eq_of_le] <;> omega
      rw [hstay]
      refine always_store hreg.conn (always_idle rfl fun _ _ => ?_)
      have hreg' := hreg.setConn (show { d with rwPos := (k : Int) }.fd = d.fd from rfl)
      exact .inl ⟨_, files, k, hreg', rfl, hsent, hk, hrest, hcloses, harmed⟩
    · rintro (hneg | hneg)
      · omega
      · omega

/-- Every call of the handler between two events leaves the connection between two events. -/
private theorem always_writeFile (hS : S < 2 ^ 31) (hw : Resting S fd c header w) {fuel : Nat} (hfuel : S < fuel)
    {p : M Int} (hp : dispatchOut fd w fuel = some p) :
    (fileRules S fd header).Always (fun w _ => Resting S fd c header w) p w := by
  have hout : hasFlag TGX_EVENT_OUT TGX_EVENT_OUT = true := by decide
  obtain ⟨d, files, k, hreg, hpos, hsent, hk, hrest, hcloses, harmed⟩ | ⟨hun, -⟩ := hw
  · obtain rfl := dispatchOut_registered hreg hp
    have hsize : toInt32 S = S := by
      rw [toInt32, Int.bmod_eq_of_le] <;> omega
    simp only [runHandler, tgxConnectionHandlerGetMethodWriteFile, hout, Bool.not_true, Bool.false_eq_true,
      if_false]
    refine always_load hreg.conn (always_idle rfl ?_)
    rintro _ ⟨mtime, rfl⟩
    simp only [Bool.not_true, Bool.false_eq_true, if_false]
    refine always_idle rfl fun r hr => ?_
    obtain ⟨file, rfl⟩ := Option.isSome_iff_exists.mp hr
    simp only [hsize]
    exact always_sendfileLoop hS file fuel k files hreg hpos hsent hk hrest hcloses harmed (by omega)
  · rw [dispatchOut_unregistered hun] at hp
    cases hp

private theorem partSent_step {o : Op} {r : Ret o} {w' : World} (h : PartSent S fd c header w)
    (hmay : (fileRules S fd header).may w o) (hafter : (fileRules S fd header).after w o r w') :
    PartSent S fd c header w' := by
  obtain ⟨hr, hout⟩ := hafter
  by_cases hsend : ∃ f file offset count, o = .sendfile f file offset count
  · obtain ⟨f, file, offset, count, rfl⟩ := hsend
    obtain ⟨rfl, files, k, hsent, rfl, hcount, hin⟩ := hmay
    obtain ⟨files', k', hsent', hk, hwhole⟩ := h
    obtain ⟨rfl, rfl⟩ := hsent'.unique hsent
    cases r with
    | accepted n =>
      obtain ⟨-, rfl⟩ : n ≤ toSizeT count ∧ w.addSent f (.file file k' n) = w' := by simpa [respond] using hr
      obtain ⟨-, -, hn⟩ := hout
      refine ⟨_, _, by simpa [World.addSent] using hsent.more file n, ?_, fun hc => ?_⟩
      · split at hn <;> omega
      · -- after the close a `sendfile` would find nothing more to send
        have := hwhole hc
        split at hn <;> omega
    | again => exact Option.some.inj hr ▸ ⟨files', k', hsent, hk, hwhole⟩
    | error => exact Option.some.inj hr ▸ ⟨files', k', hsent, hk, hwhole⟩
  by_cases hun : ∃ f c', o = .scheduleUnregister f c'
  · obtain ⟨f, c', rfl⟩ := hun
    obtain ⟨te, -, rfl⟩ := Option.map_eq_some_iff.mp hr
    obtain ⟨files, k, hsent, hk⟩ := hmay
    exact ⟨files, k, hsent, hk.le, fun _ => hk⟩
  have hkeep := respond_history hr (fun f t start count ho => by subst ho; exact hmay)
    (fun f file offset count ho => hsend ⟨f, file, offset, count, ho⟩) (fun f c' ho => hun ⟨f, c', ho⟩)
  simpa [PartSent, hkeep.1, hkeep.2] using h

private theorem hasFlag_dispatch {h : Handler} (hreg : Registered w fd c h d)
    (harmed : ∃ m, w.interest fd = some m ∧ hasFlag m EPOLLOUT = true) (fuel : Nat) :
    (dispatchOut fd w fuel).isSome := by
  obtain ⟨m, hm, hflag⟩ := harmed
  simp [dispatchOut, hm, hflag, TgxEvent.getHandler_spec hreg.wellFormed hreg.inRange,
    TgxEvent.getContext_spec hreg.wellFormed hreg.inRange, hreg.entry]

private theorem sendsFile_of_reachable (hS0 : 0 ≤ S) (hS : S < 2 ^ 31) {x : Serving}
    (h : (serving fd (HeaderSent fd c header)).Reachable (FileStep S) x) : SendsFile S fd c header x := by
  obtain ⟨hpart, hfollows⟩ : PartSent S fd c header x.state ∧
      x.Follows (fileRules S fd header) (Resting S fd c header) := by
    refine Process.follows_of_reachable (fun x r s' hok hr => ⟨hr, hok⟩)
      (fun x fuel p hx hok hp => always_writeFile hS hx hok hp) (fun s o r s' hs => partSent_step hs)
      (fun x hx => ?_) h
    obtain ⟨d, hreg, hpos⟩ := hx.conn
    have hsent : FileSent header [] (x.state.sent fd) 0 := ⟨by simp [hx.sent], by simp, rfl⟩
    refine ⟨⟨[], 0, hsent, hS0, by simp [hx.closes]⟩, ?_⟩
    have hrest : Resting S fd c header x.state :=
      .inl ⟨d, [], 0, hreg, hpos, hsent, hS0, .inl rfl, hx.closes, hx.armed⟩
    simpa [Process.Follows, hx.idle] using hrest
  obtain ⟨files, k, hsent, hk, hwhole⟩ := hpart
  refine ⟨fun hx => hfollows.stuck hx, files, k, hsent, hk, hwhole, fun hx hne hkS => ?_, fun hx hcl fuel => ?_⟩
  all_goals
    have hrest : Resting S fd c header x.state := by simpa [Process.Follows, hx] using hfollows
  · obtain ⟨d, files', k', -, -, hsent', -, hrest, -⟩ | ⟨-, hcl, -⟩ := hrest
    · obtain ⟨rfl, rfl⟩ := hsent'.unique hsent
      exact absurd hkS (hrest.resolve_left hne).ne
    · exact hcl
  · obtain ⟨d, files', k', hreg, -, -, -, -, -, harmed⟩ | ⟨-, hcl', -⟩ := hrest
    · exact hasFlag_dispatch hreg harmed fuel
    · omega

end

def freeGuards : Guards where
  write _ _ _ _ _ := True
  sendfile _ _ _ _ _ := True
  unregister _ := True

section
variable {outcome : (o : Op) → Ret o → Prop} {post : World → Int → Prop} {w : World} {c : ConnId}
  {d : Conn} {written text : List UInt8}

private theorem always_free {α : Type} (p : M α) (w : World) :
    (freeGuards.rules outcome True).Always (fun _ _ => True) p w :=
  Rules.always_of_free (fun _ o => by cases o <;> trivial) (fun _ => trivial) (fun _ _ => trivial) p w

/-- The boundary check allocates the header's buffer at first and finds it large enough later. -/
theorem always_stringCheckBoundry {f : Int → M Int} {pos : Nat} (hc : w.conns c = some d)
    (hd : d.httpRespHeader.Holds written)
    (hok : ∀ b rest, b.bytes = written ++ rest → rest.length ≤ 1 →
      (freeGuards.rules outcome True).Always post (f 0)
        (w.setConn c (some { d with httpRespHeader := ⟨MAX_BUFFER_SIZE, some b⟩ })))
    (hfail : ∀ w, (freeGuards.rules outcome True).Always post (f (-1)) w) :
    (freeGuards.rules outcome True).Always post (stringCheckBoundry c .httpRespHeader pos >>= f) w := by
  have hneg : ¬ (pos : Int) < 0 := by omega
  simp only [stringCheckBoundry, hneg, if_false, bind_assoc]
  refine always_load hc ?_
  obtain ⟨hfresh, rfl⟩ | ⟨b, rest, hbuf, hbytes, hrest⟩ := hd
  · simp only [Conn.string, hfresh, if_true, bind_assoc]
    refine always_idle rfl fun r _ => ?_
    cases r
    · simp only [Bool.false_eq_true, if_false, Core.setString, bind_assoc]
      refine always_load hc (always_store hc ?_)
      exact hfail _
    · simp only [if_true, Core.setString, stringGrow, bind_assoc]
      refine always_load hc (always_store hc (always_load (setConn_conns_self _ _ _) ?_))
      have hgrow : ∀ x : Int, ¬ ((pos : Int) > x ∧ (MAX_BUFFER_SIZE : Int) < MAX_BUFFER_SIZE) := by
        omega
      simp only [Conn.string, Conn.setString, hgrow, if_false]
      exact hok (.calloc MAX_BUFFER_SIZE) [] rfl (by simp)
  · have hsize : (MAX_BUFFER_SIZE : Int) ≠ 0 := by decide
    have hgrow : ∀ x : Int, ¬ ((pos : Int) > x ∧ (MAX_BUFFER_SIZE : Int) < MAX_BUFFER_SIZE) := by
      omega
    simp only [Conn.string, hbuf, hsize, if_false, stringGrow, bind_assoc]
    refine always_load hc ?_
    simp only [hbuf, hgrow, if_false]
    have hsame := hok b rest hbytes hrest
    rw [← hbuf, setConn_self hc] at hsame
    exact hsame

/-- The header's buffer has been allocated and holds a text with its NUL. -/
def HeaderIs (w : World) (c : ConnId) (text : List UInt8) : Prop :=
  ∃ d b, w.conns c = some d ∧ d.httpRespHeader = ⟨MAX_BUFFER_SIZE, some b⟩ ∧ b.bytes = text ++ [0]

/-- The rule for `COPY`: the text is put behind what is written, or the function returns -1. -/
theorem always_copy {pos : Nat} {rest : Nat → M Int} (hc : w.conns c = some d)
    (hd : d.httpRespHeader.Holds written) (hpos : pos = written.length) (hpost : ∀ w, post w (-1))
    (hrest : ∀ w' pos', HeaderIs w' c (written ++ text) → pos' = (written ++ text).length →
      (freeGuards.rules outcome True).Always post (rest pos') w') :
    (freeGuards.rules outcome True).Always post (copy c pos text rest) w := by
  subst hpos
  rw [copy]
  refine always_stringCheckBoundry hc hd (fun b rest' hbytes hlen => ?_) fun w => ?_
  · simp only [lt_self_iff_false, if_false]
    refine always_load (setConn_conns_self _ _ _) (always_store (setConn_conns_self _ _ _) ?_)
    refine hrest _ _ ⟨_, b.write written.length (text ++ [0]), setConn_conns_self _ _ _, rfl, ?_⟩ (by simp)
    rw [Block.write_over hbytes (by simp; omega), List.append_assoc]
  · exact (always_free (tgxCloseConnection c) w).bind fun w _ _ => hpost w

private theorem always_copy_next {pos : Nat} {rest : Nat → M Int} (hw : HeaderIs w c written)
    (hpos : pos = written.length) (hpost : ∀ w, post w (-1))
    (hrest : ∀ w' pos', HeaderIs w' c (written ++ text) → pos' = (written ++ text).length →
      (freeGuards.rules outcome True).Always post (rest pos') w') :
    (freeGuards.rules outcome True).Always post (copy c pos text rest) w := by
  obtain ⟨d, b, hc, hbuf, hbytes⟩ := hw
  exact always_copy hc (.inr ⟨b, [0], hbuf, hbytes, by simp⟩) hpos hpost hrest

/-- On every path on which `_task_get_prepare_write_do` succeeds for a file of `S` bytes, the header ends
with a line that gives this length. -/
def AnnouncesLength (S : Int) : Prop :=
  ∀ e404 id c w d, w.conns c = some d → d.httpRespHeader = ⟨0, none⟩ →
    (freeGuards.rules (FileAnswers S) True).Always
      (fun w r => r = 0 → ∃ front, HeaderIs w c
        (front ++ (ascii "Content-Length: " ++ decimalInt S ++ crlf ++ crlf)))
      (taskGetPrepareWriteDo e404 ⟨id, c⟩) w

private theorem always_lastLines {S : Int} {front : List UInt8} {pos : Nat} (hw : HeaderIs w c front)
    (hpos : pos = front.length) :
    (freeGuards.rules outcome True).Always
      (fun w r => r = 0 → ∃ front, HeaderIs w c
        (front ++ (ascii "Content-Length: " ++ decimalInt S ++ crlf ++ crlf)))
      (copy c pos (ascii "Content-Length: " ++ decimalInt S ++ crlf) fun pos =>
        copy c pos crlf fun pos => endHeader c pos) w := by
  have hneg : ∀ w : World, (-1 : Int) = 0 → ∃ front, HeaderIs w c
      (front ++ (ascii "Content-Length: " ++ decimalInt S ++ crlf ++ crlf)) := by
    intro w h
    cases h
  refine always_copy_next hw hpos hneg fun w pos hw hpos => ?_
  refine always_copy_next hw hpos hneg fun w pos ⟨d, b, hc, hbuf, hbytes⟩ hpos => ?_
  refine always_load hc (always_store hc fun _ => ⟨front, ?_⟩)
  refine ⟨_, b.write pos [0], setConn_conns_self _ _ _, by simp [Conn.setString, hbuf], ?_⟩
  rw [hpos, Block.write_over hbytes (by simp)]
  simp only [List.append_assoc]

private theorem announcesLength (S : Int) : AnnouncesLength S := by
  intro e404 id c w d hc hfresh
  have hneg : ∀ w : World, (-1 : Int) = 0 → ∃ front, HeaderIs w c
      (front ++ (ascii "Content-Length: " ++ decimalInt S ++ crlf ++ crlf)) := by
    intro w h
    cases h
  simp only [taskGetPrepareWriteDo, clearHeader, bind_assoc]
  refine always_load hc ?_
  simp only [hfresh, ne_eq, not_true_eq_false, if_false]
  refine always_load hc ?_
  refine always_copy hc (.inl ⟨hfresh, rfl⟩) rfl hneg fun w pos hw hpos => ?_
  refine always_copy_next hw hpos hneg fun w pos hw hpos => ?_
  refine always_copy_next hw hpos hneg fun w pos hw hpos => ?_
  obtain ⟨d, b, hc, hbuf, hbytes⟩ := hw
  refine always_load hc ?_
  -- whether or not the path becomes that of the 404 page, the header is what it was
  refine Rules.Always.ite (fun _ => always_store hc ?_) (fun _ => ?_)
  on_goal 2 => rw [← setConn_self hc]
  all_goals
    refine always_load (setConn_conns_self _ _ _) (always_idle rfl ?_)
    rintro _ ⟨mtime, rfl⟩
    refine always_idle rfl fun date _ => ?_
    refine always_copy (setConn_conns_self _ _ _) (.inr ⟨b, [0], hbuf, hbytes, by simp⟩) hpos hneg
      fun w pos hw hpos => ?_
    refine always_copy_next hw hpos hneg fun w pos hw hpos => always_idle rfl fun modified _ => ?_
    refine always_copy_next hw hpos hneg fun w pos hw hpos => ?_
    refine always_copy_next hw hpos hneg fun w pos hw hpos => ?_
    refine always_copy_next hw hpos hneg fun w pos hw hpos => ?_
    exact always_lastLines hw hpos

end

/-- A connection whose header has been written, with nothing recorded before. -/
def fileConn : Conn :=
  { newConn 5 with travelling := true, httpParser := { path := ascii "/f", httpMethod := ascii "GET" } }

def fileAwaiting : Serving :=
  ⟨oneConnection .tgxConnectionHandlerGetMethodWriteFile fileConn (some EPOLLOUT), none⟩

private theorem fileAwaiting_headerSent : HeaderSent 5 0 [] fileAwaiting where
  idle := rfl
  conn := ⟨fileConn, oneConnection_registered _ _ rfl, rfl⟩
  armed := ⟨EPOLLOUT, rfl, by decide⟩
  sent := rfl
  closes := rfl

section
variable {S : Int}

variable {fd : Int} {c : ConnId} {h : Handler} {w : World} {d : Conn}

private theorem can_tgxCloseConnection (hreg : Registered w fd c h d) (htravel : d.travelling = true)
    (hmodule : d.dlopenHandle = false) (hpos : 0 < fd) (a : Int) :
    (tgxCloseConnection c >>= fun _ => pure a : M Int).Can respond (FileAnswers S)
      (fun w' _ => w'.sent = w.sent ∧ w'.closes c = w.closes c + 1) w := by
  obtain rfl := hreg.fd
  obtain ⟨r, te, hun⟩ := TgxEvent.unregister_defined hreg.wellFormed hreg.inRange
  simp only [tgxCloseConnection, tgxFreeConnection, bind_assoc]
  refine Prog.Can.op d trivial (respond_load hreg.conn) ?_
  refine Prog.Can.op () trivial (respond_scheduleUnregister hun) ?_
  simp only [htravel, Bool.not_true, Bool.false_eq_true, if_false, bind_assoc]
  refine Prog.Can.op d trivial (respond_load hreg.conn) ?_
  simp only [hpos, if_true, bind_assoc]
  refine Prog.Can.op () trivial rfl ?_
  simp only [hmodule, Bool.false_eq_true, if_false]
  refine Prog.Can.op () trivial (respond_freeConnection hreg.conn) ?_
  exact ⟨rfl, by simp⟩

/-- A longer file is cut short: the handler takes its size for an `int`, and closes the connection in the
first event, after the bytes that this number stands for or after an error. -/
private theorem can_cut_short (hS : 2 ^ 31 ≤ S) (hreg : Registered w fd c .tgxConnectionHandlerGetMethodWriteFile d)
    (hpos : d.rwPos = 0) (htravel : d.travelling = true) (hmodule : d.dlopenHandle = false) (hfd : 0 < fd)
    (fuel : Nat) :
    (runHandler (fuel + 1) .tgxConnectionHandlerGetMethodWriteFile (some c) TGX_EVENT_OUT).Can respond
      (FileAnswers S) (fun w' _ => w'.closes c = w.closes c + 1 ∧
        ∃ files, ∃ k : Nat, FileSent (w.sent fd) files (w'.sent fd) k ∧ k < S) w := by
  have hout : hasFlag TGX_EVENT_OUT TGX_EVENT_OUT = true := by decide
  obtain ⟨hlow, hhigh⟩ := toInt32_bounds S
  have hcount : toInt32 (toInt32 S - 0) = toInt32 S := by rw [sub_zero, toInt32_of_bounds hlow hhigh]
  obtain rfl := hreg.fd
  simp only [runHandler, tgxConnectionHandlerGetMethodWriteFile, hout, Bool.not_true, Bool.false_eq_true, if_false]
  refine Prog.Can.op d trivial (respond_load hreg.conn) ?_
  refine Prog.Can.op (some ⟨true, S, 0⟩) ⟨0, rfl⟩ rfl ?_
  simp only [Bool.not_true, Bool.false_eq_true, if_false]
  refine Prog.Can.op (some 0) rfl rfl ?_
  simp only [sendfileLoop]
  refine Prog.Can.op d trivial (respond_load hreg.conn) ?_
  rw [hpos, hcount]
  obtain hneg | hnonneg := lt_or_ge (toInt32 S) 0
  · refine Prog.Can.op .error (.inr hneg) rfl ?_
    refine Prog.Can.op () trivial (respond_store hreg.conn _) ?_
    refine Prog.Can.op () trivial rfl ?_
    have hreg' := hreg.setConn
      (show { d with rwPos := toInt32 (0 + WriteResult.error.moved) }.fd = d.fd from rfl)
    refine (can_tgxCloseConnection hreg' htravel hmodule hfd (-1)).mono ?_
    rintro w' - ⟨hsent, hcloses⟩
    refine ⟨hcloses, [], 0, ⟨?_, by simp, rfl⟩, by omega⟩
    rw [hsent, List.append_nil]
    rfl
  · obtain ⟨n, hn⟩ := Int.eq_ofNat_of_zero_le hnonneg
    rw [hn]
    have hmoved : toInt32 (0 + (WriteResult.accepted n).moved) = n := by
      rw [WriteResult.moved, zero_add, toInt32_of_bounds] <;> omega
    have hroom : n ≤ toSizeT n := by
      simp only [toSizeT]
      omega
    refine Prog.Can.op (.accepted n) ⟨le_rfl, by omega, ?_⟩ (by simp [respond, hroom]; rfl) ?_
    · split <;> omega
    rw [hmoved]
    have hreg' := hreg.addSent d.fd (.file 0 0 n)
    refine Prog.Can.op () trivial (respond_store hreg'.conn _) ?_
    simp only [if_true]
    refine Prog.Can.op () trivial rfl ?_
    have hreg'' := hreg'.setConn (show { d with rwPos := (n : Int) }.fd = d.fd from rfl)
    refine (can_tgxCloseConnection hreg'' htravel hmodule hfd 0).mono ?_
    rintro w' - ⟨hsent, hcloses⟩
    refine ⟨hcloses, [.file 0 0 n], n, ⟨?_, by simp [Sent.isFile], by simp [Sent.offsets]⟩, by omega⟩
    rw [hsent]
    simp [World.setConn, World.addSent]

end

/-- A file of `S` bytes is served: this length is announced, and after the header every run sends exactly
the bytes 0 to `S` - 1 and then closes the connection. -/
def ServesFile (S : Int) : Prop :=
  AnnouncesLength S ∧ ∀ fd c header x,
    (serving fd (HeaderSent fd c header)).Reachable (FileStep S) x → SendsFile S fd c header x

private theorem not_servesFile {S : Int} (hlong : 2 ^ 31 ≤ S) : ¬ ServesFile S := by
  rintro ⟨-, hall⟩
  obtain ⟨d, hreg, hpos⟩ := fileAwaiting_headerSent.conn
  obtain rfl : fileConn = d := Option.some.inj hreg.conn
  obtain ⟨tr, w', a, hrun, ⟨hcloses, files, k, hsent, hk⟩, hlabels⟩ :=
    Process.run_of_can (dispatchOut 5) (HeaderSent 5 0 [])
      (can_cut_short hlong hreg rfl rfl rfl (by decide) S.toNat)
  have hstart : (serving 5 (HeaderSent 5 0 [])).step fileAwaiting (.start (S.toNat + 1)) =
      some ⟨fileAwaiting.state, some (runHandler (S.toNat + 1) .tgxConnectionHandlerGetMethodWriteFile
        (some 0) TGX_EVENT_OUT)⟩ := rfl
  have hok : FileStep S fileAwaiting (.start (S.toNat + 1)) := by
    simp only [FileStep]
    omega
  have hreach := ((Transition.Reachable.init fileAwaiting_headerSent).next hok hstart).run hrun
    fun p hp => by
      obtain ⟨r, hr, hout⟩ := hlabels p hp
      rw [hr]
      exact hout
  obtain ⟨-, files', k', hsent', -, hwhole, -⟩ := hall 5 0 [] _ hreach
  obtain ⟨-, rfl⟩ := hsent'.unique hsent
  have := hwhole (by rw [hcloses]; exact Nat.succ_pos _)
  omega

/-- A file is served exactly when an `int` can hold its size. -/
theorem servesFile_iff {S : Int} (h0 : 0 ≤ S) (_ : S < 2 ^ 63) : ServesFile S ↔ S < 2 ^ 31 := by
  constructor
  · intro h
    by_contra hlong
    exact not_servesFile (not_lt.mp hlong) h
  · exact fun hS => ⟨announcesLength S, fun fd c header x => sendsFile_of_reachable h0 hS⟩

/-- The largest file that is served. -/
theorem servesFile_largest : ServesFile (2 ^ 31 - 1) :=
  (servesFile_iff (by decide) (by decide)).mpr (by decide)

theorem servesFile_not_all : ¬ ∀ S : Int, 0 ≤ S → S < 2 ^ 63 → ServesFile S :=
  fun h => not_servesFile (by decide) (h (2 ^ 32 + 5) (by decide) (by decide))

end TinyosGraphics.Core
