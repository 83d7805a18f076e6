/-
Sgopher.Server.ConfinementTheorems — requests cannot leave the content
directory.

In every run every path a worker opens for a connection is confined: the
string the kernel reads, up to the first NUL, is "." or goes through
visible components below it. Conversely a call of `client_socket` that has
received a request with a hidden component anywhere in its selector,
behind an embedded NUL as well, answers it with a menu and opens nothing.

The second part is about one call, so its proofs follow the run: what was
read before (`fillBuffer`) opens nothing, and refusing cannot fail.

No `sorry`, no `axiom`, no `native_decide`.
-/
import Sgopher.Server.FrameTheorems
import Sgopher.Server.ReplyTheorems

namespace Sgopher.Server

open Sgopher.Lib Sgopher.Sepoll

variable {x : Context} {mode : Mode} {a n : Nat} {c : Client} {o : Option File}
  {m : Option Registration} {L : List Action} {fd : Int} {act : Action}
  {p : Heap Object → Prop} {w w' : World} {ans : List Answer}

/-! ## What a call leaves alone -/

/-- A contract that asks for nothing, for what holds of every run that
returns. -/
def anyRun : Contract Answer World where
  answers := fun _ => True
  waits := fun _ => True
  mayFault := True

/-- A contract for programs that make no call that waits. -/
def noCall : Contract Answer World where
  answers := fun _ => True
  waits := fun _ => False
  mayFault := False

theorem anyRun_triple {α : Type} {P : World → Prop} (p : Program α) :
    Triple anyRun P p (fun _ _ => True) := by
  intro w ans _ _
  cases p w ans with
  | done v w' rest => exact ⟨trivial, fun _ _ => trivial⟩
  | stopped w' => trivial
  | fault => trivial

/-- A program without a call that waits returns. -/
theorem returns_of_noCall {α : Type} {P : World → Prop} {p : Program α}
    {Q : α → World → Prop} (h : Triple noCall P p Q) (hP : P w) (ans : List Answer) :
    ∃ v w' rest, p w ans = .done v w' rest ∧ Q v w' := by
  have hrun := h w ans hP fun _ _ => trivial
  cases hp : p w ans with
  | done v w' rest =>
    rw [hp] at hrun
    exact ⟨v, w', rest, rfl, hrun.1⟩
  | stopped w' => rw [hp] at hrun; exact hrun.elim
  | fault => rw [hp] at hrun; exact hrun.elim

/-- Where the caller does not go on, nothing is said of what happened. -/
theorem hangUp_stays {P : World → Prop} :
    Triple anyRun P (hangUp a) (fun more _ => more = false) :=
  Triple.bind (anyRun_triple _) fun _ => Triple.pure fun _ _ => rfl

theorem refuse_stays {P : World → Prop} {msg : Menu} :
    Triple anyRun P (refuse a msg) (fun more _ => more = false) :=
  Triple.bind (anyRun_triple _) fun _ => Triple.bind (anyRun_triple _) fun _ => hangUp_stays

/-- A property of the table of descriptors. -/
def OnTable (p : Heap Object → Prop) (w : World) : Prop := p w.own.fds

theorem setClient_table : Triple anyRun (OnTable p) (setClient a c) (fun _ => OnTable p) :=
  setClient_keeps trivial fun _ _ h => h

theorem note_table : Triple anyRun (OnTable p) (note fd act) (fun _ => OnTable p) :=
  note_keeps trivial fun _ _ h => h

/-- Reading opens nothing, where the client stays. -/
theorem readRequest_table :
    Triple anyRun (OnTable p) (readRequest a) (fun more w => more = true → OnTable p w) := by
  refine Triple.iterate (I := fun _ => OnTable p) (fun _ _ _ => trivial) (fun _ => ?_) ()
  refine Triple.bind (getClient_keeps trivial) fun c => ?_
  refine Triple.bind (useFd_keeps trivial) fun _ => ?_
  refine Triple.bind (systemCall_keeps fun _ _ => trivial) fun y => ?_
  split
  · exact Triple.pure fun _ h _ => h
  · exact Triple.bind hangUp_stays fun more => Triple.pure fun _ hm ht => by simp [hm] at ht
  · exact Triple.bind refuse_stays fun more => Triple.pure fun _ hm ht => by simp [hm] at ht
  · refine Triple.ite (fun _ => ?_) fun _ => ?_
    · exact Triple.bind hangUp_stays fun more => Triple.pure fun _ hm ht => by simp [hm] at ht
    · exact Triple.bind setClient_table fun _ =>
        Triple.ite (fun _ => Triple.pure fun _ h => h) fun _ => Triple.pure fun _ h _ => h

/-- The part of the EPOLLIN branch that fills the buffer. -/
def fillBuffer (a : Nat) : Program Bool := do
  let c ← getClient a
  note c.socket .readable
  readRequest a

theorem clientReadable_eq (a : Nat) :
    clientReadable a = (do
      let more ← fillBuffer a
      if more then serveRequest a else pure false) := by
  simp only [clientReadable, fillBuffer, Prog.bind_assoc]

theorem fillBuffer_table :
    Triple anyRun (OnTable p) (fillBuffer a) (fun more w => more = true → OnTable p w) :=
  Triple.bind (getClient_keeps trivial) fun _ => Triple.bind note_table fun _ => readRequest_table

/-- So many descriptors were opened until now. -/
abbrev Opened (n : Nat) : World → Prop := OnTable fun fds => fds.allocated = n

theorem closeFd_opened : Triple anyRun (Opened n) (closeFd fd) (fun _ => Opened n) :=
  closeFd_keeps trivial fun _ _ hclose h => (Heap.closeFd_allocated hclose).trans h

theorem sepollRemove_table :
    Triple anyRun (OnTable p) (sepollRemove fd) (fun _ => OnTable p) :=
  onLoop_keeps trivial fun _ _ h => h

theorem freeClient_table : Triple anyRun (OnTable p) (freeClient a) (fun _ => OnTable p) := by
  refine Triple.step_partial trivial fun w w' _ h hw => ?_
  split at hw
  · obtain ⟨_, _, he⟩ := Option.map_eq_some_iff.mp hw
    exact (Prod.mk.inj he).1 ▸ h
  · cases hw

/-- Disconnecting opens nothing. -/
theorem clientDisconnect_opened :
    Triple anyRun (Opened n) (clientDisconnect a) (fun _ => Opened n) := by
  have hclose : ∀ fd : Int, Triple anyRun (Opened n) (Prog.when (0 ≤ fd) (closeFd fd))
      (fun _ => Opened n) := fun fd => Triple.when (fun _ => closeFd_opened) fun _ _ h => h
  refine Triple.bind (getClient_keeps trivial) fun c => ?_
  refine Triple.bind (hclose c.file) fun _ => Triple.bind (hclose c.dirfd) fun _ => ?_
  refine Triple.bind (R := fun _ => Opened n) ?_ fun _ => ?_
  · refine Triple.when (fun _ => ?_) fun _ _ h => h
    exact Triple.bind sepollRemove_table fun _ => closeFd_opened
  · exact Triple.bind sepollRemove_table fun _ => Triple.bind closeFd_opened fun _ =>
      freeClient_table

/-! ## Refusing -/

/-- Refusing a request always comes to an end: the client is gone, its
connection got the menu, and nothing was opened. -/
theorem Held.refused (h : Held x a c o m L w) (hc : c.Apart) (hq : Silent L) (msg : Menu)
    (ans : List Answer) :
    ∃ w' rest, refuse a msg w ans = .done false w' rest ∧
      w'.own.log (w.own.fds.serialOf c.socket) = L ++ [.menu msg] ∧
      w'.own.fds.allocated = w.own.fds.allocated ∧
      w'.own.server.clients = w.own.server.clients.erase a := by
  obtain ⟨u, w₁, rest₁, hnote, hheld⟩ :=
    returns_of_noCall (note_held fun hl => hl.menu (hq.menu msg)) h ans
  have hsame : w₁.own.fds = w.own.fds :=
    (note_table (p := fun fds => fds = w.own.fds)).done rfl (fun _ _ => trivial) hnote |>.1
  obtain ⟨_, w₂, rest₂, hgone, _, hlog, hclients⟩ :=
    returns_of_noCall (clientDisconnect_triple hc) ⟨hheld, rfl⟩ rest₁
  refine ⟨w₂, rest₂, ?_, ?_, ?_, ?_⟩
  · rw [refuse, Prog.bind_done (getClient_run h.busy.cell ans), sendMenu, Prog.bind_done hnote,
      Prog.bind_done hgone]
    rfl
  · rw [hlog, ← hsame]
    exact hheld.busy.log
  · rw [← hsame]
    exact (clientDisconnect_opened.done rfl (fun _ _ => trivial) hgone).1
  · rw [hclients, ← h.busy.server]

/-! ## One call of `client_socket` -/

/-- A request with a component that begins with a period, in the selector
of its first line. -/
def HiddenRequest (buffer : Bytes) : Prop :=
  ∃ line rest, Framed buffer line rest ∧ ∃ c ∈ components (splitTab line).1, Hidden c

/-- `client_socket` is called for an event of a worker's batch, and has
filled its client's buffer. -/
structure Received (w : World) (e : EpollEvent) (a : Nat) (ans : List Answer) (buffer : Bytes) :
    Prop where
  reachable : Reachable .any w
  called : ∃ rest cb, w.loop.pending = e :: rest ∧ w.loop.heap.cell e.ptr = some cb ∧
    cb.function = some .clientSocket ∧ cb.userdata2 = .client a
  readable : hasEvent e.events EPOLLIN = true
  filled : ∃ w₁ rest c, fillBuffer a (w.withLoop w.loop.popped) ans = .done true w₁ rest ∧
    w₁.own.mem.cell a = some c ∧ c.buffer = buffer

/-- The client got the menu that says 403 and nothing else, nothing was
opened, and the client is gone. -/
structure Forbade (w : World) (a : Nat) (w' : World) : Prop where
  reply : ∃ c, w.own.mem.cell a = some c ∧
    w'.own.log (w.own.fds.serialOf c.socket)
      = w.own.log (w.own.fds.serialOf c.socket) ++ [.readable, .menu .forbidden]
  opened : w'.own.fds.allocated = w.own.fds.allocated
  clients : w'.own.server.clients = w.own.server.clients.erase a

/-- The client `client_socket` is called for. -/
theorem AtRest.called {e : EpollEvent} {rest : List EpollEvent} {cb : Callback Handler Arg}
    (h : AtRest x w) (hp : w.loop.pending = e :: rest) (hc : w.loop.heap.cell e.ptr = some cb)
    (hf : cb.function = some .clientSocket) (hu : cb.userdata2 = .client a) :
    ∃ y c r L, y.mode = x.mode ∧ Held y a c none (some r) L (w.withLoop w.loop.popped) ∧
      Standing x.strict w.own.fds c (some r.events) L ∧ Reported e r.events ∧ Settled c := by
  obtain ⟨r, hr, _, hrep, hrf, hru, hrest⟩ := h.taken hp hc hf
  have hreg : (w.withLoop w.loop.popped).loop.reg cb.fd = some r := hr
  cases hrest.parts.regs cb.fd r hreg with
  | socket b c hf' hu' hcell hs ho =>
    obtain rfl := Arg.client.inj (hu.symm.trans (hru.symm.trans hu'))
    obtain ⟨o, hheld, _, hset⟩ := hrest.focus hcell
    have hstand := hrest.parts.standing a c (by simp) hcell
    rw [hs, hreg] at hheld hstand
    exact ⟨{ x with pending := rest, server := w.own.server }, c, r, _, rfl,
      hheld.forget, hstand, hrep, hset⟩
  | pidfd b hf' _ _ _ => exact absurd (hrf.symm.trans hf') (by simp)
  | server f hf' hh _ =>
    have hne := hrf.symm.trans hf'
    rcases hh with rfl | rfl | rfl <;> exact absurd hne (by simp)

/-- Nothing was written to a client whose socket is watched for reading. -/
theorem Standing.unanswered {strict : Prop} {fds : Heap Object} {mask : UInt32} {e : EpollEvent}
    (h : Standing strict fds c (some mask) L) (he : Reported e mask)
    (hin : hasEvent e.events EPOLLIN = true) : Silent L := by
  cases h with
  | reading _ _ hq _ => exact hq
  | sending f hm _ _ _ =>
    have hout : hasEvent e.events EPOLLIN = false := by
      rw [Option.some.inj hm] at he
      exact he.hasEvent (by decide)
    exact absurd hin (by simp [hout])
  | cgi hm _ hq _ => exact hq

/-- The read loop leaves a buffer that is within its bound, or no client. -/
theorem fillBuffer_triple (hstrict : ¬ x.strict) (hc : c.Apart) (hq : Silent (L ++ [.readable]))
    (hbuffer : c.buffer.length ≤ maxRequestSize) :
    Triple (contract x.mode) (Held x a c o m L) (fillBuffer a)
      (GoesOn x (Filled x a c o m (L ++ [.readable]))) :=
  Triple.bind_eq getClient_held (Triple.bind (note_held fun hl =>
    hl.snoc (.nothing hq) (by simp) (fun hs => absurd hs hstrict)) fun _ =>
      readRequest_triple hc hq hbuffer)

/-- The client of a request that was received: nothing was written to it,
and nothing happened to the descriptors while its buffer was filled. -/
theorem Received.held {e : EpollEvent} {buffer : Bytes} (h : Received w e a ans buffer) :
    ∃ y c r L w₁ rest₁, fillBuffer a (w.withLoop w.loop.popped) ans = .done true w₁ rest₁ ∧
      Held y a c none (some r) L (w.withLoop w.loop.popped) ∧
      Held y a { c with buffer := buffer } none (some r) (L ++ [.readable]) w₁ ∧
      Silent (L ++ [.readable]) ∧ Settled c ∧ buffer.length ≤ maxRequestSize ∧
      w₁.own.fds = w.own.fds := by
  obtain ⟨x, hx, hrest⟩ := h.reachable.resting
  obtain ⟨rest, cb, hp, hc, hf, hu⟩ := h.called
  obtain ⟨y, c, r, L, hy, hheld, hstand, hrep, hset⟩ := hrest.called hp hc hf hu
  obtain ⟨w₁, rest₁, c₁, hfill, hcell₁, rfl⟩ := h.filled
  have hmode : y.mode = .any := hy.trans hx
  have hstrict : ¬ y.strict := by
    rw [Context.strict, hmode]
    exact id
  have hq : Silent (L ++ [.readable]) := (hstand.unanswered hrep h.readable).quiet trivial
  have hA : ∀ z ∈ ans, (contract y.mode).answers z := by
    rw [hmode]
    exact fun _ _ => ⟨False.elim, False.elim⟩
  obtain ⟨⟨buffer, hlen, hheld₁⟩, _⟩ :=
    (fillBuffer_triple hstrict hset.apart hq hset.buffer).done hheld hA hfill
  obtain rfl : c₁ = { c with buffer := buffer } :=
    Option.some.inj (hcell₁.symm.trans hheld₁.busy.cell)
  have hbefore : OnTable (fun fds => fds = w.own.fds) (w.withLoop w.loop.popped) := rfl
  exact ⟨y, c, r, L, w₁, rest₁, hfill, hheld, hheld₁, hq, hset, hlen,
    (fillBuffer_table.done hbefore (fun _ _ => trivial) hfill).1 rfl⟩

/-- A request for something hidden is refused. -/
theorem Received.forbidden {e : EpollEvent} {buffer : Bytes} (h : Received w e a ans buffer)
    (hh : HiddenRequest buffer) :
    ∃ w' rest, clientSocket e.events a (w.withLoop w.loop.popped) ans = .done () w' rest ∧
      Forbade w a w' := by
  obtain ⟨y, c, r, L, w₁, rest₁, hfill, hheld, hheld₁, hq, hset, hlen, htable⟩ := h.held
  obtain ⟨line, tail, hframed, comp, hcomp, hhid⟩ := hh
  have hparse := parse_forbidden hframed hlen hcomp hhid
  obtain ⟨w₂, rest₂, hrefuse, hlog, hopened, hclients⟩ :=
    hheld₁.refused hset.apart hq .forbidden rest₁
  have hserve : serveRequest a w₁ rest₁ = .done false w₂ rest₂ := by
    rw [serveRequest, Prog.bind_done (getClient_run hheld₁.busy.cell rest₁), hparse]
    exact hrefuse
  refine ⟨w₂, rest₂, ?_, ⟨c, hheld.busy.cell, ?_⟩, ?_, ?_⟩
  · rw [clientSocket, if_pos h.readable, clientReadable_eq, Prog.bind_assoc,
      Prog.bind_done hfill, if_pos rfl, Prog.bind_done hserve]
    rfl
  · rw [htable] at hlog
    rw [hlog, ← hheld.busy.log]
    simp [World.withLoop]
  · rw [hopened, htable]
  · have hserver : w.own.server = w₁.own.server :=
      hheld.busy.server.trans hheld₁.busy.server.symm
    rw [hclients, ← hserver]

/-- **Requests are confined to the content directory.** Whatever bytes come
in, every path a worker opens for a connection is confined; and where the
selector has a hidden component the request is answered 403 and opens
nothing. -/
theorem requests_confined :
    (∀ size params d g t s e ans,
      (serverProcess (started size params d g t s e) ans).Always fun w =>
        ∀ n path, Action.openat path ∈ w.own.log n → Confined path) ∧
    ∀ w e a ans buffer, Received w e a ans buffer → HiddenRequest buffer →
      ∃ w' rest, clientSocket e.events a (w.withLoop w.loop.popped) ans = .done () w' rest ∧
        Forbade w a w' := by
  refine ⟨fun size params d g t s e ans => ?_, fun w e a ans buffer h hh => h.forbidden hh⟩
  have hstart : Starts .any (started size params d g t s e) := .started False.elim params d g t s e
  refine ((serverProcess_triple .any) _ ans hstart fun _ _ => ⟨False.elim, False.elim⟩).always ?_ ?_
  · exact fun w h n => (h.logs n).paths
  · exact fun _ w h n => (h.logs n).paths

/-- A request for something hidden, behind a NUL. -/
def hiddenRequest : Bytes := ascii "a" ++ [0] ++ ascii "/.b" ++ [CR, LF]

/-- A worker whose first client has sent a request at once. -/
theorem exists_received (request : Bytes)
    (h : ((do register; batches 1 : Program Int) smallWorker (asked.take 9)).Returns fun _ w =>
      w.loop.pending = [⟨EPOLLIN, 4⟩] ∧
      (w.loop.heap.cell 4).map (fun cb => (cb.function, cb.userdata2))
        = some (some .clientSocket, .client 1) ∧
      (fillBuffer 1 (w.withLoop w.loop.popped) [{ read := .ok request }, again]).Returns
        fun more w' => more = true ∧ (w'.own.mem.cell 1).map Client.buffer = some request) :
    ∃ w w₁ rest₁ c, Received w ⟨EPOLLIN, 4⟩ 1 [{ read := .ok request }, again] request ∧
      fillBuffer 1 (w.withLoop w.loop.popped) [{ read := .ok request }, again]
        = .done true w₁ rest₁ ∧ w₁.own.mem.cell 1 = some c ∧ c.buffer = request := by
  obtain ⟨w, hreach, hp, hcb, hfill⟩ := reachable_of_batches h
  obtain ⟨cb, hc, hcb⟩ := Option.map_eq_some_iff.mp hcb
  obtain ⟨more, w₁, rest₁, hfill, rfl, hbuffer⟩ := hfill.state
  obtain ⟨c, hcell, hbuffer⟩ := Option.map_eq_some_iff.mp hbuffer
  exact ⟨w, w₁, rest₁, c, ⟨hreach, ⟨[], cb, hp, hc, (Prod.mk.inj hcb).1, (Prod.mk.inj hcb).2⟩,
    by decide, ⟨w₁, rest₁, c, hfill, hcell, hbuffer⟩⟩, hfill, hcell, hbuffer⟩

theorem requests_confined_hidden :
    ∃ w e a ans, Received w e a ans hiddenRequest ∧ HiddenRequest hiddenRequest ∧
      ∃ w' rest, clientSocket e.events a (w.withLoop w.loop.popped) ans = .done () w' rest ∧
        Forbade w a w' := by
  obtain ⟨w, -, -, -, hreceived, -⟩ := exists_received hiddenRequest (by decide +kernel)
  have hhidden : HiddenRequest hiddenRequest :=
    ⟨ascii "a" ++ [0] ++ ascii "/.b", [], ⟨by decide, by decide⟩, ascii ".b", by decide, by decide⟩
  exact ⟨w, _, 1, _, hreceived, hhidden, requests_confined.2 w _ 1 _ _ hreceived hhidden⟩

end Sgopher.Server
