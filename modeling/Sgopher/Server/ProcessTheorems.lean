/-
Sgopher.Server.ProcessTheorems — the worker's event loop keeps the
invariant.

Each registered function takes a worker at rest to a worker at rest:
`server_socket` turns connections away or makes clients of them,
`server_timer` walks the list while it gets shorter, and the functions of
a client work as the modules before say. Together with what polling,
skipping and collecting do to the loop this is an instance of the rule of
`sepoll_enter`.

No `sorry`, no `axiom`, no `native_decide`.
-/
import Sgopher.Server.SocketTheorems

namespace Sgopher.Server

open Sgopher.Lib Sgopher.Sepoll

variable {X : Contract Answer World} {x : Context} {strict : Prop} {ex : Option Nat}
  {P : List Int} {a : Nat} {c : Client} {r : Registration} {L : List Action} {fd : Int}
  {l : EventLoop} {k : Worker} {w : World}

/-! ## Changes to the loop alone -/

namespace Parts

theorem setRun (h : Parts x ex P l k) (run : Bool)
    (ht : x.mode.woken → run = false → k.terminated = true) :
    Parts x ex P { l with run := run } k :=
  { h with wf := h.wf.setRun run, told := ht }

/-- An event is taken off the batch. -/
theorem popped (h : Parts x ex P l k) :
    Parts { x with pending := l.pending.tail } ex P l.popped k :=
  { h with
    wf := h.wf.popped
    pending := rfl
    reported_nodup := by
      have hnd := h.reported_nodup
      show (l.pending.tail.map EpollEvent.ptr).Nodup
      rw [List.map_tail]
      exact hnd.tail
    reported := fun e he => h.reported e (List.mem_of_mem_tail he) }

/-- A batch arrives. -/
theorem batched (h : Parts x ex P l k) {evs : List (Int × UInt32)} {batch : List EpollEvent}
    (hb : batch = (l.ready evs []).take l.epollEventsSize.toNat) :
    Parts
      { x with
        pending := batch
        epollEvents := batch ++ l.epollEvents.drop batch.length }
      ex P
      { l with
        epollEvents := batch ++ l.epollEvents.drop batch.length
        pending := batch } k := by
  refine { h with
    wf := h.wf.polled hb, pending := rfl, epollEvents := rfl, reported_nodup := ?_, reported := ?_ }
  · rw [hb, List.map_take]
    exact (h.wf.ready_nodup evs []).take
  · intro e he fd r hr hp
    rw [hb] at he
    obtain ⟨fd', m, bits, _, hi, hptr, hev⟩ := Loop.mem_ready evs [] e (List.mem_of_mem_take he)
    obtain ⟨_, cb, hc, hfd'⟩ := h.wf.interest_tree fd' m hi
    have hr' : l.reg fd' = some ⟨m.ptr, m.events, cb.function, cb.userdata1, cb.userdata2⟩ :=
      Loop.reg_some_iff.mpr ⟨hi, cb, hc, rfl, rfl, rfl⟩
    have hfd := h.wf.reg_ptr_inj hr hr' (hp.trans hptr)
    have hsame : l.reg fd = some r := hr
    rw [hfd, hr', Option.some.injEq] at hsame
    exact ⟨bits, by rw [hev, ← hsame]⟩

/-- The garbage list is freed. -/
theorem collected {l' : EventLoop} (h : Parts x ex P l k) (hp : l.pending = [])
    (hc : l.collect = some l') : Parts x ex P l' k := by
  have hreg := h.wf.collected_reg hp hc
  have hwf := h.wf.collected hp hc
  obtain ⟨heap, hrun, _⟩ := h.wf.collect_spec hp
  rw [hrun, Option.some.injEq] at hc
  subst hc
  exact h.reloop_same hwf ⟨rfl, rfl, rfl, rfl⟩ hreg

/-- Another record of what was before. -/
theorem recontext (h : Parts x ex P l k) (s : ServerState) {before : Nat → List Action}
    (hb : ∀ n, before n <+: k.log n) :
    Parts { x with server := s, before := before } ex P l k := { h with grown := hb }

end Parts

theorem AtRest.recontext (h : AtRest x w) (s : ServerState) :
    AtRest { x with server := s } w := ⟨h.parts.recontext s h.parts.grown, h.holding⟩

/-! ## Calls between two clients -/

theorem systemCall_rest (hX : ∀ w, Waits x.mode w → X.waits w) :
    Triple X (AtRest x) systemCall (fun _ => AtRest x) :=
  Triple.ask (fun w h => hX w h.waits) fun _ _ h _ => h

theorem useServer_rest {s : ServerState} (fd : Int) (hfd : fd ∈ s.places) :
    Triple X (fun w => s = w.own.server ∧ AtRest x w) (useFd fd) (fun _ => AtRest x) := by
  refine Triple.step fun w ⟨hs, h⟩ => ?_
  obtain ⟨o, ho⟩ := Heap.object_of_mem_openFds (h.parts.isOpen (show fd ∈ _ by simp [← hs, hfd]))
  exact ⟨w, o, by rw [ho]; rfl, h⟩

theorem getServer_rest : Triple X (AtRest x) getServer
    (fun s w => s = w.own.server ∧ AtRest x w) :=
  Triple.bind Triple.get fun _ => Triple.pure fun _ h => ⟨by rw [h.2], h.1⟩

/-- How a client stands, apart from the table. -/
theorem Standing.stance {fds : Heap Object} {mask : Option UInt32}
    (h : Standing strict fds c mask L) :
    ∃ o, Stance strict c o mask L ∧ ∀ f, o = some f → fds.object c.file = some (.file f) := by
  cases h with
  | reading hm h0 hq hs => exact ⟨none, fun _ _ => .reading hm h0 hq hs, by simp⟩
  | sending f hm ho hf hs =>
    exact ⟨some f, fun _ hfds => .sending f hm (hfds f rfl) hf hs, by rintro g ⟨⟩; exact ho⟩
  | cgi hm h0 hq hs => exact ⟨none, fun _ _ => .cgi hm h0 hq hs, by simp⟩

/-- A client of a worker at rest, for a handler to work on. -/
theorem AtRest.focus (h : AtRest x w) (hc : w.own.mem.cell a = some c) :
    ∃ o, Held { x with server := w.own.server } a c o (w.loop.reg c.socket)
        (w.own.log (w.own.fds.serialOf c.socket)) w ∧
      Stance x.strict c o ((w.loop.reg c.socket).map Reg.events)
        (w.own.log (w.own.fds.serialOf c.socket)) ∧ Settled c := by
  obtain ⟨hk, hc'⟩ := h.parts.kinds a c (by simp) hc
  obtain ⟨o, hs, ho⟩ := (h.parts.standing a c (by simp) hc).stance
  have hf := (h.parts.recontext w.own.server h.parts.grown).focus hc
  exact ⟨o, ⟨⟨hf, h.holding, rfl, hc, rfl, rfl⟩, hk, ho⟩, hs, hc'⟩

theorem AtRest.clients_perm (h : AtRest x w) : w.own.mem.live.Perm w.own.server.clients := by
  have hlive := h.parts.live
  rwa [h.holding] at hlive

theorem AtRest.clients_nodup (h : AtRest x w) : w.own.server.clients.Nodup :=
  h.clients_perm.nodup_iff.mp w.own.mem.live_nodup

/-- A client in the list is there. -/
theorem AtRest.cell_of_mem (h : AtRest x w) (ha : a ∈ w.own.server.clients) :
    ∃ c, w.own.mem.cell a = some c :=
  Heap.cell_of_mem_live (h.clients_perm.mem_iff.mpr ha)

/-! ## The listening socket -/

/-- `server_socket` holds a connection, for which `L` was done. -/
structure Accepted (x : Context) (fd : Int) (L : List Action) (w : World) : Prop where
  parts : Parts x none [fd] w.loop { w.own with holding := .nothing }
  holding : w.own.holding = .connection fd
  object : w.own.fds.object fd = some .connection
  log : w.own.log (w.own.fds.serialOf fd) = L

theorem Accepted.waits (h : Accepted x fd L w) : Waits x.mode w := by
  have hparts : Parts x none [] w.loop { w.own with holding := .connection fd } :=
    h.parts.reheld (List.Perm.refl _) rfl
  have hsame : { w.own with holding := .connection fd } = w.own := by rw [← h.holding]
  exact ⟨x, rfl, Or.inl (hsame ▸ hparts)⟩

/-- A connection nobody is a client of is not registered. -/
theorem Accepted.reg (h : Accepted x fd L w) : w.loop.reg fd = none := by
  cases hr : w.loop.reg fd with
  | none => rfl
  | some r =>
    have hobj := h.object
    cases h.parts.regs fd r hr with
    | socket a c _ _ hc hs _ =>
      have hm := Worker.mem_others.mpr ⟨a, c, Option.some_ne_none a, hc, c.socket_mem⟩
      exact absurd hs (h.parts.other_ne (by simp) hm)
    | pidfd _ _ _ _ ho => rw [show w.own.fds.object fd = _ from ho] at hobj; cases hobj
    | server _ _ _ ho => rw [show w.own.fds.object fd = _ from ho] at hobj; cases hobj

/-- A connection that does not become a client gets one menu and is
closed. -/
theorem turnAway_triple (m : Menu) :
    Triple X (Accepted x fd []) (turnAway fd m) (fun _ => AtRest x) := by
  refine Triple.bind (R := fun _ => Accepted x fd [.menu m]) (Triple.step fun w h => ?_) fun _ => ?_
  · refine ⟨_, (), by rw [h.object]; rfl, ?_⟩
    have hlog : LogOk x.strict (w.own.log (w.own.fds.serialOf fd) ++ [.menu m]) := by
      rw [h.log]
      exact LogOk.nil.menu (Silent.nil.menu m)
    refine ⟨h.parts.noted (by simp) hlog, h.holding, h.object, ?_⟩
    simp only [Function.update_self, h.log, List.nil_append]
  · refine Triple.bind (R := fun _ w => Parts x none [] w.loop { w.own with holding := .nothing })
      (closeFd_triple fun w h => ?_) fun _ => Triple.modify fun w h => ⟨h, rfl⟩
    have hm : fd ∈ w.own.fds.openFds := Heap.mem_openFds_of_object h.object
    exact ⟨h.parts.wf, h.reg, hm, h.parts.closed h.reg hm⟩

/-- A client that was allocated and is not in the list yet; its socket may
be registered as `m`. -/
structure Admitted (x : Context) (a : Nat) (c : Client) (m : Option Registration) (w : World) :
    Prop where
  parts : Parts x (some a) c.places w.loop w.own
  holding : w.own.holding = .client a
  cell : w.own.mem.cell a = some c
  reg : w.loop.reg c.socket = m
  log : w.own.log (w.own.fds.serialOf c.socket) = []
  object : w.own.fds.object c.socket = some .connection

/-- How a new client stands that is watched, and one that is not. -/
theorem newClient_watched {fds : Heap Object} (fd : Int) (address : Bytes) (now : Int) :
    Standing strict fds (newClient fd address now) (some (EPOLLIN ||| EPOLLET)) [] :=
  .reading (Or.inr rfl) rfl .nil fun _ => ⟨rfl, rfl, rfl, by simp⟩

theorem newClient_unwatched {fds : Heap Object} (fd : Int) (address : Bytes) (now : Int) :
    Standing strict fds (newClient fd address now) none [.unwatched] :=
  .reading (Or.inl ⟨rfl, by simp⟩) rfl (Silent.nil.quiet trivial)
    fun _ => ⟨rfl, rfl, rfl, by simp⟩

theorem newClient_kinds {fds : Heap Object} {address : Bytes} {now : Int}
    (h : fds.object fd = some .connection) : Kinds fds (newClient fd address now) :=
  ⟨h, fun h0 => absurd h0 (by simp [newClient]), fun h0 => absurd h0 (by simp [newClient]),
    fun h0 => absurd h0 (by simp [newClient])⟩

theorem newClient_settled (fd : Int) (address : Bytes) (now : Int) :
    Settled (newClient fd address now) := ⟨rfl, Nat.zero_le _⟩

/-- The client is allocated. -/
theorem allocClient_triple (want : Nat) (address : Bytes) (now : Int) :
    Triple X
      (fun w => Accepted x fd [] w ∧ w.own.server.numClients ≠ w.own.server.params.maxClients)
      (allocClient want (newClient fd address now))
      (fun a => Admitted x a (newClient fd address now) none) := by
  refine Triple.step fun w ⟨h, hne⟩ => ⟨_, _, rfl, ?_⟩
  have hplaces : (newClient fd address now).places = [(newClient fd address now).socket] := by
    simp [Client.places, newClient, Client.filePlaces, held]
  have hroom : w.own.server.clients.length < w.own.server.params.maxClients.toNat := by
    have hcount : w.own.server.numClients.toNat = w.own.server.clients.length := h.parts.count
    have hle : w.own.server.clients.length + 0 ≤ w.own.server.params.maxClients.toNat :=
      h.parts.room
    have hlt : w.own.server.numClients.toNat ≠ w.own.server.params.maxClients.toNat :=
      fun he => hne (UInt32.toNat_inj.mp he)
    omega
  have halloc := h.parts.allocated (c := newClient fd address now) hplaces hroom want
  have hcell := Heap.alloc_cell_self w.own.mem want (newClient fd address now)
  exact ⟨halloc, rfl, hcell, h.reg, h.log, h.object⟩

/-- Its socket is watched, or not. -/
theorem addSocket_triple (hX : ∀ w, Waits x.mode w → X.waits w) {address : Bytes} {now : Int} :
    Triple X (Admitted x a (newClient fd address now) none)
      (sepollAdd fd (EPOLLIN ||| EPOLLET) (some .clientSocket) .server (.client a))
      (fun ret w => ∃ m, ((∃ e, ret = .error e) ∧ m = none ∨
          ret = .ok () ∧ m.map Reg.events = some (EPOLLIN ||| EPOLLET)) ∧
        Admitted x a (newClient fd address now) m w) := by
  refine Triple.bind (R := fun _ => Admitted x a (newClient fd address now) none)
    (Triple.ask (fun w h => hX w ⟨x, rfl, Or.inr ⟨a, _, h.cell, h.parts⟩⟩) fun _ _ h _ => h)
    fun y => ?_
  refine onLoop_triple fun w h => ?_
  obtain ⟨l, ret, hrun, hwf, hkept, hcases⟩ := h.parts.wf.add_spec fd (EPOLLIN ||| EPOLLET)
    (some .clientSocket) .server (.client a) y.loop
  refine ⟨l, ret, hrun, ?_⟩
  rcases hcases with ⟨he, hreg⟩ | ⟨p, hok, _, hfree, hreg⟩
  · refine ⟨none, Or.inl ⟨he, rfl⟩, ?_⟩
    exact { h with
      parts := h.parts.reloop_same hwf hkept hreg
      reg := (congrFun hreg _).trans h.reg }
  · refine ⟨_, Or.inr ⟨hok, ?_⟩, ⟨h.parts.reloop hwf hkept hreg ?_ ?_ ?_, h.holding, h.cell, rfl,
      h.log, h.object⟩⟩
    · show (l.reg fd).map Reg.events = _
      rw [hreg, Function.update_self]
      rfl
    · intro b d hb hd
      have hm := Worker.mem_others.mpr ⟨b, d, hb, hd, d.socket_mem⟩
      exact h.parts.other_ne (by simp [Client.places, newClient]) hm
    · intro r hr
      cases hr
      exact .socket a _ rfl rfl h.cell rfl h.object
    · intro r hr e he hp
      cases hr
      exact absurd hp.symm (hfree e he)

/-- A new client is put among the others. -/
theorem Admitted.unfocus {address : Bytes} {now : Int} {m : Option Registration}
    (h : Admitted x a (newClient fd address now) m w)
    (hs : Standing x.strict w.own.fds (newClient fd address now) (m.map Reg.events) []) :
    Parts x none [] w.loop w.own := by
  refine h.parts.unfocus h.cell (newClient_kinds h.object) (newClient_settled ..) ?_
  rw [h.reg, h.log]
  exact hs

/-- The client is put into the list. -/
theorem insert_triple (hX : ∀ w, Waits x.mode w → X.waits w) {address : Bytes} {now : Int} :
    Triple X (Admitted x a (newClient fd address now) none)
      (do
        let ret ← sepollAdd fd (EPOLLIN ||| EPOLLET) (some .clientSocket) .server (.client a)
        noteAdd fd ret
        insertClient a) (fun _ => AtRest x) := by
  refine Triple.bind (addSocket_triple hX) fun ret => ?_
  refine Triple.bind (R := fun _ w => Parts x none [] w.loop w.own ∧ w.own.holding = .client a) ?_
    fun _ => Triple.modify fun w h => ⟨h.1.inserted h.2, rfl⟩
  refine Triple.exists_pre fun m => Triple.assume fun hret => ?_
  rcases hret with ⟨⟨e, rfl⟩, rfl⟩ | ⟨rfl, hm⟩
  · -- the log says that the socket is not watched
    refine Triple.step fun w h => ?_
    have hL : LogOk x.strict [.unwatched] :=
      LogOk.nil.snoc (.nothing (Silent.nil.quiet trivial)) (by simp) (by simp)
    have hlog : LogOk x.strict (w.own.log (w.own.fds.serialOf fd) ++ [.unwatched]) := by
      rw [show w.own.log (w.own.fds.serialOf fd) = [] from h.log]
      exact hL
    refine ⟨_, (), by rw [show w.own.fds.object fd = _ from h.object]; rfl, ?_⟩
    refine ⟨(h.parts.noted (by simp [Client.places, newClient]) hlog).unfocus h.cell
      (newClient_kinds h.object) (newClient_settled ..) ?_, h.holding⟩
    show Standing x.strict w.own.fds _ ((w.loop.reg fd).map Reg.events)
      (Function.update w.own.log _ _ (w.own.fds.serialOf fd))
    rw [Function.update_self, show w.loop.reg fd = none from h.reg,
      show w.own.log (w.own.fds.serialOf fd) = [] from h.log]
    exact newClient_unwatched fd address now
  · exact Triple.pure fun w h => ⟨h.unfocus (hm ▸ newClient_watched fd address now), h.holding⟩

/-- A connection becomes a client or is turned away. -/
theorem takeConnection_triple (hX : ∀ w, Waits x.mode w → X.waits w) {address : Bytes} :
    Triple X (Accepted x fd []) (takeConnection fd address) (fun _ => AtRest x) := by
  refine Triple.bind (R := fun s w => s = w.own.server ∧ Accepted x fd [] w)
    (Triple.bind Triple.get fun _ => Triple.pure fun _ h => ⟨by rw [h.2], h.1⟩) fun s => ?_
  refine Triple.ite (fun _ => (turnAway_triple _).pre fun _ h => h.2) fun hne => ?_
  refine Triple.bind (R := fun _ w => s = w.own.server ∧ Accepted x fd [] w)
    (Triple.ask (fun w h => hX w h.2.waits) fun _ _ h _ => h) fun y => ?_
  cases y.malloc with
  | none => exact (turnAway_triple _).pre fun _ h => h.2
  | some want =>
    refine Triple.bind ((allocClient_triple _ _ _).pre fun w h => ⟨h.2, h.1 ▸ hne⟩) fun a => ?_
    exact insert_triple hX

/-- A connection is accepted. -/
theorem AtRest.accepted (h : AtRest x w) (want : Int) :
    Accepted x (w.own.fds.openFd want .connection).2 []
      { w with own := { w.own with
          fds := (w.own.fds.openFd want .connection).1
          holding := .connection (w.own.fds.openFd want .connection).2 } } := by
  have hroom : ([] ++ w.own.others none).length ≤ 4 * w.own.mem.live.length := by
    rw [List.nil_append, Worker.others_all]
    exact w.own.clientPlaces_length _
  have hparts := h.parts.opened h.holding hroom want .connection
  refine ⟨?_, rfl, Heap.openFd_object_self .., ?_⟩
  · have hsame : { w.own with holding := .nothing } = w.own := by rw [← h.holding]
    show Parts x none _ w.loop
      { ({ w.own with holding := .nothing } : Worker) with
        fds := (w.own.fds.openFd want .connection).1 }
    rw [hsame]
    exact hparts
  · show w.own.log ((w.own.fds.openFd want .connection).1.serialOf _) = []
    rw [Heap.openFd_serialOf_self]
    exact h.parts.unused _ (Nat.le_refl _)

/-- Accepting keeps the worker at rest. -/
theorem acceptAll_triple (hX : ∀ w, Waits x.mode w → X.waits w) :
    Triple X (AtRest x) acceptAll (fun _ => AtRest x) := by
  refine Triple.iterate (I := fun _ => AtRest x) (fun _ w h => hX w h.waits) (fun _ => ?_) ()
  refine Triple.bind getServer_rest fun s => ?_
  refine Triple.bind (useServer_rest s.socket (by simp [ServerState.places])) fun _ => ?_
  refine Triple.bind (systemCall_rest hX) fun y => ?_
  cases y.accept with
  | error e => exact Triple.pure fun _ h => h
  | ok p =>
    obtain ⟨want, address⟩ := p
    refine Triple.bind (R := fun fd w => Accepted x fd []
        { w with own := { w.own with holding := .connection fd } })
      (Triple.step fun w h => ⟨_, _, rfl, h.accepted want⟩) fun fd => ?_
    refine Triple.bind (R := fun _ => Accepted x fd []) (Triple.modify fun _ h => h) fun _ => ?_
    exact Triple.bind (takeConnection_triple hX) fun _ => Triple.pure fun _ h => h

theorem serverSocket_triple (events : UInt32) :
    Triple (contract x.mode) (AtRest x) (serverSocket events) (fun _ => AtRest x) :=
  Triple.ite
    (fun _ => Triple.bind (acceptAll_triple fun _ h => h) fun _ => Triple.pure fun _ h => h)
    fun _ => Triple.pure fun _ h => h

/-! ## The signal -/

theorem serverSignal_triple :
    Triple (contract x.mode) (AtRest x) serverSignal (fun _ => AtRest x) := by
  refine Triple.iterate (I := fun _ => AtRest x) (fun _ w h => h.waits) (fun _ => ?_) ()
  refine Triple.bind getServer_rest fun s => ?_
  refine Triple.bind (useServer_rest s.sigfd (by simp [ServerState.places])) fun _ => ?_
  refine Triple.bind (systemCall_rest fun _ h => h) fun y => ?_
  cases y.signal with
  | error e => exact Triple.pure fun _ h => h
  | ok signo =>
    refine Triple.bind (R := fun _ => AtRest x) ?_ fun _ => Triple.pure fun _ h => h
    refine Triple.when (fun _ => ?_) fun _ _ h => h
    refine Triple.bind (R := fun _ w => w.own.terminated = true ∧ AtRest x w)
      (Triple.modify fun w h => ⟨rfl, h.parts.terminated, h.holding⟩) fun _ => ?_
    exact Triple.modify fun w h => ⟨h.2.parts.setRun false fun _ _ => h.1, h.2.holding⟩

/-! ## The timer -/

/-- Where nothing of a file was sent, nothing was. -/
theorem Standing.silent {fds : Heap Object} {mask : Option UInt32}
    (h : Standing strict fds c mask L) (h0 : c.sentsize = 0) : Silent L := by
  cases h with
  | reading hm _ hq hs => exact hq
  | sending f hm ho hf hs => exact hf.silent h0
  | cgi hm _ hq hs => exact hq

/-- The timer leaves a client where it is, or disconnects it. -/
theorem timerClient_triple (now : Int) (cl : List Nat) (ha : a ∈ cl) :
    Triple (contract x.mode) (fun w => AtRest x w ∧ w.own.server.clients = cl)
      (timerClient now a)
      (fun _ w =>
        AtRest x w ∧ (w.own.server.clients = cl ∨ w.own.server.clients = cl.erase a)) := by
  intro w ans ⟨h, hcl⟩ hA
  obtain ⟨c, hc⟩ := h.cell_of_mem (hcl ▸ ha)
  obtain ⟨o, hheld, hs, hset⟩ := h.focus hc
  subst hcl
  have hstay : ∀ w', Held { x with server := w.own.server } a c o (w.loop.reg c.socket)
      (w.own.log (w.own.fds.serialOf c.socket)) w' → AtRest x w' ∧
        (w'.own.server.clients = w.own.server.clients ∨
          w'.own.server.clients = w.own.server.clients.erase a) := fun w' h' =>
    ⟨(h'.atRest hset hs).recontext x.server, Or.inl (congrArg ServerState.clients h'.busy.server)⟩
  have hkill := fun h0 => (pidfdKillClient_triple (x := { x with server := w.own.server })
    (m := w.loop.reg c.socket) (L := w.own.log (w.own.fds.serialOf c.socket)) (o := o) (a := a)
    hset.apart h0).post fun _ w' h' => h'.elim
      (fun h' => (⟨h'.1.recontext x.server, Or.inr h'.2⟩ : AtRest x w' ∧
        (w'.own.server.clients = w.own.server.clients ∨
          w'.own.server.clients = w.own.server.clients.erase a))) (hstay w')
  refine (?_ : Triple (contract x.mode) (Held { x with server := w.own.server } a c o
    (w.loop.reg c.socket) (w.own.log (w.own.fds.serialOf c.socket))) (timerClient now a) _)
    w ans hheld hA
  refine Triple.bind_eq getServer_held (Triple.bind_eq getClient_held ?_)
  refine Triple.when (fun _ => ?_) fun _ w' h' => hstay w' h'
  refine Triple.ite (fun h0 => ?_) fun _ => ?_
  · refine Triple.bind (useFd_held (Client.socket_mem _)) fun _ => ?_
    refine Triple.bind systemCall_held fun y => ?_
    cases y.tcpInfo with
    | error e => exact hkill h0
    | ok n => exact Triple.when (fun _ => hkill h0) fun _ w' h' => hstay w' h'
  · refine Triple.bind (R := fun _ w' => ∃ L, Held { x with server := w.own.server } a c o
      (w.loop.reg c.socket) L w') ?_ fun _ => Triple.exists_pre fun L => ?_
    · refine Triple.when (fun hz => ?_) fun _ w' h' => ⟨_, h'⟩
      have hsilent := (h.parts.standing a c (by simp) hc).silent hz
      exact (note_held fun h => h.menu (hsilent.menu _)).post fun _ w' h' => ⟨_, h'⟩
    · refine Triple.ghost (fun w => w.own.log) fun log => ?_
      exact (clientDisconnect_triple hset.apart).post fun _ w' h' =>
        ⟨h'.1.recontext x.server, Or.inr h'.2.2⟩

/-- The link of a client in the list leads to the next one. -/
theorem AtRest.listNext_run {seen rest : List Nat} (h : AtRest x w)
    (hcl : w.own.server.clients = seen ++ a :: rest) (ans : List Answer) :
    listNext a w ans = .done rest.head? w ans := by
  have hnd : (seen ++ a :: rest).Nodup := hcl ▸ h.clients_nodup
  have hseen : a ∉ seen := fun hm => (List.nodup_append.mp hnd).2.2 a hm a (by simp) rfl
  obtain ⟨c, hc⟩ := h.cell_of_mem (show a ∈ w.own.server.clients by simp [hcl])
  have hdrop : (seen ++ a :: rest).dropWhile (· ≠ a) = a :: rest := by
    have hne : ∀ b ∈ seen, decide (b ≠ a) = true := fun b hb =>
      decide_eq_true fun he => hseen (he ▸ hb)
    rw [List.dropWhile_append_of_pos hne]
    simp
  simp only [listNext, Prog.step, hc, Option.map_some, hcl, hdrop, List.tail_cons]

/-- The walk stands at the first of the clients it has not seen. -/
theorem timerWalk_triple (now : Int) : ∀ (fuel : Nat) (cur : Option Nat),
    Triple (contract x.mode)
      (fun w => AtRest x w ∧ ∃ seen rest, w.own.server.clients = seen ++ rest ∧
        cur = rest.head? ∧ rest.length ≤ fuel)
      (timerWalk now fuel cur) (fun _ => AtRest x)
  | fuel, none => by
    cases fuel <;> exact Triple.pure fun _ h => h.1
  | 0, some a => by
    intro w ans ⟨_, seen, rest, _, hcur, hlen⟩
    rw [List.length_eq_zero_iff.mp (Nat.le_zero.mp hlen)] at hcur
    cases hcur
  | fuel + 1, some a => by
    intro w ans ⟨h, seen, rest, hcl, hcur, hlen⟩ hA
    obtain ⟨rest, rfl⟩ : ∃ rest', rest = a :: rest' := by
      cases rest with
      | nil => cases hcur
      | cons b rest => exact ⟨rest, by rw [Option.some.inj hcur]⟩
    have hnd : (seen ++ a :: rest).Nodup := hcl ▸ h.clients_nodup
    have hseen : a ∉ seen := fun hm => (List.nodup_append.mp hnd).2.2 a hm a (by simp) rfl
    -- the link is read while the client is still there
    rw [timerWalk, Prog.bind_done (h.listNext_run hcl ans)]
    have hrun := Triple.bind
      (timerClient_triple (x := x) now (seen ++ a :: rest) (a := a) (by simp))
      fun _ => (timerWalk_triple now fuel rest.head?).pre fun w' h' => ⟨h'.1, ?_⟩
    · exact hrun w ans ⟨h, hcl⟩ hA
    · rcases h'.2 with he | he
      · exact ⟨seen ++ [a], rest, by simp [he], rfl, by simpa using hlen⟩
      · refine ⟨seen, rest, ?_, rfl, by simpa using hlen⟩
        rw [he, List.erase_append_right _ hseen, List.erase_cons_head]

theorem serverTimer_triple :
    Triple (contract x.mode) (AtRest x) serverTimer (fun _ => AtRest x) := by
  refine Triple.bind getServer_rest fun s => ?_
  refine Triple.bind (useServer_rest s.timerfd (by simp [ServerState.places])) fun _ => ?_
  refine Triple.bind (systemCall_rest fun _ h => h) fun _ => ?_
  refine Triple.bind (systemCall_rest fun _ h => h) fun y => ?_
  refine Triple.bind getServer_rest fun s => ?_
  refine (timerWalk_triple y.time s.clients.length s.clients.head?).pre fun w h => ⟨h.2, ?_⟩
  exact ⟨[], s.clients, by rw [h.1]; rfl, rfl, Nat.le_refl _⟩

/-! ## Every callback -/

/-- What a registration stands for keeps the worker at rest, given the
event it is called for. Only the callback of a program may find its client
gone, and only where masks were not changed. -/
theorem handle_triple {e : EpollEvent} {f : Handler} {u1 u2 : Arg}
    (hr : ∀ e' ∈ x.pending, r.ptr ≠ e'.ptr) (he : Reported e r.events)
    (hf : r.function = some f) (hu : r.userdata2 = u2) :
    Triple (contract x.mode) (fun w => AtRest x w ∧ w.loop.reg fd = some r)
      (handle f e.events u1 u2) (fun _ => AtRest x) := by
  intro w ans ⟨h, hreg⟩ hA
  cases h.parts.regs fd r hreg with
  | socket a c hf' hu' hc hs ho =>
    obtain rfl := Option.some.inj (hf.symm.trans hf')
    obtain rfl := hu.symm.trans hu'
    obtain ⟨o, hheld, hst, hset⟩ := h.focus hc
    rw [hs, hreg] at hheld
    have hstand := h.parts.standing a c (by simp) hc
    rw [hs, hreg] at hstand
    refine ((clientSocket_triple (x := { x with server := w.own.server }) hr he hset).post
      fun _ w' h' => (h'.recontext x.server : AtRest x w')) w ans ⟨hheld.forget, ?_⟩ hA
    exact hstand
  | pidfd a hf' hu' hc ho =>
    obtain rfl := Option.some.inj (hf.symm.trans hf')
    obtain rfl := hu.symm.trans hu'
    cases hcell : w.own.mem.cell a with
    | none =>
      have hn : ¬ x.strict := fun hs => by
        obtain ⟨c, hc, _⟩ := hc hs
        rw [hcell] at hc
        cases hc
      show Outcome.Meets _ _ (clientPidfd a w ans)
      rw [clientPidfd, clientDisconnect, Prog.bind_run]
      simp only [getClient, Prog.step, hcell, Option.map_none]
      exact hn
    | some c =>
      obtain ⟨o, hheld, _, hset⟩ := h.focus hcell
      exact ((clientDisconnect_triple (x := { x with server := w.own.server })
        hset.apart).post fun _ w' h' =>
        (h'.1.recontext x.server : AtRest x w')) w ans ⟨hheld, rfl⟩ hA
  | server g hf' hh ho =>
    obtain rfl := Option.some.inj (hf.symm.trans hf')
    rcases hh with rfl | rfl | rfl
    · exact serverSocket_triple e.events w ans h hA
    · exact serverSignal_triple w ans h hA
    · exact serverTimer_triple w ans h hA

end Sgopher.Server
