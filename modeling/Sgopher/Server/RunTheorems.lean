/-
Sgopher.Server.RunTheorems — the whole run of a worker.

`server_process` registers the worker's own descriptors, enters the event
loop, and cleans up when the loop returns. The invariant holds from the
first call on; when the loop has ended it is taken apart, client by client
and then descriptor by descriptor, until nothing is left that the worker
owns. While that lasts the worker waits in states the loop never has
(`Cleaning`), so the contract of the whole run allows both.

No `sorry`, no `axiom`, no `native_decide`.
-/
import Sgopher.Server.ProcessTheorems

namespace Sgopher.Server

open Sgopher.Lib Sgopher.Sepoll

variable {x : Context} {mode : Mode} {P : List Int} {a : Nat} {c : Client} {fd : Int}
  {l : EventLoop} {k : Worker} {w : World}

/-! ## The event loop -/

/-- A worker between two calls of handlers, whatever happened so far. -/
def Resting (mode : Mode) (w : World) : Prop := ∃ x, x.mode = mode ∧ AtRest x w

/-- An event of the batch has a registration, which is called for it after
the event was taken off. -/
theorem AtRest.taken {e : EpollEvent} {rest : List EpollEvent} {cb : Callback Handler Arg}
    {f : Handler} (h : AtRest x w) (hp : w.loop.pending = e :: rest)
    (hc : w.loop.heap.cell e.ptr = some cb) (hf : cb.function = some f) :
    ∃ r, w.loop.reg cb.fd = some r ∧ (∀ e' ∈ rest, r.ptr ≠ e'.ptr) ∧ Reported e r.events ∧
      r.function = some f ∧ r.userdata2 = cb.userdata2 ∧
      AtRest { x with pending := rest } (w.withLoop w.loop.popped) := by
  obtain ⟨r, hr, hptr, hrf, _, hru⟩ := h.parts.wf.reg_of_pending (by simp [hp]) hc hf
  have hnd := h.parts.reported_nodup
  rw [hp, List.map_cons, List.nodup_cons] at hnd
  have hrest := h.parts.popped
  rw [hp] at hrest
  refine ⟨r, hr, fun e' he' hn => hnd.1 (hptr.symm.trans hn ▸ List.mem_map_of_mem he'),
    h.parts.reported e (by simp [hp]) cb.fd r hr hptr, hrf, hru, hrest, h.holding⟩

/-- The callback of an event that was taken off the batch. -/
theorem callback_triple {e : EpollEvent} {rest : List EpollEvent} {cb : Callback Handler Arg}
    {f : Handler} (hf : cb.function = some f) :
    Triple (contract x.mode)
      (fun w' => ∃ w, AtRest x w ∧ w.loop.pending = e :: rest ∧ w.loop.heap.cell e.ptr = some cb ∧
        w' = w.withLoop w.loop.popped)
      (handle f e.events cb.userdata1 cb.userdata2)
      (fun _ => AtRest { x with pending := rest }) := by
  rintro w' ans ⟨w, h, hp, hc, rfl⟩ hA
  obtain ⟨r, hr, hfree, hrep, hrf, hru, hrest⟩ := h.taken hp hc hf
  have hhandle : Triple (contract x.mode)
      (fun w => AtRest { x with pending := rest } w ∧ w.loop.reg cb.fd = some r)
      (handle f e.events cb.userdata1 cb.userdata2) (fun _ => AtRest { x with pending := rest }) :=
    handle_triple hfree hrep hrf hru
  exact hhandle _ ans ⟨hrest, hr⟩ hA

/-- The worker's callbacks keep it at rest. -/
theorem worker_enterInv (mode : Mode) :
    EnterInv (contract mode) (Resting mode) handle (-1) none where
  wf := fun _ ⟨_, _, h⟩ => h.parts.wf
  waits := fun _ ⟨_, hx, h⟩ => hx ▸ h.waits
  start := fun _ ⟨x, hx, h⟩ => ⟨x, hx, h.parts.setRun true (by simp), h.holding⟩
  stop := by
    rintro - w y n ⟨x, rfl, h⟩ _ hy hn hr
    -- where the kernel wakes the loop, waiting does not end like this
    refine ⟨x, rfl, h.parts.setRun false fun hwoken => ?_, h.holding⟩
    obtain ⟨e, he⟩ := Loop.poll_error (h.parts.size hwoken) (by decide) hn hr
    exact absurd he (hy.2 hwoken e)
  batch := fun w _ batch ⟨x, hx, h⟩ _ _ hb =>
    ⟨{ x with
        pending := batch
        epollEvents := batch ++ w.loop.epollEvents.drop batch.length }, hx,
      h.parts.batched hb, h.holding⟩
  skip := fun w _ _ _ ⟨x, hx, h⟩ _ _ _ =>
    ⟨{ x with pending := w.loop.pending.tail }, hx, h.parts.popped, h.holding⟩
  callback := by
    rintro e rest cb f arr hf w' ans ⟨w, ⟨x, rfl, h⟩, hp, hc, harr, rfl⟩ hA
    refine ((callback_triple hf).post fun _ w' h' => ?_) _ ans ⟨w, h, hp, hc, rfl⟩ hA
    exact ⟨⟨{ x with pending := rest }, rfl, h'⟩, h'.parts.pending,
      h'.parts.epollEvents.trans (h.parts.epollEvents.symm.trans harr)⟩
  after := by simp
  collect := fun _ _ ⟨x, hx, h⟩ hp hc => ⟨x, hx, h.parts.collected hp hc, h.holding⟩

/-! ## Cleaning up -/

/-- A worker that is being cleaned up: the loop is gone, the clients of
`lives` are not freed yet, and what is left is held by `P` and by the
clients of `rest`. It never had more open than it may. -/
structure Cleaning (mode : Mode) (s : ServerState) (P : List Int) (lives rest : List Nat)
    (w : World) : Prop where
  server : w.own.server = s
  owned : w.own.fds.Owned mode.strict (P ++ rest.flatMap w.own.clientPlaces)
  live : w.own.mem.live.Perm lives
  settled : ∀ a c, w.own.mem.cell a = some c → Settled c
  logs : ∀ n, LogOk mode.strict (w.own.log n)
  interest : ∀ fd, w.loop.interest fd = none
  records : w.loop.heap.live = []
  budget : mode.strict → 3 + w.own.fds.peak ≤ FDS_SERVER + FDS_CLIENT * s.params.maxClients.toNat

/-- Wherever the worker waits, from its first call to its last. -/
def RunWaits (mode : Mode) (w : World) : Prop :=
  Waits mode w ∨ ∃ s P rest, P ⊆ s.places ∧ rest.length ≤ s.params.maxClients.toNat ∧
    Cleaning mode s P rest rest w

/-- The contract of the whole run. -/
def runContract (mode : Mode) : Contract Answer World where
  answers := (contract mode).answers
  waits := RunWaits mode
  mayFault := ¬ mode.strict

variable {s : ServerState} {lives rest : List Nat}

theorem Cleaning.perm {P' : List Int} {rest' : List Nat} (h : Cleaning mode s P lives rest w)
    (hp : (P ++ rest.flatMap w.own.clientPlaces).Perm (P' ++ rest'.flatMap w.own.clientPlaces)) :
    Cleaning mode s P' lives rest' w := { h with owned := h.owned.perm hp }

/-- A descriptor that nothing else holds is closed. -/
theorem Cleaning.closeFd_triple :
    Triple (runContract mode) (Cleaning mode s (fd :: P) lives rest) (closeFd fd)
      (fun _ => Cleaning mode s P lives rest) := by
  refine Triple.step fun w h => ?_
  have hm := h.owned.head_open
  refine ⟨_, (), by rw [h.interest fd, Heap.closeFd_eq hm]; rfl, ?_⟩
  exact { h with owned := h.owned.closed }

/-- A field's descriptor is closed if there is one. -/
theorem Cleaning.closeIf_triple :
    Triple (runContract mode) (Cleaning mode s (held fd ++ P) lives rest)
      (Prog.when (0 ≤ fd) (closeFd fd)) (fun _ => Cleaning mode s P lives rest) := by
  unfold held
  refine Triple.when (fun h0 => ?_) fun h0 w h => ?_
  · rw [if_pos h0]
    exact Cleaning.closeFd_triple
  · rwa [if_neg h0] at h

/-- The worker's own descriptors are open, so there is one. -/
theorem Cleaning.closeOwn_triple :
    Triple (runContract mode) (Cleaning mode s (fd :: P) lives rest)
      (Prog.when (0 ≤ fd) (closeFd fd)) (fun _ => Cleaning mode s P lives rest) := by
  refine Triple.when (fun _ => Cleaning.closeFd_triple) fun h0 w h => absurd ?_ h0
  have := (Heap.mem_openFds.mp h.owned.head_open).1
  omega

/-- The last of a client: its record is freed. -/
theorem Cleaning.free_triple :
    Triple (runContract mode) (Cleaning mode s P (a :: rest) rest)
      (Prog.step fun w => (w.own.mem.free a).map fun mem =>
        ({ w with own := { w.own with mem := mem } }, ()))
      (fun _ => Cleaning mode s P rest rest) := by
  refine Triple.step fun w h => ?_
  have ha : a ∈ w.own.mem.live := h.live.mem_iff.mpr (by simp)
  refine ⟨_, (), by rw [Heap.free_eq ha]; rfl, ?_⟩
  have hnd : (a :: rest).Nodup := h.live.nodup_iff.mp w.own.mem.live_nodup
  have hplaces : rest.flatMap (Worker.clientPlaces { w.own with mem := w.own.mem.freeLive a ha })
      = rest.flatMap w.own.clientPlaces := by
    refine List.flatMap_congr fun b hb => ?_
    have hne : b ≠ a := fun he => (List.nodup_cons.mp hnd).1 (he ▸ hb)
    rw [Worker.clientPlaces, Worker.clientPlaces, Heap.freeLive_cell_of_ne ha hne]
  refine { h with owned := hplaces ▸ h.owned, live := ?_, settled := fun b c hc => ?_ }
  · have := h.live.erase a
    rwa [List.erase_cons_head] at this
  · have hne : b ≠ a := by
      rintro rfl
      rw [show (w.own.mem.freeLive b ha).cell b = none from Function.update_self ..] at hc
      cases hc
    exact h.settled b c ((Heap.freeLive_cell_of_ne ha hne).symm.trans hc)

/-- What a client of the list holds is taken over, to be closed. -/
theorem Cleaning.takeOver (h : Cleaning mode s P lives (a :: rest) w)
    (hc : w.own.mem.cell a = some c) :
    Cleaning mode s (held c.pidfd ++ (held c.file ++ (held c.dirfd ++ (c.socket :: P)))) lives rest
      w := by
  refine h.perm ?_
  have hplaces := Client.places_perm (h.settled a c hc).apart
  rw [List.flatMap_cons, show w.own.clientPlaces a = c.places by rw [Worker.clientPlaces, hc]; rfl,
    List.perm_iff_count]
  intro b
  have := hplaces.count_eq b
  simp only [List.count_append, List.count_cons, List.count_nil] at this ⊢
  omega

/-- `server_cleanup` for one client. -/
theorem cleanupClient_triple (hP : P ⊆ s.places)
    (hroom : (a :: rest).length ≤ s.params.maxClients.toNat) :
    Triple (runContract mode) (Cleaning mode s P (a :: rest) (a :: rest)) (cleanupClient a)
      (fun _ => Cleaning mode s P rest rest) := by
  refine Triple.bind (R := fun c w => w.own.mem.cell a = some c ∧
    Cleaning mode s P (a :: rest) (a :: rest) w) (Triple.step fun w h => ?_) fun c => ?_
  · obtain ⟨c, hc⟩ := Heap.cell_of_mem_live (h.live.mem_iff.mpr (List.mem_cons_self (a := a)))
    exact ⟨w, c, by rw [hc]; rfl, hc, h⟩
  refine Triple.bind (R := fun _ =>
    Cleaning mode s (held c.file ++ (held c.dirfd ++ (c.socket :: P))) (a :: rest) rest)
    (Triple.when (fun h0 => ?_) fun h0 w h => ?_) fun _ => ?_
  · have hhead : held c.pidfd = [c.pidfd] := if_pos h0
    refine Triple.bind (R := fun _ w => w.own.mem.cell a = some c ∧
      Cleaning mode s P (a :: rest) (a :: rest) w) (Triple.step fun w h => ?_) fun _ => ?_
    · have htaken := h.2.takeOver h.1
      rw [hhead] at htaken
      obtain ⟨o, ho⟩ := Heap.object_of_mem_openFds htaken.owned.head_open
      exact ⟨w, o, by rw [ho]; rfl, h⟩
    refine Triple.bind
      (Triple.ask (fun w h => Or.inr ⟨s, P, _, hP, hroom, h.2⟩) fun w _ h _ => h.2.takeOver h.1)
      fun _ => ?_
    rw [hhead]
    exact Cleaning.closeFd_triple
  · have hnone : held c.pidfd = [] := if_neg h0
    have htaken := h.2.takeOver h.1
    rwa [hnone] at htaken
  refine Triple.bind Cleaning.closeIf_triple fun _ => ?_
  refine Triple.bind Cleaning.closeIf_triple fun _ => ?_
  exact Triple.bind Cleaning.closeFd_triple fun _ => Cleaning.free_triple

/-- The walk over the clients. -/
theorem cleanupClients_triple (hP : P ⊆ s.places) : ∀ rest : List Nat,
    rest.length ≤ s.params.maxClients.toNat →
      Triple (runContract mode) (Cleaning mode s P rest rest) (cleanupClients rest)
      (fun _ => Cleaning mode s P [] [])
  | [], _ => Triple.pure fun _ h => h
  | _ :: rest, hroom => Triple.bind (cleanupClient_triple hP hroom) fun _ =>
    cleanupClients_triple hP rest (Nat.le_of_succ_le hroom)

/-- Nothing is left of a worker: no record, no client, no descriptor. -/
structure Ended (mode : Mode) (w : World) : Prop where
  records : w.loop.heap.live = []
  clients : w.own.mem.live = []
  descriptors : mode.strict → w.own.fds.live = []
  budget : mode.strict →
    3 + w.own.fds.peak ≤ FDS_SERVER + FDS_CLIENT * w.own.server.params.maxClients.toNat
  logs : ∀ n, LogOk mode.strict (w.own.log n)

theorem Cleaning.ended (h : Cleaning mode s [] [] [] w) : Ended mode w where
  records := h.records
  clients := h.live.eq_nil
  descriptors := fun hs => by
    rw [List.eq_nil_iff_forall_not_mem]
    intro b hb
    have hm : Heap.fdOf b ∈ w.own.fds.openFds := List.mem_map_of_mem hb
    exact absurd (h.owned.all hs _ hm) (by simp)
  budget := h.server ▸ h.budget
  logs := h.logs

/-- **`server_cleanup`** leaves nothing behind. -/
theorem serverCleanup_triple :
    Triple (runContract mode) (fun w => Resting mode w ∧ w.loop.pending = []) serverCleanup
      (fun _ => Ended mode) := by
  refine Triple.bind (R := fun s w => s = w.own.server ∧ Resting mode w ∧ w.loop.pending = [])
    (Triple.bind Triple.get fun _ => Triple.pure fun _ h => ⟨by rw [h.2], h.1⟩) fun s => ?_
  refine Triple.bind (R := fun _ w => s.clients.length ≤ s.params.maxClients.toNat ∧
    Cleaning mode s [s.epollfd, s.socket, s.timerfd, s.sigfd, s.directory] s.clients s.clients w)
    (onLoop_triple fun w ⟨hs, ⟨x, hx, h⟩, hp⟩ => ?_) fun _ => Triple.assume fun hroom => ?_
  · subst hx
    obtain ⟨l, hrun, hrecords, hinterest⟩ := h.parts.wf.destroy_spec hp
    have hlive : w.own.mem.live.Perm s.clients := hs ▸ h.clients_perm
    have hroom : s.clients.length ≤ s.params.maxClients.toNat := by
      have := h.parts.room
      rwa [h.holding, ← hs] at this
    refine ⟨l, (), by rw [hrun]; rfl, hroom,
      ⟨hs.symm, ?_, hlive, ?_, h.parts.logs, ?_, hrecords, hs ▸ h.parts.budget⟩⟩
    · have howned := h.parts.owned
      rw [h.holding, ← hs] at howned
      refine howned.perm ?_
      have hothers : (w.own.others none).Perm (s.clients.flatMap w.own.clientPlaces) := by
        have hall : w.own.others none = w.own.mem.live.flatMap w.own.clientPlaces := by
          simp [Worker.others]
        exact hall ▸ hlive.flatMap_right _
      simp only [Holding.places, List.append_nil]
      refine List.Perm.append ?_ hothers
      rw [List.perm_iff_count]
      intro b
      simp only [ServerState.places, List.count_cons, List.count_nil]
      omega
    · exact fun a c hc => (h.parts.kinds a c (by simp) hc).2
    · exact fun fd => congrFun hinterest fd
  refine Triple.bind Cleaning.closeFd_triple fun _ => ?_
  refine Triple.bind
    (cleanupClients_triple (by simp [ServerState.places]) s.clients hroom) fun _ => ?_
  refine Triple.bind Cleaning.closeOwn_triple fun _ => ?_
  refine Triple.bind Cleaning.closeOwn_triple fun _ => ?_
  refine Triple.bind Cleaning.closeOwn_triple fun _ => ?_
  exact Cleaning.closeOwn_triple.post fun _ _ h => h.ended

/-! ## From the start -/

/-- The descriptors a worker opens before it enters its loop. -/
theorem started_owned (mode : Mode) (params : Params) (d g t s e : Int) :
    let k := Worker.started params d g t s e
    k.fds.Owned mode.strict (k.server.places ++ k.holding.places ++ [] ++ k.others none) ∧
      ∀ fd ∈ k.server.places, k.fds.object fd = some .server := by
  intro k
  have h0 : (Heap.empty : Heap Object).Owned mode.strict [] :=
    ⟨List.nodup_nil, by simp, by simp [Heap.openFds, Heap.empty]⟩
  have h1 := h0.opened d .server
  have h2 := h1.opened g .server
  have h3 := h2.opened t .server
  have h4 := h3.opened s .server
  have h5 := h4.opened e .server
  have hobjects := h4.opened_objects (h3.opened_objects (h2.opened_objects (h1.opened_objects
    (h0.opened_objects (o := .server) (by simp) d) g) t) s) e
  refine ⟨h5.perm (List.reverse_perm _).symm, fun fd hfd => hobjects fd ?_⟩
  exact (List.reverse_perm _).mem_iff.mp hfd

/-- The worker is at rest before its first call. -/
theorem started_atRest (mode : Mode) {size : Int} (hsize : mode.woken → 0 < size)
    (params : Params) (d g t s e : Int) :
    let w := started size params d g t s e
    AtRest ⟨mode, w.own.server, w.own.log, [], w.loop.epollEvents⟩ w where
  parts := {
    wf := .new size
    pending := rfl
    epollEvents := rfl
    reported_nodup := List.nodup_nil
    reported := by simp [started, Loop.created]
    owned := (started_owned mode params d g t s e).1
    count := rfl
    room := Nat.zero_le _
    live := List.Perm.nil
    regs := by simp [started, Loop.created, Loop.reg]
    kinds := by simp [started, Worker.started, Heap.empty]
    standing := by simp [started, Worker.started, Heap.empty]
    logs := fun _ => .nil
    unused := fun _ _ => rfl
    size := hsize
    told := by simp [started, Loop.created]
    budget := fun _ => Nat.le_add_right_of_le (by
      simp [started, Worker.started, Heap.openFd_peak, FDS_SERVER])
    grown := fun _ => List.prefix_refl _ }
  holding := rfl

/-- A worker that registers its own descriptors. -/
structure Registering (x : Context) (s : ServerState) (w : World) : Prop where
  rest : AtRest x w
  server : w.own.server = s
  objects : ∀ fd ∈ s.places, w.own.fds.object fd = some .server

theorem addServer_triple {s : ServerState} {events : UInt32} {h : Handler} (hfd : fd ∈ s.places)
    (hh : h = .serverSocket ∨ h = .serverSignal ∨ h = .serverTimer) :
    Triple (contract x.mode) (Registering x s) (sepollAdd fd events (some h) .server .null)
      (fun _ => Registering x s) := by
  refine Triple.bind (R := fun _ => Registering x s)
    (Triple.ask (fun w hw => hw.rest.waits) fun _ _ hw _ => hw) fun y => ?_
  refine onLoop_triple fun w hw => ?_
  obtain ⟨l, ret, hrun, hwf, hkept, hcases⟩ := hw.rest.parts.wf.add_spec fd events (some h)
    .server .null y.loop
  refine ⟨l, ret, hrun, ⟨?_, hw.rest.holding⟩, hw.server, hw.objects⟩
  rcases hcases with ⟨_, hreg⟩ | ⟨p, _, _, hfree, hreg⟩
  · exact hw.rest.parts.reloop_same hwf hkept hreg
  · refine hw.rest.parts.reloop hwf hkept hreg (fun b d hb hd => ?_) (fun r hr => ?_)
      fun r hr e he hp => ?_
    · have hm := Worker.mem_others.mpr ⟨b, d, hb, hd, d.socket_mem⟩
      exact hw.rest.parts.other_ne (by simp [hw.server, hfd]) hm
    · cases hr
      exact .server h rfl hh (hw.objects fd hfd)
    · cases hr
      exact absurd hp.symm (hfree e he)

theorem register_triple {s : ServerState} :
    Triple (contract x.mode) (Registering x s) register (fun _ => Registering x s) := by
  refine Triple.bind_eq (v := s) (R := Registering x s)
    (Triple.bind Triple.get fun _ => Triple.pure fun _ h => ⟨by rw [h.2]; exact h.1.server, h.1⟩) ?_
  refine Triple.bind (addServer_triple (by simp [ServerState.places]) (by simp)) fun _ => ?_
  refine Triple.bind (addServer_triple (by simp [ServerState.places]) (by simp)) fun _ => ?_
  refine Triple.bind (addServer_triple (by simp [ServerState.places]) (by simp)) fun _ => ?_
  exact Triple.pure fun _ h => h

/-- A worker that has created its loop; one for no events could not wait. -/
def Starts (mode : Mode) (w : World) : Prop :=
  ∃ size params d g t s e, (mode.woken → 0 < size) ∧ w = started size params d g t s e

theorem Starts.started {size : Int} (h : mode.woken → 0 < size) (params : Params)
    (d g t s e : Int) : Starts mode (started size params d g t s e) :=
  ⟨size, params, d, g, t, s, e, h, rfl⟩

/-- A worker that has registered its descriptors is at rest. -/
theorem register_rest (mode : Mode) :
    Triple (contract mode) (Starts mode) register
      (fun _ w => Resting mode w ∧ w.loop.pending = []) := by
  rintro w ans ⟨size, params, d, g, t, s, e, hsize, rfl⟩ hA
  have hrest := started_atRest mode hsize params d g t s e
  exact (register_triple.post fun _ w h => ⟨⟨_, rfl, h.rest⟩, h.rest.parts.pending⟩) _ ans
    ⟨hrest, rfl, (started_owned mode params d g t s e).2⟩ hA

/-- The event loop of `server_process`, with the registrations before it. -/
def serverLoop : Program Int := do
  register
  sepollEnter handle (-1) none

/-- **The loop of a worker** rests whenever no handler runs. -/
theorem serverLoop_triple (mode : Mode) :
    Triple (contract mode) (Starts mode) serverLoop
      (fun _ w => Resting mode w ∧ w.loop.pending = [] ∧ w.loop.run = false) :=
  Triple.bind (register_rest mode) fun _ => (worker_enterInv mode).sepollEnter_triple

/-! ## The states between two calls of handlers -/

/-- The moves of a worker's event loop. -/
abbrev Moves (mode : Mode) : World → World → Prop :=
  Relation.ReflTransGen (Move (contract mode) handle (-1))

/-- A worker that has registered its own descriptors. -/
def Registered (mode : Mode) (w : World) : Prop :=
  ∃ w₀ ans rest, Starts mode w₀ ∧ (∀ y ∈ ans, (contract mode).answers y) ∧
    register w₀ ans = .done () w rest

/-- A state of a worker that has registered its own descriptors, while none
of its handlers runs. -/
abbrev Reachable (mode : Mode) : World → Prop :=
  Reaches (contract mode) handle (-1) (Registered mode)

theorem Resting.move {w' : World} (h : Resting mode w)
    (hm : Move (contract mode) handle (-1) w w') : Resting mode w' :=
  (worker_enterInv mode).move h hm

theorem Reachable.resting (h : Reachable mode w) : Resting mode w := by
  obtain ⟨w₁, ⟨w₀, ans, rest, hstart, hA, hr⟩, hm⟩ := h
  induction hm with
  | refl => exact ((register_rest mode).done hstart hA hr).1.1
  | tail _ hstep ih => exact ih.move hstep

theorem Reachable.moves {w' : World} (h : Reachable mode w) (hm : Moves mode w w') :
    Reachable mode w' := by
  obtain ⟨w₁, hreg, hm₁⟩ := h
  exact ⟨w₁, hreg, hm₁.trans hm⟩

/-- Where the worker's event loop is entered. -/
theorem register_reachable (mode : Mode) :
    Triple (contract mode) (Starts mode) register
      (fun _ w => (Resting mode w ∧ Reachable mode w) ∧ w.loop.pending = []) := by
  intro w ans hstart hA
  have hrest := register_rest mode w ans hstart hA
  cases hreg : register w ans with
  | stopped w₁ => rw [hreg] at hrest; exact hrest
  | fault => rw [hreg] at hrest; exact hrest
  | done u w₁ rest =>
    rw [hreg] at hrest
    exact ⟨⟨⟨hrest.1.1, w₁, ⟨w, ans, rest, hstart, hA, hreg⟩, .refl⟩, hrest.1.2⟩, hrest.2⟩

/-- **The loop of a worker** gets nowhere but to such states. -/
theorem serverLoop_reachable (mode : Mode) :
    Triple (contract mode) (Starts mode) serverLoop (fun _ => Reachable mode) :=
  Triple.bind (register_reachable mode) fun _ =>
    (((worker_enterInv mode).reach _).sepollEnter_triple).post fun _ _ h => h.1.2

/-- The worker up to its batch after `n` others. -/
def batches : ℕ → Program Int
  | 0 => epollWait (-1)
  | n + 1 => do
    let k ← epollWait (-1)
    dispatch handle k.toNat 0
    batches n

theorem batches_reachable (mode : Mode) (n : ℕ) :
    Triple (contract mode)
      (fun w => (Resting mode w ∧ Reachable mode w) ∧ w.loop.pending = []) (batches n)
      (fun _ => Reachable mode) := by
  have hinv := (worker_enterInv mode).reach (Registered mode)
  induction n with
  | zero => exact hinv.epollWait_triple.post fun _ w h => h.1.2
  | succ n ih =>
    refine Triple.bind hinv.epollWait_triple fun k => ?_
    refine Triple.bind (hinv.dispatchAll_triple k) fun _ => ?_
    exact ih.pre fun w h => ⟨h.1, h.2.1⟩

/-- **The run of a worker**, from its registrations until it has cleaned
up. -/
theorem serverProcess_triple (mode : Mode) :
    Triple (runContract mode) (Starts mode) serverProcess (fun _ => Ended mode) := by
  refine Triple.bind ((register_rest mode).weaken rfl (fun _ => Or.inl) id) fun _ => ?_
  refine Triple.bind ((worker_enterInv mode).sepollEnter_triple.weaken rfl (fun _ => Or.inl) id)
    fun _ => ?_
  exact serverCleanup_triple.pre fun _ h => ⟨h.1, h.2.1⟩

end Sgopher.Server
