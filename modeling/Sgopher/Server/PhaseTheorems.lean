/-
Sgopher.Server.PhaseTheorems — every client is reading its request, being
sent a file, or attended by a program.

The source has no field for the phase. It is spread over five fields of
the client and the mask its socket is registered with; `InPhase` puts them
together again. The results are about the states of a worker between two
calls of its handlers (`Reachable`), and about what can become of them
(`Moves`), in runs in which the kernel changes every mask it is asked to.
That a client never goes back is read off the logs, which only grow.

No `sorry`, no `axiom`, no `native_decide`.
-/
import Sgopher.Server.OwnershipTheorems

namespace Sgopher.Server

open Sgopher.Lib Sgopher.Sepoll

variable {x : Context} {mode : Mode} {a a' : Nat} {c c' : Client} {L L' : List Action}
  {w w' : World} {ans : List Answer}

/-! ## Phases -/

inductive Phase where
  | reading
  | sending
  | cgi
  deriving DecidableEq

/-- The mask a client's socket is registered with. -/
def mask (w : World) (c : Client) : Option UInt32 :=
  (w.loop.interest c.socket).map EpollEvent.events

/-- The number of a client's connection; no other connection ever has it. -/
def serial (w : World) (c : Client) : Nat := w.own.fds.serialOf c.socket

/-- Nothing was read from the client. Its socket is registered for EPOLLIN,
or not at all if `sepoll_add` failed. -/
structure Reading (w : World) (c : Client) : Prop where
  file : c.file = -1
  dirfd : c.dirfd = -1
  pidfd : c.pidfd = -1
  sentsize : c.sentsize = 0
  count : c.buffer.length = 0
  mask : mask w c = some (EPOLLIN ||| EPOLLET) ∨
    mask w c = none ∧ Action.unwatched ∈ w.own.log (serial w c)

/-- A file is open, whose size `filesize` is; up to `sentsize` it was
sent. -/
structure Transmitting (w : World) (c : Client) : Prop where
  file : 0 ≤ c.file
  filesize : ∃ f, w.own.fds.object c.file = some (.file f) ∧ c.filesize = some (f.size : Int) ∧
    0 ≤ c.sentsize ∧ c.sentsize ≤ f.size
  dirfd : c.dirfd = -1
  pidfd : c.pidfd = -1
  mask : mask w c = some (EPOLLOUT ||| EPOLLET)

/-- A program has the socket. -/
structure Attended (w : World) (c : Client) : Prop where
  pidfd : 0 ≤ c.pidfd
  file : c.file = -1
  dirfd : c.dirfd = -1
  mask : mask w c = some EPOLLET

/-- What the phases mean. -/
inductive InPhase (w : World) (c : Client) : Phase → Prop
  | reading (h : Reading w c) : InPhase w c .reading
  | sending (h : Transmitting w c) : InPhase w c .sending
  | cgi (h : Attended w c) : InPhase w c .cgi

/-- The phase a mask belongs to. -/
def Phase.ofMask (m : Option UInt32) : Phase :=
  if m = some (EPOLLOUT ||| EPOLLET) then .sending
  else if m = some EPOLLET then .cgi
  else .reading

theorem InPhase.ofMask {p : Phase} (h : InPhase w c p) : p = .ofMask (mask w c) := by
  cases h with
  | reading h =>
    rcases h.mask with hm | ⟨hm, _⟩
    · rw [hm]
      decide
    · rw [hm]
      decide
  | sending h =>
    rw [h.mask]
    decide
  | cgi h =>
    rw [h.mask]
    decide

/-- The phases exclude each other. -/
theorem InPhase.unique {p q : Phase} (hp : InPhase w c p) (hq : InPhase w c q) : p = q :=
  hp.ofMask.trans hq.ofMask.symm

/-- What was done for a connection, by its client's phase. -/
def Past : Phase → List Action → Prop
  | .reading, L => ∀ act ∈ L, act = .unwatched
  | .sending, L => (∃ f, Action.transmit f ∈ L) ∧ ∀ child, Action.cgi child ∉ L
  | .cgi, L => (∃ child, Action.cgi child ∈ L) ∧ ∀ f, Action.transmit f ∉ L

/-- As more is done, a client that was being sent a file still is, and one
that is attended by a program still is. -/
theorem Past.forward {p q : Phase} (hp : Past p L) (hq : Past q L') (h : L ⊆ L') :
    q = p ∨ p = .reading := by
  cases p with
  | reading => exact Or.inr rfl
  | sending =>
    obtain ⟨⟨f, hf⟩, _⟩ := hp
    cases q with
    | reading => exact absurd (hq _ (h hf)) (by simp)
    | sending => exact Or.inl rfl
    | cgi => exact absurd (h hf) (hq.2 f)
  | cgi =>
    obtain ⟨⟨child, hchild⟩, _⟩ := hp
    cases q with
    | reading => exact absurd (hq _ (h hchild)) (by simp)
    | sending => exact absurd (h hchild) (hq.2 child)
    | cgi => exact Or.inl rfl

/-- A client is in the phase its standing says. -/
theorem Standing.phase (h : Standing True w.own.fds c (mask w c) (w.own.log (serial w c)))
    (hs : Settled c) : ∃ p, InPhase w c p ∧ Past p (w.own.log (serial w c)) := by
  cases h with
  | reading hm h0 _ hf =>
    have hf := hf trivial
    refine ⟨.reading, .reading ⟨hf.file, hs.dirfd, hf.pidfd, h0, ?_, hm.symm⟩, hf.log⟩
    simp [hf.buffer]
  | sending f hm ho hf hp =>
    obtain ⟨hpid, hcgi⟩ := hp trivial
    exact ⟨.sending, .sending ⟨Heap.nonneg_of_object ho,
      ⟨f, ho, hf.filesize, hf.nonneg, hf.le_size⟩,
      hs.dirfd, hpid, hm⟩, ⟨f, hf.transmit⟩, hcgi⟩
  | cgi hm _ _ hp =>
    obtain ⟨hpid, hfile, hcgi, hsend⟩ := hp trivial
    exact ⟨.cgi, .cgi ⟨hpid, hfile, hs.dirfd, hm⟩, hcgi, hsend⟩

theorem AtRest.phase (h : AtRest x w) (hx : x.strict) (hc : w.own.mem.cell a = some c) :
    ∃ p, InPhase w c p ∧ Past p (w.own.log (serial w c)) := by
  have hstand := h.parts.standing a c (by simp) hc
  have hmask : (w.loop.reg c.socket).map Reg.events = mask w c := by
    cases hr : w.loop.reg c.socket with
    | none => simp [mask, (h.parts.wf.reg_none_iff c.socket).mp hr]
    | some r => simp [mask, (Loop.reg_some_iff.mp hr).1]
  rw [hmask, eq_true hx] at hstand
  exact hstand.phase (h.parts.kinds a c (by simp) hc).2

/-! ## What becomes of a connection -/

/-- Logs only grow. -/
theorem Resting.log_prefix (h : Resting mode w) (hm : Move (contract mode) handle (-1) w w')
    (n : Nat) : w.own.log n <+: w'.own.log n := by
  obtain ⟨x, rfl, h⟩ := h
  cases hm with
  | callback _ e rest cb f ans rest' hp hc hf hA hr =>
    have hrest : AtRest { x with server := x.server, before := w.own.log } w :=
      ⟨h.parts.recontext x.server fun _ => List.prefix_refl _, h.holding⟩
    have hdone := (callback_triple hf).done ⟨w, hrest, hp, hc, rfl⟩ hA hr
    exact hdone.1.parts.grown n
  | start => exact List.prefix_refl _
  | stop y n hp hy hn hr => exact List.prefix_refl _
  | batch evs batch hp hne hb => exact List.prefix_refl _
  | skip e rest cb hp hc hf => exact List.prefix_refl _
  | collect l hp hc => exact List.prefix_refl _

theorem Reachable.log_prefix (h : Reachable mode w) (hm : Moves mode w w') (n : Nat) :
    w.own.log n <+: w'.own.log n := by
  induction hm with
  | refl => exact List.prefix_refl _
  | tail hm hstep ih => exact ih.trans ((h.moves hm).resting.log_prefix hstep n)

/-! ## The branches of `client_socket` -/

/-- The event a socket is called for was reported for its client's mask. -/
theorem Reachable.reported (h : Reachable .masks w) {e : EpollEvent} {cb : Callback Handler Arg}
    (he : e ∈ w.loop.pending) (hc : w.loop.heap.cell e.ptr = some cb)
    (hf : cb.function = some .clientSocket) :
    ∃ a c m, cb.userdata2 = .client a ∧ w.own.mem.cell a = some c ∧ mask w c = some m ∧
      Reported e m := by
  obtain ⟨x, _, h⟩ := h.resting
  obtain ⟨r, hr, hptr, hrf, _, hru⟩ := h.parts.wf.reg_of_pending he hc hf
  have hrep := h.parts.reported e he cb.fd r hr hptr
  cases h.parts.regs cb.fd r hr with
  | socket a c _ hu hcell hs _ =>
    refine ⟨a, c, r.events, hru.symm.trans hu, hcell, ?_, hrep⟩
    rw [mask, hs, (Loop.reg_some_iff.mp hr).1]
    rfl
  | pidfd a hf' _ _ _ => exact absurd (hrf.symm.trans hf') (by simp)
  | server f hf' hh _ =>
    have hne := hrf.symm.trans hf'
    rcases hh with rfl | rfl | rfl <;> exact absurd hne (by simp)

/-- An event with EPOLLIN is for a client that waits for its request, and
one with EPOLLOUT for one that is being sent a file. -/
theorem InPhase.of_reported {p : Phase} {m : UInt32} {e : EpollEvent} (h : InPhase w c p)
    (hm : mask w c = some m) (he : Reported e m) :
    (hasEvent e.events EPOLLIN = true → p = .reading) ∧
      (hasEvent e.events EPOLLOUT = true → p = .sending) := by
  cases h with
  | reading h =>
    refine ⟨fun _ => rfl, fun hout => ?_⟩
    rcases h.mask with hm' | ⟨hm', _⟩
    · obtain rfl := Option.some.inj (hm.symm.trans hm')
      have hnone : hasEvent e.events EPOLLOUT = false := he.hasEvent (by decide)
      exact absurd hout (by simp [hnone])
    · exact absurd (hm.symm.trans hm') (by simp)
  | sending h =>
    obtain rfl := Option.some.inj (hm.symm.trans h.mask)
    have hin : hasEvent e.events EPOLLIN = false := he.hasEvent (by decide)
    exact ⟨fun h => absurd h (by simp [hin]), fun _ => rfl⟩
  | cgi h =>
    obtain rfl := Option.some.inj (hm.symm.trans h.mask)
    have hin : hasEvent e.events EPOLLIN = false := he.hasEvent (by decide)
    have hout : hasEvent e.events EPOLLOUT = false := he.hasEvent (by decide)
    exact ⟨fun h => absurd h (by simp [hin]), fun h => absurd h (by simp [hout])⟩

/-- Every client is in one phase, and never goes back to an earlier one;
each connection is read from in one call at most; an event for a client
enters the branch of its phase; and no call of a handler comes to an
undefined end, as it would if it read `filesize` before it is set. -/
structure Phased (w : World) : Prop where
  phase : ∀ a ∈ w.own.server.clients, ∃ c, w.own.mem.cell a = some c ∧ ∃! p, InPhase w c p
  forward : ∀ w', Moves .masks w w' → ∀ a c p a' c' p', w.own.mem.cell a = some c →
    w'.own.mem.cell a' = some c' → serial w c = serial w' c' → InPhase w c p →
    InPhase w' c' p' → p' = p ∨ p = .reading
  once : ∀ n, (w.own.log n).count .readable ≤ 1
  branch : ∀ e ∈ w.loop.pending, ∀ cb, w.loop.heap.cell e.ptr = some cb →
    cb.function = some .clientSocket → ∃ a c, cb.userdata2 = .client a ∧
      w.own.mem.cell a = some c ∧ (hasEvent e.events EPOLLIN = true → InPhase w c .reading) ∧
      (hasEvent e.events EPOLLOUT = true → InPhase w c .sending)
  defined : ∀ e rest cb f ans, w.loop.pending = e :: rest → w.loop.heap.cell e.ptr = some cb →
    cb.function = some f → MasksChange ans →
    handle f e.events cb.userdata1 cb.userdata2 (w.withLoop w.loop.popped) ans ≠ .fault

theorem Reachable.phase (h : Reachable .masks w) (hc : w.own.mem.cell a = some c) :
    ∃ p, InPhase w c p ∧ Past p (w.own.log (serial w c)) := by
  obtain ⟨x, hx, h⟩ := h.resting
  exact h.phase (Context.strict_of_masks hx) hc

/-- What was done for a client that is in a phase. -/
theorem Reachable.past (h : Reachable .masks w) (hc : w.own.mem.cell a = some c) {p : Phase}
    (hp : InPhase w c p) : Past p (w.own.log (serial w c)) := by
  obtain ⟨q, hq, hpast⟩ := h.phase hc
  exact hq.unique hp ▸ hpast

/-- **Clients go through their phases in order.** -/
theorem client_phases (w : World) (h : Reachable .masks w) : Phased w where
  phase a ha := by
    obtain ⟨x, _, hrest⟩ := h.resting
    obtain ⟨c, hc⟩ := hrest.cell_of_mem ha
    obtain ⟨p, hp, _⟩ := h.phase hc
    exact ⟨c, hc, p, hp, fun q hq => hq.unique hp⟩
  forward w' hm a c p a' c' p' hc hc' hs hp hp' := by
    have hgrown := h.log_prefix hm (serial w c)
    have hpast' := (h.moves hm).past hc' hp'
    rw [← hs] at hpast'
    exact (h.past hc hp).forward hpast' hgrown.subset
  once n := by
    obtain ⟨x, hx, hrest⟩ := h.resting
    exact (hrest.parts.logs n).once (Context.strict_of_masks hx)
  branch e he cb hcb hf := by
    obtain ⟨a, c, m, hu, hc, hm, hrep⟩ := h.reported he hcb hf
    obtain ⟨p, hp, _⟩ := h.phase hc
    obtain ⟨hin, hout⟩ := hp.of_reported hm hrep
    exact ⟨a, c, hu, hc, fun he => hin he ▸ hp, fun he => hout he ▸ hp⟩
  defined e rest cb f ans hp hc hf hmod := by
    obtain ⟨x, hx, hrest⟩ := h.resting
    have hrun : Triple (contract x.mode) _ (handle f e.events cb.userdata1 cb.userdata2)
        (fun _ => AtRest { x with pending := rest }) := callback_triple hf
    rw [hx] at hrun
    exact hrun.not_fault ⟨w, hrest, hp, hc, rfl⟩ hmod.answers fun hn => hn trivial

/-- A file is being sent to the client when the worker is told to stop. -/
def stoppedSending : List Answer :=
  asked ++ [{ openat := .ok (9, smallFile) }, again, again, again,
    { loop := { wait := .ready [(8, EPOLLOUT)] } }, { sendfile := .ok 1 }, again, again,
    { loop := { wait := .ready [(4, EPOLLIN)] } }, { signal := .ok SIGTERM }, again]

theorem client_phases_sending :
    ∃ r w rest, serverLoop smallWorker stoppedSending = .done r w rest ∧
      w.own.server.clients.length = 1 ∧ Phased w := by
  have h : (serverLoop smallWorker stoppedSending).Returns fun _ w =>
      w.own.server.clients.length = 1 := by decide +kernel
  obtain ⟨r, w, rest, hr, hlen⟩ := h.state
  have hmod : MasksChange stoppedSending := by unfold MasksChange; decide
  have hreach := ((serverLoop_reachable .masks).done (.started False.elim ..) hmod.answers hr).1
  exact ⟨r, w, rest, hr, hlen, client_phases w hreach⟩

end Sgopher.Server
