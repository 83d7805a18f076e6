/-
Sgopher.Server.ReadableTheorems — the EPOLLIN branch of `client_socket`
keeps the invariant.

The branch takes a client that waits for its request (`Asking`) and ends
with one that is being sent a file or is attended by a program, or with no
client. On the way the client holds up to four descriptors, and every
error leaves through `refuse` or `hangUp`, whose rules ask only that the
file and the directory are different descriptors and that nothing was
written yet.

No `sorry`, no `axiom`, no `native_decide`.
-/
import Sgopher.Server.ClientTheorems

namespace Sgopher.Server

open Sgopher.Lib Sgopher.Sepoll

variable {x : Context} {a : Nat} {c c' : Client} {P P' : List Int} {o : Option File}
  {r : Registration} {m : Option Registration} {L : List Action} {act : Action} {fd : Int}
  {w : World} {Φ : World → Prop}

/-! ## The loop's calls -/

/-- The same registrations in another loop. -/
theorem Parts.reloop_same {ex : Option Nat} {l l' : EventLoop} {k : Worker}
    (h : Parts x ex P l k) (hwf : l'.Wf) (hkept : l.Kept l') (hreg : l'.reg = l.reg) :
    Parts x ex P l' k :=
  { h with
    wf := hwf
    pending := hkept.pending.trans h.pending
    epollEvents := hkept.epollEvents.trans h.epollEvents
    reported_nodup := hkept.pending ▸ h.reported_nodup
    reported := by
      rw [hkept.pending, hreg]
      exact h.reported
    regs := hreg ▸ h.regs
    standing := hreg ▸ h.standing
    size := hkept.epollEventsSize ▸ h.size
    told := hkept.run ▸ h.told }

/-- The client's socket belongs to no other client. -/
theorem Held.socket_ne (h : Held x a c o m L w) (hfd : fd ∈ c.places) {b : Nat} {d : Client}
    (hb : some b ≠ some a) (hd : w.own.mem.cell b = some d) : d.socket ≠ fd :=
  h.busy.parts.other_ne (by simp [hfd]) (Worker.mem_others.mpr ⟨b, d, hb, hd, d.socket_mem⟩)

theorem RegOk.remask {strict : Prop} {k : Worker} (h : RegOk strict k fd r) (events : UInt32) :
    RegOk strict k fd { r with events := events } := by
  cases h with
  | socket b c hf hu hc hs ho => exact .socket b c hf hu hc hs ho
  | pidfd b hf hu hc ho => exact .pidfd b hf hu hc ho
  | server f hf hh ho => exact .server f hf hh ho

/-- The mask of the client's socket changes, unless the kernel refuses. No
event may be waiting for the socket. -/
theorem modEvents_held (hr : ∀ e ∈ x.pending, r.ptr ≠ e.ptr) (events : UInt32) :
    Triple (contract x.mode) (Held x a c o (some r) L) (sepollModEvents c.socket events)
      (fun _ w => ∃ mask, (mask = events ∨ ¬ x.strict ∧ mask = r.events) ∧
        Held x a c o (some { r with events := mask }) L w) := by
  refine Triple.bind (R := fun y w => (contract x.mode).answers y ∧
    Held x a c o (some r) L w) (Triple.ask (fun _ h => h.waits) fun _ _ h hy => ⟨hy, h⟩) fun y => ?_
  refine onLoop_triple fun w ⟨hy, h⟩ => ?_
  obtain ⟨l, ret, hrun, hwf, hkept, hcases⟩ := h.busy.parts.wf.modEvents_spec c.socket events y.loop
  refine ⟨l, ret, hrun, ?_⟩
  rcases hcases with ⟨hreg, hnone⟩ | ⟨r', hr', hreg⟩
  · have hctl : y.loop.ctlMod ≠ none := by
      rcases hnone with hnone | hctl
      · rw [h.busy.reg] at hnone
        cases hnone
      · exact hctl
    refine ⟨r.events, Or.inr ⟨fun hs => hctl (hy.1 hs), rfl⟩, ?_⟩
    refine ⟨⟨h.busy.parts.reloop_same hwf hkept hreg, h.busy.holding, h.busy.server, h.busy.cell,
        ?_, h.busy.log⟩,
      h.kinds, h.opened⟩
    show l.reg c.socket = some r
    rw [hreg]
    exact h.busy.reg
  · have he : r = r' := Option.some.inj (h.busy.reg.symm.trans hr')
    subst he
    refine ⟨events, Or.inl rfl, ?_⟩
    refine ⟨⟨h.busy.parts.reloop hwf hkept hreg (fun b d => h.socket_ne c.socket_mem) ?_ ?_,
      h.busy.holding, h.busy.server, h.busy.cell, ?_, h.busy.log⟩, h.kinds, h.opened⟩
    · intro r' hr'
      cases hr'
      exact (h.busy.parts.regs _ _ h.busy.reg).remask events
    · intro r' hr' e he hp
      cases hr'
      rw [h.busy.parts.pending] at he
      exact absurd hp (hr e he)
    · show l.reg c.socket = _
      rw [hreg, Function.update_self]

/-- The client's program is watched. -/
theorem addPidfd_held (hp : 0 ≤ c.pidfd) :
    Triple (contract x.mode) (Held x a c o m L)
      (sepollAdd c.pidfd EPOLLIN (some .clientPidfd) .server (.client a))
      (fun _ => Held x a c o m L) := by
  refine Triple.bind systemCall_held fun y => onLoop_triple fun w h => ?_
  obtain ⟨l, ret, hrun, hwf, hkept, hcases⟩ := h.busy.parts.wf.add_spec c.pidfd EPOLLIN
    (some .clientPidfd) .server (.client a) y.loop
  refine ⟨l, ret, hrun, ?_⟩
  have hmem := Client.pidfd_mem hp
  have hne : c.socket ≠ c.pidfd := by
    have hnd := (List.nodup_append.mp (List.nodup_append.mp h.busy.parts.owned.nodup).1).2.1
    rw [Client.places, List.nodup_cons] at hnd
    exact fun he => hnd.1 (by simp [he, mem_held hp])
  rcases hcases with ⟨_, hreg⟩ | ⟨p, _, _, hfree, hreg⟩
  · refine ⟨⟨h.busy.parts.reloop_same hwf hkept hreg, h.busy.holding, h.busy.server, h.busy.cell,
        ?_, h.busy.log⟩,
      h.kinds, h.opened⟩
    show l.reg c.socket = m
    rw [hreg]
    exact h.busy.reg
  · refine ⟨⟨h.busy.parts.reloop hwf hkept hreg (fun b d => h.socket_ne hmem) ?_ ?_,
      h.busy.holding, h.busy.server, h.busy.cell, ?_, h.busy.log⟩, h.kinds, h.opened⟩
    · intro r' hr'
      cases hr'
      exact .pidfd a rfl rfl (fun _ => ⟨c, h.busy.cell, rfl⟩) (h.kinds.pidfd hp)
    · intro r' hr' e he hp'
      cases hr'
      exact absurd hp'.symm (hfree e he)
    · show l.reg c.socket = m
      rw [hreg, Function.update_of_ne hne]
      exact h.busy.reg

/-- `fstat` of the open file. -/
theorem fstatFile_held {f : File} :
    Triple (contract x.mode) (Held x a c (some f) m L) (fstatFile c.file)
      (fun res w => (∀ f', res = .ok f' → f' = f) ∧ Held x a c (some f) m L w) := by
  refine Triple.bind_eq useFile_held (Triple.bind systemCall_held fun y => ?_)
  cases y.fstat with
  | some e => exact Triple.pure fun _ h => ⟨by simp, h⟩
  | none => exact Triple.pure fun _ h => ⟨by rintro f' ⟨⟩; rfl, h⟩

/-! ## Reading -/

/-- The client, with more in its buffer. -/
def Filled (x : Context) (a : Nat) (c : Client) (o : Option File) (m : Option Registration)
    (L : List Action) (w : World) : Prop :=
  ∃ buffer, buffer.length ≤ maxRequestSize ∧ Held x a { c with buffer := buffer } o m L w

/-- Reading fills the buffer, or loses the client. -/
theorem readRequest_triple (hc : c.Apart) (hq : Silent L) (hb : c.buffer.length ≤ maxRequestSize) :
    Triple (contract x.mode) (Held x a c o m L) (readRequest a)
      (GoesOn x (Filled x a c o m L)) := by
  refine (Triple.iterate (I := fun _ => Filled x a c o m L) (fun _ w h => h.choose_spec.2.waits)
    (fun _ => ?_) ()).pre fun w h => ⟨c.buffer, hb, h⟩
  refine Triple.exists_pre fun buffer => Triple.assume fun hlen => ?_
  refine Triple.bind_eq getClient_held ?_
  refine Triple.bind (useFd_held (Client.socket_mem _)) fun _ => ?_
  refine Triple.bind systemCall_held fun y => ?_
  split
  · exact Triple.pure fun w h => ⟨buffer, hlen, h⟩
  · exact Triple.bind (hangUp_triple hc) fun more => Triple.pure fun w h => h
  · exact Triple.bind (refuse_triple hc hq) fun more => Triple.pure fun w h => h
  · rename_i bytes hread
    refine Triple.ite (fun _ => ?_) fun hgot => ?_
    · exact Triple.bind (hangUp_triple hc) fun more => Triple.pure fun w h => h
    · have hroom : (buffer ++ bytes.take (maxRequestSize - buffer.length)).length
          ≤ maxRequestSize := by
        rw [List.length_append, List.length_take]
        omega
      refine Triple.bind (setClient_held rfl rfl rfl rfl) fun _ => ?_
      refine Triple.ite (fun _ => ?_) fun _ => ?_
      · exact Triple.pure fun w h => ⟨_, hroom, h⟩
      · exact Triple.pure fun w h => ⟨_, hroom, h⟩

/-! ## Launching -/

/-- A client whose request is being worked on, while its socket is
registered as `r`. -/
structure Asking (strict : Prop) (c : Client) (r : Registration) (L : List Action) : Prop where
  events : r.events = EPOLLIN ||| EPOLLET
  unsent : c.sentsize = 0
  silent : Silent L
  buffer : c.buffer.length ≤ maxRequestSize
  pidfd : strict → c.pidfd = -1
  noFile : strict → ∀ f, Action.transmit f ∉ L
  noCgi : strict → ∀ child, Action.cgi child ∉ L

/-- How the client will stand, whatever else its table holds. -/
def Stance (strict : Prop) (c : Client) (o : Option File) (mask : Option UInt32)
    (L : List Action) : Prop :=
  ∀ fds : Heap Object, (∀ f, o = some f → fds.object c.file = some (.file f)) →
    Standing strict fds c mask L

/-- The client has what it is served with; its directory may still be
open. -/
def Launched (x : Context) (a : Nat) (r : Registration) (w : World) : Prop :=
  ∃ c o mask L, (c.Apart ∧ -1 ≤ c.dirfd ∧ c.buffer.length ≤ maxRequestSize ∧
    Stance x.strict c o (some mask) L) ∧ Held x a c o (some { r with events := mask }) L w

/-- The client stands where it may be left. -/
def Stands (x : Context) (a : Nat) (r : Registration) (w : World) : Prop :=
  ∃ c o mask L, (Settled c ∧ Stance x.strict c o (some mask) L) ∧
    Held x a c o (some { r with events := mask }) L w

/-- The branch goes on to something that is not written to the socket. -/
theorem Asking.quiet {strict : Prop} (h : Asking strict c r L) (hq : act.Quiet)
    (hf : ∀ f, act ≠ .transmit f) (hg : ∀ child, act ≠ .cgi child) :
    Asking strict c r (L ++ [act]) :=
  { h with
    silent := h.silent.quiet hq
    noFile := fun hs f hm => (List.mem_append.mp hm).elim (h.noFile hs f)
      fun hm => hf f (List.mem_singleton.mp hm).symm
    noCgi := fun hs child hm => (List.mem_append.mp hm).elim (h.noCgi hs child)
      fun hm => hg child (List.mem_singleton.mp hm).symm }

/-- The file is settled on. -/
theorem transmit_triple {f : File} (hr : ∀ e ∈ x.pending, r.ptr ≠ e.ptr)
    (h : Asking x.strict c r L) (hc : c.Apart) (hd : -1 ≤ c.dirfd) :
    Triple (contract x.mode) (Held x a c (some f) (some r) L) (transmit a f)
      (GoesOn x (Launched x a r)) := by
  have hsilent : Silent (L ++ [.transmit f]) := h.silent.quiet trivial
  have h0 := h.unsent
  refine Triple.bind_eq getClient_held ?_
  refine Triple.bind (note_held fun hl => hl.snoc (.nothing hsilent) (by simp) (by simp))
    fun _ => ?_
  refine Triple.bind (setClient_held rfl rfl rfl rfl)
    fun _ => ?_
  refine Triple.bind (modEvents_held hr (EPOLLOUT ||| EPOLLET)) fun _ => ?_
  refine Triple.pure fun w ⟨mask, hmask, hw⟩ => ?_
  refine ⟨{ c with filesize := some f.size }, some f, mask, _, ⟨hc, hd, h.buffer, ?_⟩, hw⟩
  rcases hmask with rfl | ⟨hs, rfl⟩
  · intro fds hfds
    refine .sending f rfl (hfds f rfl) ⟨rfl, ?_, ?_, ?_, by simp, hsilent.menus, ?_,
      hsilent.finished⟩ fun hs => ⟨h.pidfd hs, by simpa using h.noCgi hs⟩
    · exact Int.le_of_eq h0.symm
    · exact h0 ▸ Int.natCast_nonneg _
    · exact h0 ▸ Nat.zero_le _
    · rw [hsilent.sent]
      show [] = f.content.take c.sentsize.toNat
      rw [h0]
      rfl
  · exact fun _ _ => .reading (Or.inr (by rw [h.events])) h0 hsilent fun hn => absurd hn hs

/-- A program is started, and the socket is left to it. -/
theorem runCgi_triple {f : File} {filename query : Bytes} (hr : ∀ e ∈ x.pending, r.ptr ≠ e.ptr)
    (h : Asking x.strict c r L) (hc : c.Apart) (h0 : 0 ≤ c.file) (hd : -1 ≤ c.dirfd) :
    Triple (contract x.mode) (Held x a c (some f) (some r) L) (runCgi a filename query)
      (GoesOn x (Launched x a r)) := by
  refine Triple.bind_eq getServer_held (Triple.bind_eq getClient_held ?_)
  refine Triple.bind systemCall_held fun y => ?_
  cases y.fork with
  | none => exact refuse_triple hc h.silent
  | some k =>
    refine Triple.bind (openFd_process h.pidfd) fun pidfd => Triple.assume fun hpid => ?_
    refine Triple.bind setClient_triple fun _ => ?_
    have hsilent : Silent
        (L ++ [.cgi (cgiChild x.server.params c.dirfd c.address filename query k.child)])
      := h.silent.quiet trivial
    refine Triple.bind (note_held (c := { c with pidfd := pidfd }) fun hl =>
      hl.snoc (.nothing hsilent) (by simp) (by simp)) fun _ => ?_
    refine Triple.bind (closeFile_triple (c := { c with pidfd := pidfd }) hc h0) fun _ => ?_
    refine Triple.bind setClient_triple fun _ => ?_
    refine Triple.bind (modEvents_held hr EPOLLET) fun _ => ?_
    refine Triple.exists_pre fun mask => Triple.assume fun hmask => ?_
    refine Triple.bind (addPidfd_held hpid) fun _ => ?_
    refine Triple.pure fun w hw => ?_
    refine ⟨{ c with pidfd := pidfd, file := -1 }, none, mask, _,
      ⟨fun hn => absurd hn (by simp), hd, h.buffer, ?_⟩, hw⟩
    rcases hmask with rfl | ⟨hn, rfl⟩
    · refine fun _ _ => .cgi rfl h.unsent hsilent fun hs => ?_
      exact ⟨hpid, rfl, ⟨_, List.mem_append_right _ (List.mem_singleton_self _)⟩,
          by simpa using h.noFile hs⟩
    · exact fun _ _ => .reading (Or.inr (by rw [h.events])) h.unsent hsilent
        fun hs => absurd hs hn

theorem Stance.congr {strict : Prop} {mask : Option UInt32} (h : Stance strict c o mask L)
    (hf : c'.file = c.file) (hz : c'.filesize = c.filesize) (hn : c'.sentsize = c.sentsize)
    (hp : c'.pidfd = c.pidfd) (hb : c'.buffer = c.buffer) :
    Stance strict c' o mask L := by
  intro fds hfds
  rw [hf] at hfds
  cases h fds hfds with
  | reading hm h0 hq h =>
    exact .reading hm (hn ▸ h0) hq fun hs =>
      ⟨hf ▸ (h hs).file, hp ▸ (h hs).pidfd, hb ▸ (h hs).buffer, (h hs).log⟩
  | sending f hm ho h hs =>
    obtain ⟨h2, h3, h4, h5, h6, h7, h8, h9⟩ := h
    exact .sending f hm (hf ▸ ho)
      ⟨hz ▸ h2, hn ▸ h3, hn ▸ h4, hn ▸ h5, h6, h7, hn ▸ h8, h9⟩ (hp ▸ hs)
  | cgi hm h0 hq h => exact .cgi hm (hn ▸ h0) hq (hp ▸ hf ▸ h)

/-- The directory is closed, and the client may be left. -/
theorem settle_triple :
    Triple (contract x.mode) (Launched x a r) (settle a) (GoesOn x (Stands x a r)) := by
  refine Triple.exists_pre fun c => Triple.exists_pre fun o => Triple.exists_pre fun mask =>
    Triple.exists_pre fun L => Triple.assume fun ⟨hc, hd, hb, hst⟩ => ?_
  refine Triple.bind_eq getClient_held ?_
  refine Triple.bind (R := fun _ =>
    Held x a { c with dirfd := -1 } o (some { r with events := mask }) L) ?_ fun _ => ?_
  · refine Triple.when (fun h0 => ?_) fun h0 w h => ?_
    · exact Triple.bind (closeDirfd_triple hc h0) fun _ => setClient_triple
    · have hd : c.dirfd = -1 := by omega
      have hsame : { c with dirfd := -1 } = c := by rw [← hd]
      exact hsame ▸ h
  · refine Triple.bind systemCall_held fun y => ?_
    refine Triple.bind_eq getClient_held ?_
    refine Triple.bind (setClient_held rfl rfl rfl rfl) fun _ => ?_
    exact Triple.pure fun w h => ⟨{ c with dirfd := -1, timestamp := y.time }, o, mask, L,
      ⟨⟨rfl, hb⟩, hst.congr rfl rfl rfl rfl rfl⟩, h⟩

/-- What is done with a regular file. -/
theorem launch_triple {f : File} {filename query : Bytes} (hr : ∀ e ∈ x.pending, r.ptr ≠ e.ptr)
    (h : Asking x.strict c r L) (hc : c.Apart) (h0 : 0 ≤ c.file) (hd : -1 ≤ c.dirfd) :
    Triple (contract x.mode) (Held x a c (some f) (some r) L) (launch a filename query f)
      (GoesOn x (Stands x a r)) := by
  refine Triple.goesOn (Φ := Launched x a r) (Triple.ite (fun _ => ?_) fun _ => ?_) settle_triple
  · exact runCgi_triple hr h hc h0 hd
  · exact transmit_triple hr h hc hd

/-! ## Opening -/

/-- The index file of a directory. -/
theorem openIndex_triple {filename query : Bytes} {filenameEnd : Nat} {f : File}
    (hr : ∀ e ∈ x.pending, r.ptr ≠ e.ptr) (h : Asking x.strict c r L) (h0 : 0 ≤ c.file)
    (hd : c.dirfd = -1)
    (hroom : ∃ p, stpcpy maxFilenameSize filename filenameEnd [SLASH] = some p) :
    Triple (contract x.mode) (Held x a c (some f) (some r) L)
      (openIndex a filename filenameEnd query) (GoesOn x (Stands x a r)) := by
  refine Triple.bind_eq getClient_held ?_
  refine Triple.bind (setClient_triple.pre fun w hw => hw.toDirfd h0 hd) fun _ => ?_
  refine Triple.bind
    (useFd_held (Client.dirfd_mem (c := { c with dirfd := c.file }) h0)) fun _ => ?_
  refine Triple.bind systemCall_held fun y => ?_
  have hlost : x.strict → Client.filePlaces { c with dirfd := c.file } = [] := fun _ => if_pos rfl
  cases y.openat with
  | error e =>
    refine Triple.bind (setClient_triple.pre fun w hw => hw.noFile hlost) fun _ => ?_
    exact refuse_triple (fun hn => absurd hn (by simp)) h.silent
  | ok p =>
    obtain ⟨want, g⟩ := p
    refine Triple.bind (openFd_file hlost) fun fd => Triple.assume fun ⟨hfd, hne⟩ => ?_
    refine Triple.bind setClient_triple fun _ => ?_
    have hc : Client.Apart { c with dirfd := c.file, file := fd } := fun _ => hne
    refine Triple.bind (fstatFile_held (c := { c with dirfd := c.file, file := fd }))
      fun res => Triple.assume fun hres => ?_
    cases res with
    | error e => exact refuse_triple hc h.silent
    | ok g' =>
      obtain rfl := hres g' rfl
      refine Triple.ite (fun _ => ?_) fun _ => refuse_triple hc h.silent
      obtain ⟨p, hp⟩ := hroom
      rw [hp]
      exact launch_triple hr { h with } hc hfd (show -1 ≤ c.file by omega)

/-- The file that was opened. -/
theorem inspectFile_triple {filename query : Bytes} {filenameEnd : Nat} {f : File}
    (hr : ∀ e ∈ x.pending, r.ptr ≠ e.ptr) (h : Asking x.strict c r L) (h0 : 0 ≤ c.file)
    (hd : c.dirfd = -1)
    (hroom : ∃ p, stpcpy maxFilenameSize filename filenameEnd [SLASH] = some p) :
    Triple (contract x.mode) (Held x a c (some f) (some r) L)
      (inspectFile a filename filenameEnd query) (GoesOn x (Stands x a r)) := by
  have hc : c.Apart := fun _ => by omega
  refine Triple.bind_eq getClient_held ?_
  refine Triple.bind fstatFile_held fun res => Triple.assume fun hres => ?_
  cases res with
  | error e => exact (refuse_triple hc h.silent).pre fun _ hw => hw
  | ok g =>
    obtain rfl := hres g rfl
    refine Triple.ite (fun _ => ?_) fun _ => Triple.ite (fun _ => ?_) fun _ => ?_
    · exact launch_triple hr h hc h0 (by omega)
    · exact openIndex_triple hr h h0 hd hroom
    · exact refuse_triple hc h.silent

/-- The path is opened, below the content directory. -/
theorem openFile_triple {filename query path : Bytes} {filenameEnd : Nat}
    (hr : ∀ e ∈ x.pending, r.ptr ≠ e.ptr) (h : Asking x.strict c r L)
    (hf : x.strict → c.file = -1) (hd : c.dirfd = -1)
    (hpath : cstring filename 0 = some path) (hconf : Confined path)
    (hroom : ∃ p, stpcpy maxFilenameSize filename filenameEnd [SLASH] = some p) :
    Triple (contract x.mode) (Held x a c o (some r) L)
      (openFile a filename filenameEnd query) (GoesOn x (Stands x a r)) := by
  have hlost : x.strict → c.filePlaces = [] := fun hs => by
    simp [Client.filePlaces, hf hs, hd]
  refine Triple.bind_eq getServer_held (Triple.bind_eq getClient_held ?_)
  rw [hpath]
  refine Triple.bind (R := fun _ => Held x a c o (some r) L) ?_ fun _ => ?_
  · refine Triple.step fun w hw => ?_
    obtain ⟨ob, hob⟩ := Heap.object_of_mem_openFds
      (hw.busy.parts.isOpen (show x.server.directory ∈ _
        by simp [← hw.busy.server, ServerState.places]))
    exact ⟨w, ob, by rw [hob]; rfl, hw⟩
  have h' : Asking x.strict c r (L ++ [.openat path]) := h.quiet trivial (by simp) (by simp)
  refine Triple.bind (note_held fun hl => hl.snoc (.nothing h'.silent)
    (fun p hp => Action.openat.inj hp ▸ hconf) (by simp)) fun _ => ?_
  refine Triple.bind systemCall_held fun y => ?_
  cases y.openat with
  | error e =>
    refine Triple.bind (setClient_triple.pre fun w hw => hw.noFile hlost) fun _ => ?_
    exact refuse_triple (fun hn => absurd hn (by simp)) h'.silent
  | ok p =>
    obtain ⟨want, f⟩ := p
    refine Triple.bind (openFd_file hlost) fun fd => Triple.assume fun hfd => ?_
    refine Triple.bind setClient_triple fun _ => ?_
    exact inspectFile_triple (c := { c with file := fd }) hr { h' with } hfd.1 hd hroom

/-- What the buffer asks for is served or refused. -/
theorem serveRequest_triple (hr : ∀ e ∈ x.pending, r.ptr ≠ e.ptr) (h : Asking x.strict c r L)
    (hf : x.strict → c.file = -1) (hd : c.dirfd = -1) :
    Triple (contract x.mode) (Held x a c o (some r) L) (serveRequest a)
      (GoesOn x (Stands x a r)) := by
  have hc : c.Apart := fun _ => by omega
  refine Triple.bind_eq getClient_held ?_
  obtain ⟨p, hp⟩ := parse_total h.buffer
  rw [hp]
  cases p with
  | badRequest => exact refuse_triple hc h.silent
  | forbidden => exact refuse_triple hc h.silent
  | path filename filenameEnd query =>
    obtain ⟨path, hpath, hconf⟩ := parse_confined h.buffer hp
    obtain ⟨line, rest, hframed, _, rfl, rfl, _⟩ := parse_path h.buffer hp
    exact openFile_triple hr h hf hd hpath hconf ⟨_, stpcpy_slash h.buffer hframed⟩

/-- **The EPOLLIN branch** serves a waiting client, or loses it. -/
theorem clientReadable_triple (hr : ∀ e ∈ x.pending, r.ptr ≠ e.ptr) (h : Asking x.strict c r L)
    (hf : x.strict → c.file = -1) (hd : c.dirfd = -1) (hL : x.strict → L.count .readable = 0) :
    Triple (contract x.mode) (Held x a c o (some r) L) (clientReadable a)
      (GoesOn x (Stands x a r)) := by
  refine Triple.bind_eq getClient_held ?_
  have h' : Asking x.strict c r (L ++ [.readable]) := h.quiet trivial (by simp) (by simp)
  refine Triple.bind (note_held fun hl => hl.snoc (.nothing h'.silent) (by simp)
    fun hs _ => hL hs) fun _ => ?_
  refine Triple.goesOn (readRequest_triple (fun _ => by omega) h'.silent h.buffer) ?_
  refine Triple.exists_pre fun buffer => Triple.assume fun hb => ?_
  exact serveRequest_triple hr { h' with buffer := hb } hf hd

end Sgopher.Server
