/-
Sgopher.Server.FootprintTheorems — what the handlers of one client leave
alone.

The invariant of a worker at rest speaks of every client, but not of what
a client was before. `Spared` says that everything but one client and the
descriptors it held is as it was, and is what `client_disconnect` leaves
behind. While a request is served descriptors are opened too, and the
client's fields change; `Local` follows them: a field holds what the
client held from the start or what was opened since, so whatever is closed
on the way is nobody else's.

No `sorry`, no `axiom`, no `native_decide`.
-/
import Sgopher.Server.CgiTheorems

namespace Sgopher.Server

open Sgopher.Lib Sgopher.Sepoll

variable {X : Contract Answer World} {x : Context} {a : Nat} {c c₀ : Client} {fd : Int}
  {P gone : List Int} {w w₀ : World}

/-! ## Clients at rest -/

/-- Two clients hold different descriptors. -/
theorem AtRest.places_apart {b : Nat} {d : Client} (h : AtRest x w)
    (hc : w.own.mem.cell a = some c) (hd : w.own.mem.cell b = some d) (hne : b ≠ a)
    (hfd : fd ∈ d.places) : fd ∉ c.places := fun hm =>
  (h.parts.focus hc).other_ne (List.mem_append_right _ hm)
    (Worker.mem_others.mpr ⟨b, d, fun he => hne (Option.some.inj he), hd, hfd⟩) rfl

/-- Two clients have different connections. -/
theorem AtRest.serial_inj {b : Nat} {d : Client} (h : AtRest x w)
    (hc : w.own.mem.cell a = some c) (hd : w.own.mem.cell b = some d)
    (hs : w.own.fds.serialOf c.socket = w.own.fds.serialOf d.socket) : a = b := by
  by_contra hne
  have hmem : ∀ {b d}, w.own.mem.cell b = some d → d.socket ∈ w.own.fds.openFds := fun hd =>
    Heap.mem_openFds_of_object (h.parts.kinds _ _ (by simp) hd).1.socket
  have hsame := Heap.serialOf_inj (hmem hc) (hmem hd) hs
  exact h.places_apart hc hd (Ne.symm hne) d.socket_mem (hsame ▸ c.socket_mem)

/-! ## Disconnecting -/

/-- What `client_disconnect` closes. -/
theorem Client.places_subset : c.places ⊆
    c.socket :: (held c.pidfd ++ (held c.dirfd ++ (held c.file ++ []))) := by
  intro fd hfd
  simp only [Client.places, Client.filePlaces, List.mem_cons, List.mem_append] at hfd ⊢
  split at hfd
  · simp only [List.not_mem_nil, false_or] at hfd
    tauto
  · tauto

/-- Everything but the client at `a`, and the descriptors of `P`, is as it
was; those of `gone` are closed. -/
structure Spared (w₀ : World) (a : Nat) (P gone : List Int) (w : World) : Prop where
  cells : ∀ b, b ≠ a → w.own.mem.cell b = w₀.own.mem.cell b
  objects : ∀ fd, fd ∉ P → w.own.fds.object fd = w₀.own.fds.object fd
  closed : ∀ fd ∈ gone, w.own.fds.object fd = none
  serials : w.own.fds.serialOf = w₀.own.fds.serialOf
  allocated : w.own.fds.allocated = w₀.own.fds.allocated
  interest : ∀ fd, fd ∉ P → w.loop.interest fd = w₀.loop.interest fd
  log : w.own.log = w₀.own.log
  params : w.own.server.params = w₀.own.server.params

theorem Spared.refl (w : World) (a : Nat) (P : List Int) : Spared w a P [] w :=
  ⟨fun _ _ => rfl, fun _ _ => rfl, nofun, rfl, rfl, fun _ _ => rfl, rfl, rfl⟩

/-- A descriptor of `P` is closed. -/
theorem closeFd_spared (hX : X.mayFault) (hfd : fd ∈ P) :
    Triple X (Spared w₀ a P gone) (closeFd fd) (fun _ => Spared w₀ a P (fd :: gone)) := by
  refine Triple.step_partial hX fun w w' _ h hf => ?_
  split at hf
  · cases hf
  obtain ⟨fds, hfds, he⟩ := Option.map_eq_some_iff.mp hf
  obtain ⟨rfl, -⟩ := Prod.mk.inj he
  obtain ⟨hm, rfl⟩ := Heap.closeFd_cases hfds
  refine { h with objects := fun fd' hfd' => ?_, closed := fun fd' hfd' => ?_ }
  · have hne : fd' ≠ fd := fun he => hfd' (he ▸ hfd)
    exact (Heap.closedFd_object_of_ne hm hne).trans (h.objects fd' hfd')
  · by_cases he : fd' = fd
    · rw [he]
      exact Heap.closedFd_object_self hm
    · have hg : fd' ∈ gone := (List.mem_cons.mp hfd').resolve_left he
      exact (Heap.closedFd_object_of_ne hm he).trans (h.closed fd' hg)

theorem closeIf_spared (hX : X.mayFault) (hfd : 0 ≤ fd → fd ∈ P) :
    Triple X (Spared w₀ a P gone) (Prog.when (0 ≤ fd) (closeFd fd))
      (fun _ => Spared w₀ a P (held fd ++ gone)) := by
  unfold held
  refine Triple.when (fun h0 => ?_) fun h0 w h => ?_
  · rw [if_pos h0]
    exact closeFd_spared hX (hfd h0)
  · rwa [if_neg h0]

theorem sepollRemove_spared (hX : X.mayFault) (hfd : fd ∈ P) :
    Triple X (Spared w₀ a P gone) (sepollRemove fd) (fun _ => Spared w₀ a P gone) := by
  refine Triple.step_map hX fun w b h hr => ?_
  refine { h with interest := fun fd' hfd' => ?_ }
  have hne : fd' ≠ fd := fun he => hfd' (he ▸ hfd)
  exact (Loop.remove_interest hr hne).trans (h.interest fd' hfd')

/-- **`client_disconnect`** closes what the client held and frees it, and
spares everybody else. -/
theorem clientDisconnect_spared (hX : X.mayFault) (hc : w₀.own.mem.cell a = some c) :
    Triple X (fun w => w = w₀) (clientDisconnect a)
      (fun _ w => w.own.mem.cell a = none ∧ Spared w₀ a c.places c.places w) := by
  refine Triple.bind_eq (v := c) (R := Spared w₀ a c.places [])
    (Triple.step fun w h => ⟨w, c, by rw [h, hc]; rfl, rfl, h ▸ Spared.refl ..⟩) ?_
  refine Triple.bind (closeIf_spared hX Client.file_mem) fun _ => ?_
  refine Triple.bind (closeIf_spared hX Client.dirfd_mem) fun _ => ?_
  refine Triple.bind (R := fun _ => Spared w₀ a c.places
    (held c.pidfd ++ (held c.dirfd ++ (held c.file ++ [])))) ?_ fun _ => ?_
  · unfold held
    refine Triple.when (fun h0 => ?_) fun h0 w h => ?_
    · have hm := Client.pidfd_mem h0
      rw [if_pos h0]
      exact Triple.bind (sepollRemove_spared hX hm) fun _ => closeFd_spared hX hm
    · rwa [if_neg h0]
  refine Triple.bind (sepollRemove_spared hX c.socket_mem) fun _ => ?_
  refine Triple.bind (closeFd_spared hX c.socket_mem) fun _ => ?_
  refine Triple.step_partial hX fun w w' _ h hw => ?_
  split at hw
  · obtain ⟨mem, hmem, he⟩ := Option.map_eq_some_iff.mp hw
    obtain ⟨rfl, -⟩ := Prod.mk.inj he
    obtain ⟨ha, rfl⟩ := Heap.free_cases hmem
    refine ⟨Function.update_self .., { h with
      cells := fun b hb => (Heap.freeLive_cell_of_ne ha hb).trans (h.cells b hb)
      closed := fun fd hfd => h.closed fd (Client.places_subset hfd) }⟩
  · cases hw

/-- `client_disconnect` makes no call whose answer matters. -/
theorem clientDisconnect_asks (a : Nat) : Prog.Asks 0 (clientDisconnect a) := by
  have hclose : ∀ fd : Int, Prog.Asks 0 (Prog.when (0 ≤ fd) (closeFd fd) : Program Unit) :=
    fun fd => Prog.Asks.when Prog.Asks.step
  refine Prog.Asks.after Prog.Asks.step fun c => Prog.Asks.after (hclose c.file) fun _ => ?_
  refine Prog.Asks.after (hclose c.dirfd) fun _ => Prog.Asks.after (Prog.Asks.when ?_) fun _ => ?_
  · exact Prog.Asks.after Prog.Asks.step fun _ => Prog.Asks.step
  · exact Prog.Asks.after Prog.Asks.step fun _ => Prog.Asks.after Prog.Asks.step fun _ =>
      Prog.Asks.step

/-- From `w` to `w'` the client `c` was disconnected, and nothing else
happened. -/
structure Disconnected (x : Context) (a : Nat) (c : Client) (w w' : World) : Prop where
  rest : AtRest x w'
  clients : w'.own.server.clients = x.server.clients.erase a
  cell : w'.own.mem.cell a = none
  spared : Spared w a c.places c.places w'

/-- A client that a handler works on can be disconnected. -/
theorem Held.disconnects {o : Option File} {m : Option Registration} {L : List Action}
    (h : Held x a c o m L w) (hc : c.Apart) (ans : List Answer) :
    ∃ w', clientDisconnect a w ans = .done () w' ans ∧ Disconnected x a c w w' := by
  have hrun := (clientDisconnect_triple (X := ⟨fun _ => True, fun _ => False, False⟩) hc).run_asks
    id (clientDisconnect_asks a) ⟨h, rfl⟩ ans fun _ _ => trivial
  rw [if_pos (Nat.zero_le _)] at hrun
  obtain ⟨_, w', hrun, hrest, _, hclients⟩ := hrun
  obtain ⟨hcell, hspared⟩ := ((clientDisconnect_spared (X := always fun _ => True) trivial
    h.busy.cell).done rfl (fun _ _ => trivial) hrun).1
  exact ⟨w', hrun, hrest, hclients, hcell, hspared⟩

/-! ## Working on a client -/

/-- What a client holds besides its socket. -/
def Client.spares (c : Client) : List Int := c.filePlaces ++ held c.dirfd ++ held c.pidfd

theorem Client.file_spare (h : 0 ≤ c.file) : c.file ∈ c.spares := by
  by_cases he : c.file = c.dirfd
  · have hm : c.dirfd ∈ held c.dirfd := mem_held (he ▸ h)
    simp [Client.spares, he, hm]
  · have hm : c.file ∈ c.filePlaces := by
      rw [Client.filePlaces, if_neg he]
      exact mem_held h
    simp [Client.spares, hm]

/-- Nobody else's descriptor: none, one the client held to begin with, or
one that was opened since. -/
def Own (w₀ : World) (c₀ : Client) (w : World) (fd : Int) : Prop :=
  fd < 0 ∨ fd ∈ c₀.spares ∨ w₀.own.fds.allocated ≤ w.own.fds.serialOf fd

/-- The descriptors that are not in `P` are as they were. -/
def Untouched (w₀ : World) (P : List Int) (w : World) : Prop :=
  ∀ fd ∈ w₀.own.fds.openFds, fd ∉ P →
    fd ∈ w.own.fds.openFds ∧ w.own.fds.serialOf fd = w₀.own.fds.serialOf fd

theorem Untouched.opened (h : Untouched w₀ P w) (want : Int) (o : Object) :
    Untouched w₀ P { w with own := { w.own with fds := (w.own.fds.openFd want o).1 } } := by
  intro fd hm hs
  obtain ⟨hopen, hserial⟩ := h fd hm hs
  refine ⟨?_, (Heap.openFd_serialOf_of_mem hopen).trans hserial⟩
  show fd ∈ (w.own.fds.openFd want o).1.openFds
  rw [Heap.openFd_openFds]
  exact List.mem_cons_of_mem _ hopen

theorem Untouched.closed (h : Untouched w₀ P w) (hm : fd ∈ w.own.fds.openFds)
    (hne : ∀ fd', fd' ∈ w₀.own.fds.openFds → fd' ∉ P → fd' ≠ fd) :
    Untouched w₀ P { w with own := { w.own with fds := w.own.fds.closedFd fd hm } } := by
  intro fd' hm' hs
  obtain ⟨hopen, hserial⟩ := h fd' hm' hs
  obtain ⟨o, ho⟩ := Heap.object_of_mem_openFds hopen
  exact ⟨Heap.mem_openFds_of_object
    ((Heap.closedFd_object_of_ne hm (hne fd' hm' hs)).trans ho), hserial⟩

/-- From `w₀` on a handler worked on the client at `a`, which was `c₀` and
is `c` now, and on nobody else. `q` is a property of the client and what
was done for it. -/
structure Local (w₀ : World) (a : Nat) (c₀ : Client) (q : Client → List Action → Prop)
    (c : Client) (w : World) : Prop where
  origin : c₀.socket ∈ w₀.own.fds.openFds ∧ c₀.socket ∉ c₀.spares
  allocated : w₀.own.fds.allocated ≤ w.own.fds.allocated
  cells : ∀ b, b ≠ a → w.own.mem.cell b = w₀.own.mem.cell b
  cell : w.own.mem.cell a = some c
  socket : c.socket = c₀.socket
  file : Own w₀ c₀ w c.file
  dirfd : Own w₀ c₀ w c.dirfd
  pidfd : Own w₀ c₀ w c.pidfd
  untouched : Untouched w₀ c₀.spares w
  logs : ∀ n, n ≠ w₀.own.fds.serialOf c₀.socket → w.own.log n = w₀.own.log n
  log : q c (w.own.log (w₀.own.fds.serialOf c₀.socket))

/-- The handler has disconnected the client. -/
structure Left (w₀ : World) (a : Nat) (c₀ : Client) (q : List Action → Prop) (w : World) :
    Prop where
  allocated : w₀.own.fds.allocated ≤ w.own.fds.allocated
  cells : ∀ b, b ≠ a → w.own.mem.cell b = w₀.own.mem.cell b
  cell : w.own.mem.cell a = none
  untouched : Untouched w₀ c₀.places w
  logs : ∀ n, n ≠ w₀.own.fds.serialOf c₀.socket → w.own.log n = w₀.own.log n
  log : q (w.own.log (w₀.own.fds.serialOf c₀.socket))

variable {q q' : Client → List Action → Prop} {c' : Client}

/-- A descriptor of the client's own is none that is untouched. -/
theorem Own.ne (h : Own w₀ c₀ w fd) (h0 : 0 ≤ fd) (hu : Untouched w₀ c₀.spares w) {fd' : Int}
    (hm : fd' ∈ w₀.own.fds.openFds) (hs : fd' ∉ c₀.spares) : fd' ≠ fd := by
  rintro rfl
  rcases h with hn | hm' | hle
  · omega
  · exact hs hm'
  · have hlt := Heap.serialOf_lt hm
    rw [(hu fd' hm hs).2] at hle
    omega

namespace Local

theorem serial (h : Local w₀ a c₀ q c w) :
    w.own.fds.serialOf c.socket = w₀.own.fds.serialOf c₀.socket := by
  rw [h.socket]
  exact (h.untouched _ h.origin.1 h.origin.2).2

theorem imp (h : Local w₀ a c₀ q c w) (hq : ∀ L, q c L → q' c L) : Local w₀ a c₀ q' c w :=
  { h with log := hq _ h.log }

theorem refl (hc : w₀.own.mem.cell a = some c₀) (hm : c₀.socket ∈ w₀.own.fds.openFds)
    (hs : c₀.socket ∉ c₀.spares) (hq : q c₀ (w₀.own.log (w₀.own.fds.serialOf c₀.socket))) :
    Local w₀ a c₀ q c₀ w₀ := by
  have hown : ∀ {fd : Int}, (0 ≤ fd → fd ∈ c₀.spares) → Own w₀ c₀ w₀ fd := fun {fd} h => by
    by_cases h0 : 0 ≤ fd
    · exact Or.inr (Or.inl (h h0))
    · exact Or.inl (by omega)
  exact ⟨⟨hm, hs⟩, Nat.le_refl _, fun _ _ => rfl, hc, rfl, hown Client.file_spare,
    hown fun h0 => by simp [Client.spares, mem_held h0],
    hown fun h0 => by simp [Client.spares, mem_held h0], fun _ hm _ => ⟨hm, rfl⟩,
    fun _ _ => rfl, hq⟩

/-- The client is disconnected. -/
theorem left (h : Local w₀ a c₀ q c w) {q' : List Action → Prop} (hq : ∀ L, q c L → q' L)
    {w' : World} (hcell : w'.own.mem.cell a = none) (hs : Spared w a c.places c.places w') :
    Left w₀ a c₀ q' w' where
  allocated := hs.allocated ▸ h.allocated
  cells b hb := (hs.cells b hb).trans (h.cells b hb)
  cell := hcell
  untouched fd hm hfd := by
    have hne : fd ≠ c₀.socket := fun he => hfd (he ▸ c₀.socket_mem)
    have hspare : fd ∉ c₀.spares := fun hm => hfd (List.mem_cons_of_mem _ hm)
    obtain ⟨hopen, hserial⟩ := h.untouched fd hm hspare
    have hown : ∀ {fd'}, Own w₀ c₀ w fd' → fd ∉ held fd' := fun {fd'} ho hm' => by
      unfold held at hm'
      split at hm'
      · exact ho.ne ‹_› h.untouched hm hspare (List.mem_singleton.mp hm')
      · cases hm'
    have hplaces : fd ∉ c.places := fun hm' => by
      have hsub := Client.places_subset hm'
      simp only [List.mem_cons, List.mem_append, List.append_nil] at hsub
      rcases hsub with he | hp | hd | hf
      · exact hne (he.trans h.socket)
      · exact hown h.pidfd hp
      · exact hown h.dirfd hd
      · exact hown h.file hf
    obtain ⟨o, ho⟩ := Heap.object_of_mem_openFds hopen
    exact ⟨Heap.mem_openFds_of_object ((hs.objects fd hplaces).trans ho),
      (congrFun hs.serials fd).trans hserial⟩
  logs n hn := (congrFun hs.log n).trans (h.logs n hn)
  log := by
    rw [hs.log]
    exact hq _ h.log

end Local

/-! ### The calls -/

theorem getClient_local (hX : X.mayFault) : Triple X (Local w₀ a c₀ q c) (getClient a)
    (fun d w => d = c ∧ Local w₀ a c₀ q c w) :=
  Triple.step_map hX fun _ _ h hd => ⟨Option.some.inj (hd.symm.trans h.cell), h⟩

theorem note_local {act : Action} (hX : X.mayFault) (hq : ∀ L, q c L → q c (L ++ [act])) :
    Triple X (Local w₀ a c₀ q c) (note c.socket act) (fun _ => Local w₀ a c₀ q c) := by
  refine Triple.step_map hX fun w _ h _ => ?_
  refine { h with logs := fun n hn => ?_, log := ?_ }
  · show Function.update w.own.log (w.own.fds.serialOf c.socket) _ n = _
    rw [h.serial, Function.update_of_ne hn]
    exact h.logs n hn
  · show q c (Function.update w.own.log (w.own.fds.serialOf c.socket) _ _)
    rw [h.serial, Function.update_self]
    exact hq _ h.log

/-- The client's record is written. -/
theorem setClient_local (hX : X.mayFault) (hs : c'.socket = c.socket)
    (hq : ∀ L, q c L → q' c' L) :
    Triple X
      (fun w => Local w₀ a c₀ q c w ∧ Own w₀ c₀ w c'.file ∧ Own w₀ c₀ w c'.dirfd ∧
        Own w₀ c₀ w c'.pidfd)
      (setClient a c') (fun _ => Local w₀ a c₀ q' c') := by
  refine Triple.step_map hX fun w mem ⟨h, hf, hd, hp⟩ hmem => ?_
  obtain ⟨ha, rfl⟩ := Heap.write_cases hmem
  exact ⟨h.origin, h.allocated,
    fun b hb => (Heap.writeLive_cell_of_ne ha hb).trans (h.cells b hb),
    Heap.writeLive_cell_self _ _ _ ha, hs.trans h.socket, hf, hd, hp, h.untouched, h.logs,
    hq _ h.log⟩

/-- Fields that are not descriptors change. -/
theorem setFields_local (hX : X.mayFault) (hs : c'.socket = c.socket) (hf : c'.file = c.file)
    (hd : c'.dirfd = c.dirfd) (hp : c'.pidfd = c.pidfd) (hq : ∀ L, q c L → q' c' L) :
    Triple X (Local w₀ a c₀ q c) (setClient a c') (fun _ => Local w₀ a c₀ q' c') :=
  (setClient_local hX hs hq).pre fun _ h => ⟨h, hf ▸ h.file, hd ▸ h.dirfd, hp ▸ h.pidfd⟩

/-- A descriptor of the client's own is closed. -/
theorem closeFd_local (hX : X.mayFault) :
    Triple X (fun w => Local w₀ a c₀ q c w ∧ Own w₀ c₀ w fd) (closeFd fd)
      (fun _ => Local w₀ a c₀ q c) := by
  refine (closeFd_keeps (I := fun w => Local w₀ a c₀ q c w ∧ Own w₀ c₀ w fd) hX
    fun w fds hclose ⟨h, ho⟩ => ?_).post fun _ _ h => h.1
  obtain ⟨hm, rfl⟩ := Heap.closeFd_cases hclose
  have h0 : 0 ≤ fd := by
    have := (Heap.mem_openFds.mp hm).1
    omega
  exact ⟨{ h with untouched := h.untouched.closed hm fun _ => ho.ne h0 h.untouched }, ho⟩

/-- A descriptor is opened. -/
theorem openFd_local {want : Int} {o : Object} :
    Triple X (Local w₀ a c₀ q c) (openFd want o)
      (fun fd w => 0 ≤ fd ∧ Own w₀ c₀ w fd ∧ Local w₀ a c₀ q c w) := by
  refine Triple.step fun w h => ⟨_, _, rfl, ?_, ?_, ?_⟩
  · have := Heap.openFd_ge w.own.fds want o
    omega
  · refine Or.inr (Or.inr ?_)
    show w₀.own.fds.allocated ≤ (w.own.fds.openFd want o).1.serialOf _
    rw [Heap.openFd_serialOf_self]
    exact h.allocated
  · have hkeep : ∀ {fd : Int}, Own w₀ c₀ w fd →
        Own w₀ c₀ { w with own := { w.own with fds := (w.own.fds.openFd want o).1 } } fd := by
      rintro fd (hn | hs | hle)
      · exact Or.inl hn
      · exact Or.inr (Or.inl hs)
      · refine Or.inr (Or.inr ?_)
        show w₀.own.fds.allocated ≤ (w.own.fds.openFd want o).1.serialOf fd
        rcases Heap.openFd_serialOf_cases w.own.fds want o fd with he | he
        · exact he ▸ h.allocated
        · exact he ▸ hle
    exact { h with
      allocated := Nat.le_succ_of_le h.allocated
      file := hkeep h.file
      dirfd := hkeep h.dirfd
      pidfd := hkeep h.pidfd
      untouched := h.untouched.opened want o }

/-- A call of the event loop. -/
theorem onLoop_local {α : Type} {f : EventLoop → Option (EventLoop × α)} (hX : X.mayFault) :
    Triple X (Local w₀ a c₀ q c) (onLoop f) (fun _ => Local w₀ a c₀ q c) :=
  onLoop_keeps hX fun _ _ h => { h with }

/-- The client is disconnected. -/
theorem clientDisconnect_local {q' : List Action → Prop} (hX : X.mayFault)
    (hq : ∀ L, q c L → q' L) :
    Triple X (Local w₀ a c₀ q c) (clientDisconnect a) (fun _ => Left w₀ a c₀ q') := by
  intro w ans h hA
  have hrun := clientDisconnect_spared hX h.cell
  exact (hrun.post fun _ w' h' => h.left hq h'.1 h'.2) w ans rfl hA

/-! ## The programs of a client -/

/-- No program was started for the connection. -/
def Unforked (L : List Action) : Prop := ∀ child, Action.cgi child ∉ L

/-- A program that was started has a descriptor. -/
def Attending (c : Client) (L : List Action) : Prop := Unforked L ∨ 0 ≤ c.pidfd

theorem Unforked.snoc {L : List Action} (h : Unforked L) {act : Action}
    (hact : ∀ child, act ≠ .cgi child) : Unforked (L ++ [act]) := fun child hm => by
  rcases List.mem_append.mp hm with hm | hm
  · exact h child hm
  · exact hact child (List.mem_singleton.mp hm).symm

/-- A client that a handler works on, wherever it waits. -/
def footprint (w₀ : World) (a : Nat) (c₀ : Client) : Contract Answer World :=
  always fun w => ∃ c, Local w₀ a c₀ Attending c w

/-- Before its program is started, and from there on. -/
abbrev Idle (w₀ : World) (a : Nat) (c₀ : Client) (c : Client) (w : World) : Prop :=
  Local w₀ a c₀ (fun _ => Unforked) c w

theorem Idle.attending (h : Idle w₀ a c₀ c w) : Local w₀ a c₀ Attending c w :=
  h.imp fun _ => Or.inl

/-- The client is there, or it was disconnected and had no program. -/
def Leaves (w₀ : World) (a : Nat) (c₀ : Client) (Φ : World → Prop) (more : Bool) (w : World) :
    Prop :=
  if more then Φ w else Left w₀ a c₀ Unforked w

/-- Some client is. -/
def Works (w₀ : World) (a : Nat) (c₀ : Client) (q : Client → List Action → Prop) (w : World) :
    Prop :=
  ∃ c, Local w₀ a c₀ q c w

theorem Works.waits (h : Works w₀ a c₀ (fun _ => Unforked) w) : (footprint w₀ a c₀).waits w := by
  obtain ⟨c, h⟩ := h
  exact ⟨c, h.imp fun _ => Or.inl⟩

section Parts

variable {Φ : World → Prop} {filename query : Bytes} {filenameEnd : Nat} {f : File}

theorem systemCall_idle :
    Triple (footprint w₀ a c₀) (Idle w₀ a c₀ c) systemCall (fun _ => Idle w₀ a c₀ c) :=
  systemCall_keeps fun _ h => ⟨c, h.attending⟩

theorem note_idle {act : Action} (h : ∀ child, act ≠ .cgi child) :
    Triple (footprint w₀ a c₀) (Idle w₀ a c₀ c) (note c.socket act) (fun _ => Idle w₀ a c₀ c) :=
  note_local trivial fun _ hL => hL.snoc h

theorem setClient_idle (c c' : Client) (hs : c'.socket = c.socket) :
    Triple (footprint w₀ a c₀)
      (fun w => Idle w₀ a c₀ c w ∧ Own w₀ c₀ w c'.file ∧ Own w₀ c₀ w c'.dirfd ∧
        Own w₀ c₀ w c'.pidfd)
      (setClient a c') (fun _ => Idle w₀ a c₀ c') :=
  setClient_local trivial hs fun _ h => h

theorem setFields_idle (c : Client) (hs : c'.socket = c.socket) (hf : c'.file = c.file)
    (hd : c'.dirfd = c.dirfd) (hp : c'.pidfd = c.pidfd) :
    Triple (footprint w₀ a c₀) (Idle w₀ a c₀ c) (setClient a c') (fun _ => Idle w₀ a c₀ c') :=
  setFields_local trivial hs hf hd hp fun _ h => h

/-- The client gets a program, or has one. -/
theorem setClient_attending (c c' : Client) (hs : c'.socket = c.socket) (h0 : 0 ≤ c'.pidfd) :
    Triple (footprint w₀ a c₀)
      (fun w => Local w₀ a c₀ q c w ∧ Own w₀ c₀ w c'.file ∧ Own w₀ c₀ w c'.dirfd ∧
        Own w₀ c₀ w c'.pidfd)
      (setClient a c') (fun _ => Local w₀ a c₀ Attending c') :=
  setClient_local trivial hs fun _ _ => Or.inr h0

/-- Its other fields change. -/
theorem setFields_attending (c c' : Client) (hs : c'.socket = c.socket)
    (hp : c'.pidfd = c.pidfd) :
    Triple (footprint w₀ a c₀)
      (fun w => Local w₀ a c₀ Attending c w ∧ Own w₀ c₀ w c'.file ∧ Own w₀ c₀ w c'.dirfd)
      (setClient a c') (fun _ => Local w₀ a c₀ Attending c') := by
  refine (setClient_local trivial hs fun L hL => ?_).pre fun w ⟨h, hf, hd⟩ =>
    ⟨h, hf, hd, hp ▸ h.pidfd⟩
  exact hL.imp id fun h0 => by rwa [hp]

theorem fstatFile_idle :
    Triple (footprint w₀ a c₀) (Idle w₀ a c₀ c) (fstatFile fd) (fun _ => Idle w₀ a c₀ c) :=
  fstatFile_keeps trivial fun _ h => ⟨c, h.attending⟩

theorem hangUp_local :
    Triple (footprint w₀ a c₀) (Idle w₀ a c₀ c) (hangUp a) (Leaves w₀ a c₀ Φ) :=
  Triple.bind (clientDisconnect_local trivial fun _ h => h) fun _ => Triple.pure fun _ h => h

theorem refuse_local {m : Menu} :
    Triple (footprint w₀ a c₀) (Idle w₀ a c₀ c) (refuse a m) (Leaves w₀ a c₀ Φ) :=
  Triple.bind_eq (getClient_local trivial) (Triple.bind (note_idle nofun) fun _ => hangUp_local)

/-- Where the client is left there is nothing more to do. -/
theorem Triple.leaves {R Ψ : World → Prop} {m f : Program Bool}
    (hm : Triple X R m (Leaves w₀ a c₀ Φ)) (hf : Triple X Φ f (Leaves w₀ a c₀ Ψ)) :
    Triple X R
      (do
        let more ← m
        if more then f else pure false) (Leaves w₀ a c₀ Ψ) := by
  refine Triple.bind hm fun more => ?_
  cases more with
  | true => exact hf.pre fun _ h => h
  | false => exact Triple.pure fun _ h => h

/-! ### Reading the request -/

theorem readRequest_local :
    Triple (footprint w₀ a c₀) (Works w₀ a c₀ fun _ => Unforked) (readRequest a)
      (Leaves w₀ a c₀ (Works w₀ a c₀ fun _ => Unforked)) := by
  refine Triple.iterate (I := fun _ => Works w₀ a c₀ fun _ => Unforked)
    (fun _ w h => h.waits) (fun _ => ?_) ()
  refine Triple.exists_pre fun c => ?_
  refine Triple.bind_eq (getClient_local trivial) ?_
  refine Triple.bind (useFd_keeps trivial) fun _ => Triple.bind systemCall_idle fun y => ?_
  split
  · exact Triple.pure fun w h => ⟨c, h⟩
  · exact Triple.bind hangUp_local fun _ => Triple.pure fun _ h => h
  · exact Triple.bind refuse_local fun _ => Triple.pure fun _ h => h
  · refine Triple.ite (fun _ => ?_) fun _ => ?_
    · exact Triple.bind hangUp_local fun _ => Triple.pure fun _ h => h
    · refine Triple.bind (setFields_idle c rfl rfl rfl rfl) fun _ => ?_
      exact Triple.ite (fun _ => Triple.pure fun w h => ⟨_, h⟩) fun _ =>
        Triple.pure fun w h => ⟨_, h⟩

/-! ### Serving it -/

/-- The descriptor of the program is there before the program is noted. -/
theorem runCgi_local :
    Triple (footprint w₀ a c₀) (Idle w₀ a c₀ c) (runCgi a filename query)
      (Leaves w₀ a c₀ (Works w₀ a c₀ Attending)) := by
  refine Triple.bind getServer_keeps fun s => Triple.bind_eq (getClient_local trivial) ?_
  refine Triple.bind systemCall_idle fun y => ?_
  split
  · exact refuse_local
  rename_i k _
  refine Triple.bind openFd_local fun pidfd => Triple.assume fun h0 => ?_
  refine Triple.bind ((setClient_attending c { c with pidfd := pidfd } rfl h0).pre fun w ⟨ho, h⟩ =>
    ⟨h, h.file, h.dirfd, ho⟩) fun _ => ?_
  refine Triple.bind (note_local trivial fun _ _ => Or.inr h0) fun _ => ?_
  refine Triple.bind ((closeFd_local trivial).pre fun w h => ⟨h, h.file⟩) fun _ => ?_
  refine Triple.bind ((setClient_attending { c with pidfd := pidfd }
    { c with pidfd := pidfd, file := -1 } rfl h0).pre fun w h =>
    ⟨h, Or.inl (by simp), h.dirfd, h.pidfd⟩) fun _ => ?_
  have hcall : ∀ {α : Type} {f : Answer → EventLoop → Option (EventLoop × α)},
      Triple (footprint w₀ a c₀) (Local w₀ a c₀ Attending { c with pidfd := pidfd, file := -1 })
        (do
          let x ← systemCall
          onLoop (f x)) (fun _ => Local w₀ a c₀ Attending { c with pidfd := pidfd, file := -1 }) :=
    Triple.bind (systemCall_keeps fun _ h => ⟨_, h⟩) fun _ => onLoop_local trivial
  exact Triple.bind hcall fun _ => Triple.bind hcall fun _ => Triple.pure fun w h => ⟨_, h⟩

theorem transmit_local :
    Triple (footprint w₀ a c₀) (Idle w₀ a c₀ c) (transmit a f)
      (Leaves w₀ a c₀ (Works w₀ a c₀ Attending)) := by
  refine Triple.bind_eq (getClient_local trivial) (Triple.bind (note_idle nofun) fun _ => ?_)
  refine Triple.bind (setFields_idle c rfl rfl rfl rfl) fun _ => ?_
  refine Triple.bind (Triple.bind systemCall_idle fun _ => onLoop_local trivial) fun _ => ?_
  exact Triple.pure fun w h => ⟨_, Idle.attending h⟩

theorem settle_local :
    Triple (footprint w₀ a c₀) (Works w₀ a c₀ Attending) (settle a)
      (Leaves w₀ a c₀ (Works w₀ a c₀ Attending)) := by
  refine Triple.exists_pre fun c => Triple.bind_eq (getClient_local trivial) ?_
  refine Triple.bind (R := fun _ => Works w₀ a c₀ Attending)
    (Triple.when (fun _ => ?_) fun _ w h => ⟨c, h⟩) fun _ => Triple.exists_pre fun c => ?_
  · refine Triple.bind ((closeFd_local trivial).pre fun w h => ⟨h, h.dirfd⟩) fun _ => ?_
    refine ((setFields_attending c { c with dirfd := -1 } rfl rfl).pre fun w h => ?_).post
      fun _ w h => ⟨_, h⟩
    exact ⟨h, h.file, Or.inl (by simp)⟩
  · refine Triple.bind (systemCall_keeps fun _ h => ⟨c, h⟩) fun y => ?_
    refine Triple.bind_eq (getClient_local trivial) ?_
    refine Triple.bind ((setFields_attending c { c with timestamp := y.time } rfl rfl).pre
      fun w h => ⟨h, h.file, h.dirfd⟩) fun _ => ?_
    exact Triple.pure fun w h => ⟨_, h⟩

theorem launch_local :
    Triple (footprint w₀ a c₀) (Idle w₀ a c₀ c) (launch a filename query f)
      (Leaves w₀ a c₀ (Works w₀ a c₀ Attending)) :=
  Triple.leaves (Triple.ite (fun _ => runCgi_local) fun _ => transmit_local) settle_local

theorem openIndex_local :
    Triple (footprint w₀ a c₀) (Idle w₀ a c₀ c) (openIndex a filename filenameEnd query)
      (Leaves w₀ a c₀ (Works w₀ a c₀ Attending)) := by
  refine Triple.bind_eq (getClient_local trivial) ?_
  refine Triple.bind ((setClient_idle c { c with dirfd := c.file } rfl).pre fun w h =>
    ⟨h, h.file, h.file, h.pidfd⟩) fun _ => ?_
  refine Triple.bind (useFd_keeps trivial) fun _ => Triple.bind systemCall_idle fun y => ?_
  split
  · refine Triple.bind ((setClient_idle { c with dirfd := c.file }
      { c with dirfd := c.file, file := -1 } rfl).pre fun w h =>
        ⟨h, Or.inl (by simp), h.dirfd, h.pidfd⟩) fun _ => refuse_local
  · refine Triple.bind openFd_local fun fd => ?_
    refine Triple.bind ((setClient_idle { c with dirfd := c.file }
      { c with dirfd := c.file, file := fd } rfl).pre fun w h =>
        ⟨h.2.2, h.2.1, h.2.2.dirfd, h.2.2.pidfd⟩) fun _ => ?_
    refine Triple.bind fstatFile_idle fun res => ?_
    split
    · exact refuse_local
    · refine Triple.ite (fun _ => ?_) fun _ => refuse_local
      split
      · exact fault_keeps trivial
      · exact launch_local

theorem inspectFile_local :
    Triple (footprint w₀ a c₀) (Idle w₀ a c₀ c) (inspectFile a filename filenameEnd query)
      (Leaves w₀ a c₀ (Works w₀ a c₀ Attending)) := by
  refine Triple.bind_eq (getClient_local trivial) (Triple.bind fstatFile_idle fun res => ?_)
  split
  · exact refuse_local
  · exact Triple.ite (fun _ => launch_local) fun _ =>
      Triple.ite (fun _ => openIndex_local) fun _ => refuse_local

theorem openFile_local :
    Triple (footprint w₀ a c₀) (Idle w₀ a c₀ c) (openFile a filename filenameEnd query)
      (Leaves w₀ a c₀ (Works w₀ a c₀ Attending)) := by
  refine Triple.bind getServer_keeps fun s => Triple.bind_eq (getClient_local trivial) ?_
  split
  · exact fault_keeps trivial
  refine Triple.bind (useFd_keeps trivial) fun _ => Triple.bind (note_idle nofun) fun _ => ?_
  refine Triple.bind systemCall_idle fun y => ?_
  split
  · refine Triple.bind ((setClient_idle c { c with file := -1 } rfl).pre fun w h =>
      ⟨h, Or.inl (by simp), h.dirfd, h.pidfd⟩) fun _ => refuse_local
  · refine Triple.bind openFd_local fun fd => ?_
    exact Triple.bind ((setClient_idle c { c with file := fd } rfl).pre fun w h =>
      ⟨h.2.2, h.2.1, h.2.2.dirfd, h.2.2.pidfd⟩) fun _ => inspectFile_local

theorem serveRequest_local :
    Triple (footprint w₀ a c₀) (Idle w₀ a c₀ c) (serveRequest a)
      (Leaves w₀ a c₀ (Works w₀ a c₀ Attending)) := by
  refine Triple.bind_eq (getClient_local trivial) ?_
  split
  · exact fault_keeps trivial
  · exact refuse_local
  · exact refuse_local
  · exact openFile_local

/-- **The EPOLLIN branch** works on one client, and disconnects it only
while it has no program. -/
theorem clientReadable_local :
    Triple (footprint w₀ a c₀) (Idle w₀ a c₀ c) (clientReadable a)
      (Leaves w₀ a c₀ (Works w₀ a c₀ Attending)) := by
  refine Triple.bind_eq (getClient_local trivial) (Triple.bind (note_idle nofun) fun _ => ?_)
  exact Triple.leaves (readRequest_local.pre fun w h => ⟨c, h⟩)
    (Triple.exists_pre fun _ => serveRequest_local)

/-! ### The transfer -/

theorem sendFile_local :
    Triple (footprint w₀ a c₀) (Works w₀ a c₀ fun _ => Unforked) (sendFile a)
      (Leaves w₀ a c₀ (Works w₀ a c₀ fun _ => Unforked)) := by
  refine Triple.iterate (I := fun _ => Works w₀ a c₀ fun _ => Unforked)
    (fun _ w h => h.waits) (fun _ => ?_) ()
  refine Triple.exists_pre fun c => Triple.bind_eq (getClient_local trivial) ?_
  split
  · exact fault_keeps trivial
  refine Triple.bind (useFd_keeps trivial) fun _ => Triple.bind (useFd_keeps trivial) fun o => ?_
  refine Triple.bind systemCall_idle fun y => ?_
  split
  · refine Triple.ite (fun _ => Triple.pure fun w h => ⟨c, h⟩) fun _ => ?_
    refine Triple.bind (R := fun _ => Idle w₀ a c₀ c) ?_ fun _ => ?_
    · exact Triple.when (fun _ => note_idle nofun) fun _ w h => h
    · exact Triple.bind hangUp_local fun _ => Triple.pure fun _ h => h
  · refine Triple.bind (note_idle nofun) fun _ => ?_
    refine Triple.bind (setFields_idle c rfl rfl rfl rfl) fun _ => ?_
    exact Triple.ite (fun _ => Triple.pure fun w h => ⟨_, h⟩) fun _ =>
      Triple.pure fun w h => ⟨_, h⟩

theorem checkSent_local :
    Triple (footprint w₀ a c₀) (Works w₀ a c₀ fun _ => Unforked) (checkSent a)
      (Leaves w₀ a c₀ (Works w₀ a c₀ fun _ => Unforked)) := by
  refine Triple.exists_pre fun c => Triple.bind_eq (getClient_local trivial) ?_
  split
  · exact fault_keeps trivial
  refine Triple.ite (fun _ => ?_) fun _ => Triple.bind (note_idle nofun) fun _ => hangUp_local
  refine Triple.bind systemCall_idle fun y => ?_
  refine Triple.bind (setFields_idle c rfl rfl rfl rfl) fun _ => ?_
  exact Triple.pure fun w h => ⟨_, h⟩

/-- **The EPOLLOUT branch**, for a client without a program. -/
theorem clientWritable_local :
    Triple (footprint w₀ a c₀) (Works w₀ a c₀ fun _ => Unforked) (clientWritable a)
      (Leaves w₀ a c₀ (Works w₀ a c₀ fun _ => Unforked)) :=
  Triple.leaves sendFile_local checkSent_local

end Parts

/-! ## Working on no client -/

/-- From `w₀` on nothing was done to the clients there are, and no program
was started. -/
structure Stays (w₀ w : World) : Prop where
  allocated : w₀.own.fds.allocated ≤ w.own.fds.allocated
  cells : ∀ b d, w₀.own.mem.cell b = some d → w.own.mem.cell b = some d
  untouched : Untouched w₀ [] w
  forked : ∀ n child, Action.cgi child ∈ w.own.log n → Action.cgi child ∈ w₀.own.log n

theorem Stays.refl (w : World) : Stays w w :=
  ⟨Nat.le_refl _, fun _ _ h => h, fun _ hm _ => ⟨hm, rfl⟩, fun _ _ h => h⟩

/-- Something else than a program is noted. -/
theorem cgi_mem_of_noted {log : Nat → List Action} {m n : Nat} {act : Action}
    {child : ChildEnd} (h : ∀ child, act ≠ .cgi child)
    (hm : Action.cgi child ∈ Function.update log m (log m ++ [act]) n) :
    Action.cgi child ∈ log n := by
  by_cases hn : n = m
  · subst hn
    rw [Function.update_self, List.mem_append, List.mem_singleton] at hm
    exact hm.resolve_right fun he => h child he.symm
  · rwa [Function.update_of_ne hn] at hm

theorem note_stays {act : Action} (h : ∀ child, act ≠ .cgi child) :
    Triple (always (Stays w₀)) (Stays w₀) (note fd act) (fun _ => Stays w₀) :=
  Triple.step_map trivial fun _ _ hw _ =>
    { hw with forked := fun _ _ hm => hw.forked _ _ (cgi_mem_of_noted h hm) }

/-- A connection that is turned away was accepted just now. -/
theorem turnAway_stays {m : Menu} :
    Triple (always (Stays w₀))
      (fun w => w₀.own.fds.allocated ≤ w.own.fds.serialOf fd ∧ Stays w₀ w) (turnAway fd m)
      (fun _ => Stays w₀) := by
  refine Triple.bind (R := fun _ w => w₀.own.fds.allocated ≤ w.own.fds.serialOf fd ∧ Stays w₀ w)
    (Triple.step_map trivial fun w _ hw _ => ⟨hw.1, ?_⟩) fun _ => ?_
  · have hmenu : ∀ child, Action.menu m ≠ .cgi child := nofun
    exact { hw.2 with forked := fun _ _ hm => hw.2.forked _ _ (cgi_mem_of_noted hmenu hm) }
  refine Triple.bind (R := fun _ => Stays w₀) ?_ fun _ => Triple.modify fun _ h => { h with }
  refine (closeFd_keeps trivial fun w fds hclose ⟨hle, h⟩ => ?_).post fun _ _ h => h.2
  obtain ⟨hm, rfl⟩ := Heap.closeFd_cases hclose
  refine ⟨hle, { h with untouched := h.untouched.closed hm fun fd' hm' hs he => ?_ }⟩
  -- a descriptor that was open before has a smaller number
  have hserial := (h.untouched fd' hm' hs).2
  have hlt := Heap.serialOf_lt hm'
  rw [he] at hserial hlt
  omega

/-- The client of a new connection is put beside the others. -/
theorem takeConnection_stays {address : Bytes} :
    Triple (always (Stays w₀))
      (fun w => w₀.own.fds.allocated ≤ w.own.fds.serialOf fd ∧ Stays w₀ w)
      (takeConnection fd address) (fun _ => Stays w₀) := by
  refine Triple.bind getServer_keeps fun s => Triple.ite (fun _ => turnAway_stays) fun _ => ?_
  refine Triple.bind (systemCall_keeps fun _ h => h.2) fun y => ?_
  split
  · exact turnAway_stays
  refine Triple.bind (R := fun _ => Stays w₀) (Triple.step fun w ⟨_, h⟩ => ⟨_, _, rfl, ?_⟩)
    fun b => ?_
  · refine { h with cells := fun b d hd => ?_ }
    exact (Heap.alloc_cell_of_live (Heap.mem_live_of_cell (h.cells b d hd))).trans (h.cells b d hd)
  refine Triple.bind
    (Triple.bind systemCall_always fun _ => onLoop_keeps trivial fun _ _ h => { h with })
    fun ret => ?_
  refine Triple.bind (R := fun _ => Stays w₀) ?_ fun _ => Triple.modify fun _ h => { h with }
  cases ret with
  | error e => exact note_stays nofun
  | ok u => exact Triple.pure fun _ h => h

/-- `server_socket` leaves the clients there are alone. -/
theorem serverSocket_stays (events : UInt32) :
    Triple (always (Stays w₀)) (Stays w₀) (serverSocket events) (fun _ => Stays w₀) := by
  refine Triple.ite (fun _ => Triple.bind (R := fun _ => Stays w₀) ?_ fun _ =>
    Triple.pure fun _ h => h) fun _ => Triple.pure fun _ h => h
  refine Triple.iterate (I := fun _ => Stays w₀) (fun _ _ h => h) (fun _ => ?_) ()
  refine Triple.bind getServer_keeps fun s => Triple.bind (useFd_keeps trivial) fun _ => ?_
  refine Triple.bind systemCall_always fun y => ?_
  split
  · exact Triple.pure fun _ h => h
  rename_i want address _
  refine Triple.bind (R := fun fd w => w₀.own.fds.allocated ≤ w.own.fds.serialOf fd ∧ Stays w₀ w)
    (Triple.step fun w h => ⟨_, _, rfl, ?_, ?_⟩) fun fd => ?_
  · show _ ≤ (w.own.fds.openFd want .connection).1.serialOf _
    rw [Heap.openFd_serialOf_self]
    exact h.allocated
  · exact { h with
      allocated := Nat.le_succ_of_le h.allocated
      untouched := h.untouched.opened want .connection }
  refine Triple.bind
    (R := fun _ w => w₀.own.fds.allocated ≤ w.own.fds.serialOf fd ∧ Stays w₀ w)
    (Triple.modify fun _ h => ⟨h.1, { h.2 with }⟩) fun _ => ?_
  exact Triple.bind takeConnection_stays fun _ => Triple.pure fun _ h => h

end Sgopher.Server
