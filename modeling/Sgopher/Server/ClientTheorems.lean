/-
Sgopher.Server.ClientTheorems — the handlers of one client keep the
invariant.

A handler works on its client with the invariant of everybody else in
force (`Busy`); `Held` adds that the client's fields account for its
descriptors, as they must whenever the worker may wait. The calls come
first, each with its rule; then `client_disconnect`, which takes the client
apart descriptor by descriptor; then `client_socket`, along the parts it is
cut into. Every part ends with the client still there and in one of its
standings, or with the client gone and the worker at rest.

No `sorry`, no `axiom`, no `native_decide`.
-/
import Sgopher.Server.InvariantTheorems

namespace Sgopher.Server

open Sgopher.Lib Sgopher.Sepoll

variable {X : Contract Answer World} {x : Context} {a : Nat} {c c' : Client} {P P' : List Int}
  {o : Option File}
  {r : Registration} {m : Option Registration} {L : List Action} {act : Action} {fd : Int}
  {w : World}

/-! ## A client at work -/

/-- A busy client whose fields account for its descriptors; `o` is the file
it has open, where that matters. -/
structure Held (x : Context) (a : Nat) (c : Client) (o : Option File) (m : Option Registration)
    (L : List Action) (w : World) : Prop where
  busy : Busy x a c c.places m L w
  kinds : Kinds w.own.fds c
  opened : ∀ f, o = some f → w.own.fds.object c.file = some (.file f)

theorem Held.waits (h : Held x a c o m L w) : Waits x.mode w :=
  ⟨x, rfl, Or.inr ⟨a, c, h.busy.cell, h.busy.parts⟩⟩

theorem AtRest.waits (h : AtRest x w) : Waits x.mode w := ⟨x, rfl, Or.inl h.parts⟩

theorem Held.forget (h : Held x a c o m L w) : Held x a c none m L w :=
  ⟨h.busy, h.kinds, by simp⟩

theorem Busy.mem_openFds (h : Busy x a c P m L w) (hfd : fd ∈ P) : fd ∈ w.own.fds.openFds :=
  h.parts.isOpen (by simp [hfd])

/-! ## The rules of the calls -/

theorem getClient_held : Triple X (Held x a c o m L) (getClient a)
    (fun r w => r = c ∧ Held x a c o m L w) :=
  Triple.step fun w h => ⟨w, c, by rw [h.busy.cell]; rfl, rfl, h⟩

theorem systemCall_held : Triple (contract x.mode) (Held x a c o m L) systemCall
    (fun _ => Held x a c o m L) :=
  Triple.ask (fun _ h => h.waits) fun _ _ h _ => h

theorem useFd_held (hfd : fd ∈ c.places) : Triple X (Held x a c o m L)
    (useFd fd) (fun _ => Held x a c o m L) :=
  Triple.step fun w h =>
    let ⟨o, ho⟩ := Heap.object_of_mem_openFds (h.busy.mem_openFds hfd)
    ⟨w, o, by rw [ho]; rfl, h⟩

theorem useFile_held {f : File} : Triple X (Held x a c (some f) m L)
    (useFd c.file) (fun o w => o = .file f ∧ Held x a c (some f) m L w) :=
  Triple.step fun w h => ⟨w, .file f, by rw [h.opened f rfl]; rfl, rfl, h⟩

theorem getServer_held : Triple X (Held x a c o m L) getServer
    (fun s w => s = x.server ∧ Held x a c o m L w) :=
  Triple.bind Triple.get fun _ => Triple.pure fun _ h => ⟨h.2 ▸ h.1.busy.server, h.1⟩

/-- An action for the client's connection. -/
theorem note_held (hlog : LogOk x.strict L → LogOk x.strict (L ++ [act])) :
    Triple X (Held x a c o m L) (note c.socket act)
      (fun _ => Held x a c o m (L ++ [act])) := by
  refine Triple.step fun w h => ?_
  refine ⟨_, (), by rw [h.kinds.socket]; rfl, ?_⟩
  refine ⟨⟨?_, h.busy.holding, h.busy.server, h.busy.cell, h.busy.reg, ?_⟩, h.kinds, h.opened⟩
  · have hok := hlog (h.busy.log ▸ h.busy.parts.logs _)
    rw [← h.busy.log] at hok
    exact h.busy.parts.noted (by simp [Client.socket_mem]) hok
  · simp only [Function.update_self, h.busy.log]

/-- The client's record is about to be `c'`, whose descriptors it has
already. -/
structure Becoming (x : Context) (a : Nat) (c c' : Client) (o : Option File)
    (m : Option Registration) (L : List Action) (w : World) : Prop where
  busy : Busy x a c c'.places m L w
  kinds : Kinds w.own.fds c'
  opened : ∀ f, o = some f → w.own.fds.object c'.file = some (.file f)
  socket : c'.socket = c.socket
  pidfd : x.strict → c'.pidfd = c.pidfd ∨ c.pidfd < 0

/-- The client's record is written. -/
theorem setClient_triple : Triple X (Becoming x a c c' o m L) (setClient a c')
    (fun _ => Held x a c' o m L) := by
  refine Triple.step fun w h => ?_
  have ha := Heap.mem_live_of_cell h.busy.cell
  refine ⟨_, (), by rw [Heap.write_eq ha]; rfl, ?_⟩
  refine ⟨⟨h.busy.parts.written h.busy.cell h.socket h.pidfd ha, h.busy.holding, h.busy.server,
      ?_, ?_, ?_⟩,
    h.kinds, h.opened⟩
  · exact Heap.writeLive_cell_self _ _ _ ha
  · rw [h.socket]
    exact h.busy.reg
  · rw [h.socket]
    exact h.busy.log

/-- Fields that are not descriptors change. -/
theorem Held.becoming (h : Held x a c o m L w) (hs : c'.socket = c.socket) (hf : c'.file = c.file)
    (hd : c'.dirfd = c.dirfd) (hp : c'.pidfd = c.pidfd) : Becoming x a c c' o m L w where
  busy := by
    have hplaces : c'.places = c.places := by
      simp only [Client.places, Client.filePlaces, hs, hf, hd, hp]
    exact hplaces ▸ h.busy
  kinds := ⟨hs ▸ h.kinds.socket, hf ▸ h.kinds.file, hd ▸ h.kinds.dirfd, hp ▸ h.kinds.pidfd⟩
  opened := hf ▸ h.opened
  socket := hs
  pidfd _ := Or.inl hp

theorem setClient_held (hs : c'.socket = c.socket) (hf : c'.file = c.file)
    (hd : c'.dirfd = c.dirfd) (hp : c'.pidfd = c.pidfd) :
    Triple X (Held x a c o m L) (setClient a c')
      (fun _ => Held x a c' o m L) :=
  setClient_triple.pre fun _ h => h.becoming hs hf hd hp

/-- A descriptor is closed. -/
theorem closeFd_triple {R : World → Prop} {Q : Unit → World → Prop}
    (h : ∀ w, R w → w.loop.Wf ∧ w.loop.reg fd = none ∧ ∃ hm : fd ∈ w.own.fds.openFds,
      Q () { w with own := { w.own with fds := w.own.fds.closedFd fd hm } }) :
    Triple X R (closeFd fd) Q := by
  refine Triple.step fun w hw => ?_
  obtain ⟨hwf, hreg, hm, hq⟩ := h w hw
  refine ⟨_, (), ?_, hq⟩
  rw [(hwf.reg_none_iff fd).mp hreg, Heap.closeFd_eq hm]
  rfl

/-- No registration is for a file. -/
theorem Parts.reg_file {ex : Option Nat} {l : EventLoop} {k : Worker} {f : File}
    (h : Parts x ex P l k) (ho : k.fds.object fd = some (.file f)) : l.reg fd = none := by
  cases hr : l.reg fd with
  | none => rfl
  | some r =>
    cases h.regs fd r hr with
    | socket _ _ _ _ _ _ ho' => rw [ho] at ho'; cases ho'
    | pidfd _ _ _ _ ho' => rw [ho] at ho'; cases ho'
    | server _ _ _ ho' => rw [ho] at ho'; cases ho'

/-! ## A client's descriptors change -/

/-- Other descriptors account for the client, and those it gives up it did
not have, where none may be lost. -/
theorem Busy.dropped {Q : List Int} (h : Busy x a c P m L w) (hp : P.Perm (Q ++ P'))
    (hs : x.strict → Q = []) : Busy x a c P' m L w :=
  { h with parts := (h.parts.places_perm hp).dropped hs }

/-- The directory's descriptor moves to its own field. -/
theorem Held.toDirfd (h : Held x a c o m L w) (h0 : 0 ≤ c.file) (hd : c.dirfd = -1) :
    Becoming x a c { c with dirfd := c.file } o m L w where
  busy := by
    have hne : c.file ≠ -1 := by omega
    have hplaces : Client.places { c with dirfd := c.file } = c.places := by
      simp [Client.places, Client.filePlaces, hd, hne, held]
    exact hplaces ▸ h.busy
  kinds := { h.kinds with dirfd := h.kinds.file }
  opened := h.opened
  socket := rfl
  pidfd _ := Or.inl rfl

/-- The file is forgotten. -/
theorem Held.noFile (h : Held x a c o m L w) (hs : x.strict → c.filePlaces = []) :
    Becoming x a c { c with file := -1 } none m L w where
  busy := by
    refine h.busy.dropped (Q := c.filePlaces) ?_ hs
    have hnone : Client.filePlaces { c with file := -1 } = [] := by
      simp [Client.filePlaces, held]
    simp only [Client.places, hnone, List.nil_append, List.append_assoc]
    exact List.perm_middle.symm
  kinds := { h.kinds with file := fun h0 => absurd h0 (by simp) }
  opened := by simp
  socket := rfl
  pidfd _ := Or.inl rfl

/-- A new descriptor, for a field that has none. -/
theorem openFd_held {want : Int} {ob : Object} :
    Triple X (Held x a c o m L) (openFd want ob)
      (fun fd w => 0 ≤ fd ∧ Busy x a c (fd :: c.places) m L w ∧ Kinds w.own.fds c ∧
        (∀ f, o = some f → w.own.fds.object c.file = some (.file f)) ∧
        w.own.fds.object fd = some ob ∧ fd ∉ c.places) := by
  refine Triple.step fun w h => ⟨_, _, rfl, ?_⟩
  have hmem : ∀ fd ∈ c.places, fd ∈ w.own.fds.openFds := fun fd hfd => h.busy.mem_openFds hfd
  have hsame : ∀ fd ∈ c.places,
      (w.own.fds.openFd want ob).1.object fd = w.own.fds.object fd :=
    fun fd hfd => Heap.openFd_object_of_mem (hmem fd hfd)
  have hroom : (c.places ++ w.own.others (some a)).length ≤ 4 * w.own.mem.live.length := by
    rw [← (Worker.others_none h.busy.cell).length_eq, Worker.others_all]
    exact w.own.clientPlaces_length _
  refine ⟨?_, ⟨h.busy.parts.opened h.busy.holding hroom want ob, h.busy.holding, h.busy.server,
      h.busy.cell, h.busy.reg, ?_⟩,
    h.kinds.congr hsame, ?_, Heap.openFd_object_self .., ?_⟩
  · have := Heap.openFd_ge w.own.fds want ob
    omega
  · show w.own.log ((w.own.fds.openFd want ob).1.serialOf c.socket) = L
    rw [Heap.openFd_serialOf_of_mem (hmem _ c.socket_mem)]
    exact h.busy.log
  · intro f hf
    have hfile := h.opened f hf
    exact (hsame _ (Client.file_mem (Heap.nonneg_of_object hfile))).trans hfile
  · exact fun hm => Heap.openFd_not_mem w.own.fds want ob (hmem _ hm)

/-- A file is opened. -/
theorem openFd_file {want : Int} {f : File} (hs : x.strict → c.filePlaces = []) :
    Triple X (Held x a c o m L) (openFd want (.file f))
      (fun fd w => (0 ≤ fd ∧ fd ≠ c.dirfd) ∧
        Becoming x a c { c with file := fd } (some f) m L w) := by
  refine openFd_held.post fun fd w ⟨h0, hb, hk, _, hobj, hnew⟩ => ?_
  have hne : fd ≠ c.dirfd := fun he => hnew (he ▸ Client.dirfd_mem (he ▸ h0))
  refine ⟨⟨h0, hne⟩, ?_, { hk with file := fun _ => ⟨f, hobj⟩ }, ?_, rfl, fun _ => Or.inl rfl⟩
  · refine hb.dropped (Q := c.filePlaces) ?_ hs
    have hfile : Client.filePlaces { c with file := fd } = [fd] := by
      simp [Client.filePlaces, hne, held, h0]
    simp only [Client.places, hfile]
    rw [List.perm_iff_count]
    intro b
    simp only [List.count_append, List.count_cons, List.count_nil]
    omega
  · rintro f' hf
    exact Option.some.inj hf ▸ hobj

/-- A program is started. -/
theorem openFd_process {want : Int} (hs : x.strict → c.pidfd = -1) :
    Triple X (Held x a c o m L) (openFd want .process)
      (fun fd w => 0 ≤ fd ∧ Becoming x a c { c with pidfd := fd } o m L w) := by
  refine openFd_held.post fun fd w ⟨h0, hb, hk, ho, hobj, _⟩ => ?_
  refine ⟨h0, ?_, { hk with pidfd := fun _ => hobj }, ho, rfl, fun h => Or.inr ?_⟩
  · refine hb.dropped (Q := held c.pidfd) ?_ fun h => by simp [held, hs h]
    have hpid : held fd = [fd] := if_pos h0
    simp only [Client.places, Client.filePlaces, hpid]
    rw [List.perm_iff_count]
    intro b
    simp only [List.count_append, List.count_cons, List.count_nil]
    omega
  · rw [hs h]
    decide

/-- A field's descriptor is closed. -/
theorem closeField_triple {R : World → Prop} (hR : ∀ w, R w → Held x a c o m L w ∧
      w.loop.reg fd = none) (hperm : c.places.Perm (fd :: c'.places))
    (hs : c'.socket = c.socket) (hp : c'.pidfd = c.pidfd)
    (hf : c'.file = c.file ∨ c'.file = -1 ∧ o = none)
    (hd : c'.dirfd = c.dirfd ∨ c'.dirfd = -1) :
    Triple X R (closeFd fd) (fun _ => Becoming x a c c' o m L) := by
  refine closeFd_triple fun w hw => ?_
  obtain ⟨h, hreg⟩ := hR w hw
  have hm : fd ∈ w.own.fds.openFds := h.busy.mem_openFds (hperm.mem_iff.mpr (by simp))
  have hparts := h.busy.parts.places_perm hperm
  have hnd : fd ∉ c'.places := by
    have hnd := (List.nodup_append.mp (List.nodup_append.mp hparts.owned.nodup).1).2.1
    exact (List.nodup_cons.mp hnd).1
  have hsame : ∀ fd' ∈ c'.places,
      (w.own.fds.closedFd fd hm).object fd' = w.own.fds.object fd' := fun fd' hfd' =>
    Heap.closedFd_object_of_ne hm fun he => hnd (he ▸ hfd')
  have hkinds : Kinds w.own.fds c' := by
    refine ⟨hs ▸ h.kinds.socket, fun h0 => ?_, fun h0 => ?_, hp ▸ h.kinds.pidfd⟩
    · rcases hf with hf | hf
      · exact hf ▸ h.kinds.file (hf ▸ h0)
      · omega
    · rcases hd with hd | hd
      · exact hd ▸ h.kinds.dirfd (hd ▸ h0)
      · omega
  refine ⟨h.busy.parts.wf, hreg, hm, ⟨hparts.closed hreg hm, h.busy.holding, h.busy.server,
    h.busy.cell,
    h.busy.reg, h.busy.log⟩, hkinds.congr hsame, ?_, hs, fun _ => Or.inl hp⟩
  intro f ho
  rcases hf with hf | hf
  · have hfile := hf ▸ h.opened f ho
    exact (hsame _ (Client.file_mem (Heap.nonneg_of_object hfile))).trans hfile
  · rw [hf.2] at ho
    cases ho

/-- The file and the directory of a client are different descriptors. -/
def Client.Apart (c : Client) : Prop := 0 ≤ c.file → c.file ≠ c.dirfd

theorem Settled.apart (h : Settled c) : c.Apart := fun _ => by
  have := h.dirfd
  omega

theorem Client.Apart.filePlaces (h : c.Apart) : c.filePlaces = held c.file := by
  unfold Client.filePlaces
  split
  · rename_i he
    rw [held, if_neg fun h0 => h h0 he]
  · rfl

/-- The file is closed. -/
theorem closeFile_triple (hc : c.Apart) (h0 : 0 ≤ c.file) :
    Triple X (Held x a c o m L) (closeFd c.file)
      (fun _ => Becoming x a c { c with file := -1 } none m L) := by
  refine closeField_triple (fun w h => ⟨h.forget, ?_⟩) ?_ rfl rfl (Or.inr ⟨rfl, rfl⟩) (Or.inl rfl)
  · exact h.busy.parts.reg_file (h.kinds.file h0).choose_spec
  · have hnone : Client.filePlaces { c with file := -1 } = [] := by
      simp [Client.filePlaces, held]
    simp only [Client.places, hnone, hc.filePlaces, held, if_pos h0]
    exact List.Perm.swap ..

/-- The directory is closed. -/
theorem closeDirfd_triple (hc : c.Apart) (h0 : 0 ≤ c.dirfd) :
    Triple X (Held x a c o m L) (closeFd c.dirfd)
      (fun _ => Becoming x a c { c with dirfd := -1 } o m L) := by
  refine closeField_triple (fun w h => ⟨h, ?_⟩) ?_ rfl rfl (Or.inl rfl) (Or.inr rfl)
  · exact h.busy.parts.reg_file (h.kinds.dirfd h0).choose_spec
  · have hfile : Client.filePlaces { c with dirfd := -1 } = held c.file := by
      unfold Client.filePlaces
      split
      · rename_i he
        rw [held, if_neg (by simp only at he; omega)]
      · rfl
    have hnone : held (-1) = [] := by simp [held]
    have hdir : held c.dirfd = [c.dirfd] := if_pos h0
    simp only [Client.places, hfile, hc.filePlaces, hnone, hdir]
    rw [List.perm_iff_count]
    intro b
    simp only [List.count_append, List.count_cons, List.count_nil]
    omega

/-! ## Disconnecting -/

/-- A client that is taken apart: `P` is what it still holds, `gone` what
is not registered any more. -/
structure Leaving (x : Context) (a : Nat) (c : Client) (P gone : List Int)
    (log : Nat → List Action) (w : World) : Prop where
  parts : Parts x (some a) P w.loop w.own
  holding : w.own.holding = .nothing
  server : w.own.server = x.server
  cell : w.own.mem.cell a = some c
  gone : ∀ fd ∈ gone, w.loop.reg fd = none
  log : w.own.log = log

variable {gone : List Int} {log : Nat → List Action}

theorem Leaving.perm (h : Leaving x a c P gone log w) (hp : P.Perm P') :
    Leaving x a c P' gone log w := { h with parts := h.parts.places_perm hp }

theorem Leaving.closeFd_triple (hfd : fd ∈ gone) :
    Triple X (Leaving x a c (fd :: P) gone log) (closeFd fd)
      (fun _ => Leaving x a c P gone log) := by
  refine Server.closeFd_triple fun w h => ⟨h.parts.wf, h.gone fd hfd, ?_⟩
  have hm : fd ∈ w.own.fds.openFds := h.parts.isOpen (by simp)
  exact ⟨hm, h.parts.closed (h.gone fd hfd) hm, h.holding, h.server, h.cell, h.gone, h.log⟩

theorem Leaving.remove_triple :
    Triple X (Leaving x a c (fd :: P) gone log) (sepollRemove fd)
      (fun _ => Leaving x a c (fd :: P) (fd :: gone) log) := by
  refine onLoop_triple fun w h => ?_
  obtain ⟨l, ret, hr, hwf, hkept, hreg⟩ := h.parts.wf.remove_spec fd
  refine ⟨l, ret, hr, ?_, h.holding, h.server, h.cell, ?_, h.log⟩
  · refine h.parts.reloop hwf hkept hreg ?_ (by simp) (by simp)
    exact fun b d hb hd => h.parts.other_ne (by simp)
      (Worker.mem_others.mpr ⟨b, d, hb, hd, d.socket_mem⟩)
  · intro fd' hfd'
    show l.reg fd' = none
    rw [hreg]
    by_cases he : fd' = fd
    · rw [he, Function.update_self]
    · rw [Function.update_of_ne he]
      exact h.gone fd' (by simpa [he] using hfd')

/-- A file is closed if there is one. -/
theorem Leaving.closeIf_triple (hfd : 0 ≤ fd → fd ∈ gone) :
    Triple X (Leaving x a c (held fd ++ P) gone log)
      (Prog.when (0 ≤ fd) (closeFd fd)) (fun _ => Leaving x a c P gone log) := by
  unfold held
  refine Triple.when (fun h0 => ?_) fun h0 w h => ?_
  · rw [if_pos h0]
    exact Leaving.closeFd_triple (hfd h0)
  · rwa [if_neg h0] at h

/-- A program's descriptor is removed from the loop and closed, if there is
one. -/
theorem Leaving.removeIf_triple :
    Triple X (Leaving x a c (held fd ++ P) gone log)
      (Prog.when (0 ≤ fd) do
        let _ ← sepollRemove fd
        closeFd fd)
      (fun _ => Leaving x a c P (held fd ++ gone) log) := by
  unfold held
  refine Triple.when (fun h0 => ?_) fun h0 w h => ?_
  · rw [if_pos h0]
    exact Triple.bind Leaving.remove_triple fun _ => Leaving.closeFd_triple (by simp)
  · rwa [if_neg h0] at h ⊢

/-- The client is freed when it holds nothing any more. -/
theorem Leaving.freeClient_triple (hs : c.socket ∈ gone) (hp : 0 ≤ c.pidfd → c.pidfd ∈ gone) :
    Triple X (Leaving x a c [] gone log) (freeClient a)
      (fun _ w => AtRest x w ∧ w.own.log = log ∧
        w.own.server.clients = x.server.clients.erase a) := by
  refine Triple.step fun w h => ?_
  have ha := Heap.mem_live_of_cell h.cell
  obtain ⟨hmem, hparts⟩ := h.parts.freed h.cell h.holding (h.gone _ hs)
    (fun h0 => h.gone _ (hp h0)) ha
  refine ⟨_, (), by rw [if_pos hmem, Heap.free_eq ha]; rfl, ?_⟩
  exact ⟨⟨hparts, h.holding⟩, h.log, h.server ▸ rfl⟩

theorem Client.places_perm (h : c.Apart) :
    c.places.Perm (held c.file ++ (held c.dirfd ++ (held c.pidfd ++ [c.socket]))) := by
  unfold Client.places
  rw [h.filePlaces, ← List.append_assoc, ← List.append_assoc]
  exact (List.perm_append_singleton _ _).symm

/-- **`client_disconnect`** closes everything the client holds, takes its
registrations away and frees it, and nothing is logged. -/
theorem clientDisconnect_triple (hc : c.Apart) :
    Triple X (fun w => Held x a c o m L w ∧ w.own.log = log)
      (clientDisconnect a) (fun _ w => AtRest x w ∧ w.own.log = log ∧
        w.own.server.clients = x.server.clients.erase a) := by
  refine Triple.bind_eq (v := c) (R := Leaving x a c c.places (held c.file ++ held c.dirfd) log)
    (Triple.step fun w h => ⟨w, c, by rw [h.1.busy.cell]; rfl, rfl, ?_⟩) ?_
  · refine ⟨h.1.busy.parts, h.1.busy.holding, h.1.busy.server, h.1.busy.cell, ?_, h.2⟩
    intro fd hfd
    have hfile : ∃ f, w.own.fds.object fd = some (.file f) := by
      simp only [held, List.mem_append] at hfd
      rcases hfd with hfd | hfd <;> split at hfd <;>
        simp only [List.mem_singleton, List.not_mem_nil] at hfd
      · exact hfd ▸ h.1.kinds.file ‹_›
      · exact hfd ▸ h.1.kinds.dirfd ‹_›
    exact h.1.busy.parts.reg_file hfile.choose_spec
  · refine Triple.bind ((Leaving.closeIf_triple (by simp +contextual [held])).pre
      fun w h => h.perm (Client.places_perm hc)) fun _ => ?_
    refine Triple.bind (Leaving.closeIf_triple (by simp +contextual [held])) fun _ => ?_
    refine Triple.bind Leaving.removeIf_triple fun _ => ?_
    refine Triple.bind Leaving.remove_triple fun _ => ?_
    refine Triple.bind (Leaving.closeFd_triple (by simp)) fun _ => ?_
    exact Leaving.freeClient_triple (by simp) (by simp +contextual [held])

/-! ## Whether the caller goes on -/

/-- A part that may disconnect the client leaves it in `Φ`, or is through
with it. -/
def GoesOn (x : Context) (Φ : World → Prop) (more : Bool) (w : World) : Prop :=
  if more then Φ w else AtRest x w

variable {Φ Ψ R : World → Prop}

theorem Triple.goesOn {m f : Program Bool}
    (hm : Triple X R m (GoesOn x Φ))
    (hf : Triple X Φ f (GoesOn x Ψ)) :
    Triple X R
      (do
        let more ← m
        if more then f else pure false) (GoesOn x Ψ) := by
  refine Triple.bind hm fun more => ?_
  cases more with
  | true => exact hf.pre fun _ h => h
  | false => exact Triple.pure fun _ h => h

/-- `client_disconnect`, for a client nothing more is said of. -/
theorem hangUp_triple (hc : c.Apart) :
    Triple X (Held x a c o m L) (hangUp a) (GoesOn x Φ) := by
  refine Triple.ghost (fun w => w.own.log) fun log => ?_
  exact Triple.bind (clientDisconnect_triple hc) fun _ => Triple.pure fun _ h => h.1

/-- An error menu for a connection that got nothing yet. -/
theorem refuse_triple {msg : Menu} (hc : c.Apart) (hq : Silent L) :
    Triple X (Held x a c o m L) (refuse a msg) (GoesOn x Φ) := by
  refine Triple.bind_eq getClient_held ?_
  refine Triple.bind (note_held fun h => h.menu (hq.menu msg)) fun _ => ?_
  exact hangUp_triple hc

/-- `pidfd_kill_client`: the client stays until its program has ended, or
goes if the program cannot be killed. -/
theorem pidfdKillClient_triple (hc : c.Apart) (hp : 0 ≤ c.pidfd) :
    Triple (contract x.mode) (Held x a c o m L) (pidfdKillClient a)
      (fun _ w => AtRest x w ∧ w.own.server.clients = x.server.clients.erase a ∨
        Held x a c o m L w) := by
  refine Triple.bind_eq getClient_held ?_
  refine Triple.bind (useFd_held (Client.pidfd_mem hp)) fun _ => ?_
  refine Triple.bind systemCall_held fun y => ?_
  refine Triple.when (fun _ => ?_) fun _ _ h => Or.inr h
  refine Triple.ghost (fun w => w.own.log) fun log => ?_
  exact (clientDisconnect_triple hc).post fun _ _ h => Or.inl ⟨h.1, h.2.2⟩

end Sgopher.Server
