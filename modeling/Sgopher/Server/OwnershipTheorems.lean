/-
Sgopher.Server.OwnershipTheorems — the worker's clients and descriptors
over whole runs.

Both results hold of runs in which the kernel changes every mask it is
asked to. The worker does not look at the result of `sepoll_mod_events`,
so where a change is refused a client whose request was taken is read from
once more: the file it had open is forgotten, and the callback of its
first program outlives it. The two runs at the ends of the sections do
that.

No `sorry`, no `axiom`, no `native_decide`.
-/
import Sgopher.Server.RunTheorems

namespace Sgopher.Server

open Sgopher.Lib Sgopher.Sepoll

variable {w : World} {ans : List Answer}

/-! ## Clients -/

/-- The list, the count and the callbacks agree on the clients there are. -/
structure ClientsKept (w : World) : Prop where
  count : w.own.server.numClients.toNat = w.own.server.clients.length
  nodup : w.own.server.clients.Nodup
  live : w.own.mem.live.Perm (w.own.holding.clients ++ w.own.server.clients)
  room : w.own.server.numClients ≤ w.own.server.params.maxClients
  callbacks : ∀ fd r, w.loop.reg fd = some r →
    r.function = some .clientSocket ∨ r.function = some .clientPidfd →
    ∃ a ∈ w.own.mem.live, r.userdata2 = .client a

theorem Parts.clientsKept {x : Context} {ex : Option Nat} {P : List Int} (hx : x.strict)
    (h : Parts x ex P w.loop w.own) : ClientsKept w where
  count := h.count
  nodup := (List.nodup_append.mp (h.live.nodup_iff.mp w.own.mem.live_nodup)).2.1
  live := h.live
  room := by
    have := h.room
    rw [UInt32.le_iff_toNat_le, h.count]
    omega
  callbacks fd r hr hf := by
    cases h.regs fd r hr with
    | socket a c _ hu hc _ _ => exact ⟨a, Heap.mem_live_of_cell hc, hu⟩
    | pidfd a _ hu hc _ =>
      obtain ⟨c, hc, _⟩ := hc hx
      exact ⟨a, Heap.mem_live_of_cell hc, hu⟩
    | server g hg hh _ =>
      rw [hg] at hf
      rcases hh with rfl | rfl | rfl <;> simp at hf

/-- No change of a mask is refused. -/
def MasksChange (ans : List Answer) : Prop := ∀ y ∈ ans, y.loop.ctlMod = none

theorem MasksChange.answers (h : MasksChange ans) :
    ∀ y ∈ ans, (contract .masks).answers y := fun y hy => ⟨fun _ => h y hy, False.elim⟩

/-- **Clients are never lost, counted twice or used after being freed.** In
every run the clients in the list are exactly the clients there are (but
for one that is being accepted), the count is their number and at most the
maximum, and every callback of a client has one. No run, to the end of the
cleaning up, touches a client that was freed or counts below zero; and
when it has ended every client was freed once. -/
theorem clients_kept (size : Int) (params : Params) (d g t s e : Int)
    (hmod : MasksChange ans) :
    (serverLoop (started size params d g t s e) ans).Always ClientsKept ∧
      serverLoop (started size params d g t s e) ans ≠ .fault ∧
      serverProcess (started size params d g t s e) ans ≠ .fault ∧
      ∀ w rest, serverProcess (started size params d g t s e) ans = .done () w rest →
        w.own.mem.freed.Perm (List.range w.own.mem.allocated) := by
  have hstart : Starts .masks (started size params d g t s e) :=
    .started False.elim params d g t s e
  refine ⟨?_, ?_, ?_, ?_⟩
  · refine ((serverLoop_triple .masks) _ ans hstart hmod.answers).always ?_ ?_
    · rintro w ⟨x, hx, h | ⟨_, _, _, h⟩⟩ <;> exact h.clientsKept (Context.strict_of_masks hx)
    · rintro _ w ⟨⟨x, hx, h⟩, _⟩
      exact h.parts.clientsKept (Context.strict_of_masks hx)
  · exact (serverLoop_triple .masks).not_fault hstart hmod.answers (fun h => h trivial)
  · exact (serverProcess_triple .masks).not_fault hstart hmod.answers (fun h => h trivial)
  · intro w rest hrun
    exact Heap.freed_perm_of_live_nil
      ((serverProcess_triple .masks).done hstart hmod.answers hrun).1.clients

/-- Two clients are allowed in the runs below. The worker's descriptors are
those from 3 to 7; 6 is the listening socket. -/
def smallParams : Params := ⟨ascii "localhost", 70, 2, 30, ascii "gopherroot", ascii "index"⟩

abbrev smallWorker : World := started 5 smallParams 3 4 5 6 7

/-- What holds of a worker after some batches is reachable. -/
theorem reachable_after {n : ℕ} {p : World → Prop} {w₀ : World} (hw₀ : Starts .any w₀)
    (h : ((do register; batches n : Program Int) w₀ ans).Returns fun _ => p) :
    ∃ w, Reachable .any w ∧ p w := by
  obtain ⟨_, w, _, hrun, hw⟩ := h.state
  exact ⟨w, ((Triple.bind (register_reachable .any) fun _ => batches_reachable .any n).done
    hw₀ (fun _ _ => ⟨False.elim, False.elim⟩) hrun).1, hw⟩

theorem reachable_of_batches {n : ℕ} {p : World → Prop}
    (h : ((do register; batches n : Program Int) smallWorker ans).Returns fun _ => p) :
    ∃ w, Reachable .any w ∧ p w := reachable_after (.started False.elim ..) h

/-- What the system answers where nothing of it is read: a call that would
block, or one that succeeds. -/
def again : Answer := { time := 0 }

/-- The registrations, and a client on descriptor 8 that asks for "a". -/
def asked : List Answer :=
  [{ loop := { malloc := some 1 } }, { loop := { malloc := some 2 } },
    { loop := { malloc := some 3 } }, { loop := { wait := .ready [(6, EPOLLIN)] } },
    { accept := .ok (8, ascii "127.0.0.1") }, { malloc := some 1 },
    { loop := { malloc := some 4 } }, again,
    { loop := { wait := .ready [(8, EPOLLIN)] } }, { read := .ok (ascii "a" ++ [CR, LF]) }, again]

/-- A file of two bytes, and a program. -/
def smallFile : File := ⟨S_IFREG, 2, ascii "hi"⟩
def smallProgram : File := ⟨S_IFREG ||| S_IXOTH, 2, ascii "hi"⟩

/-- The file is sent in two parts, and the worker is told to stop. -/
def servedFile : List Answer :=
  asked ++ [{ openat := .ok (9, smallFile) }, again, again, again,
    { loop := { wait := .ready [(8, EPOLLOUT)] } }, { sendfile := .ok 1 }, again, again,
    { loop := { wait := .ready [(8, EPOLLOUT)] } }, { sendfile := .ok 1 },
    { loop := { wait := .ready [(4, EPOLLIN)] } }, { signal := .ok SIGTERM }, again]

/-- A program is started, and the mask of the socket is not changed; so the
client is read from again, and another program is started. -/
def startedTwice : List Answer :=
  asked ++ [{ openat := .ok (9, smallProgram) }, again, { fork := some ⟨10, {}⟩ },
    { loop := { ctlMod := some .ENOMEM } }, { loop := { malloc := some 5 } }, again,
    { loop := { wait := .ready [(8, EPOLLIN)] } }, { read := .ok (ascii "b") }, again,
    { openat := .ok (11, smallProgram) }, again, { fork := some ⟨12, {}⟩ }, again,
    { loop := { malloc := some 6 } }, again]

/-- The second program ends, and the client with it. -/
def endedOnce : List Answer := startedTwice ++ [{ loop := { wait := .ready [(12, EPOLLIN)] } }]

/-- A client is served, and the worker stops. -/
theorem clients_kept_served :
    (serverLoop (started 5 smallParams 3 4 5 6 7) servedFile).Always ClientsKept ∧
      serverLoop (started 5 smallParams 3 4 5 6 7) servedFile ≠ .fault ∧
      serverProcess (started 5 smallParams 3 4 5 6 7) servedFile ≠ .fault ∧
      ∀ w rest, serverProcess (started 5 smallParams 3 4 5 6 7) servedFile = .done () w rest →
        w.own.mem.freed.Perm (List.range w.own.mem.allocated) :=
  clients_kept 5 smallParams 3 4 5 6 7 (by unfold MasksChange; decide)

/-- Where a mask is not changed, the callback of the first program is left
without its client, and when it is called the client is used after it was
freed. -/
theorem clients_lost :
    (∃ w, serverLoop smallWorker endedOnce = .stopped w ∧ ¬ ClientsKept w) ∧
      serverLoop smallWorker (endedOnce ++ [{ loop := { wait := .ready [(10, EPOLLIN)] } }])
        = .fault := by
  constructor
  · have h : (serverLoop smallWorker endedOnce).Stops fun w => w.own.mem.live = [] ∧
        (w.loop.reg 10).map Reg.function = some (some .clientPidfd) := by decide +kernel
    obtain ⟨w, hw, hlive, hreg⟩ := h.state
    refine ⟨w, hw, fun hk => ?_⟩
    obtain ⟨r, hr, hf⟩ := Option.map_eq_some_iff.mp hreg
    obtain ⟨a, ha, _⟩ := hk.callbacks 10 r hr (Or.inr hf)
    simp [hlive] at ha
  · exact Outcome.eq_fault (by decide +kernel)

/-! ## Descriptors -/

/-- Every open descriptor has one owner: the server, as long as it is not
cleaned up, the handler that has just accepted it, or one field of one
client. With the three standard ones there were never more at once than
the worker raised its limit to, between two calls as little as at one. -/
structure DescriptorsKept (w : World) : Prop where
  owned : ∃ own, own ⊆ w.own.server.places ++ w.own.holding.places ∧
    w.own.fds.openFds.Perm (own ++ w.own.mem.live.flatMap w.own.clientPlaces)
  budget : 3 + w.own.fds.peak
    ≤ FDS_SERVER + FDS_CLIENT * w.own.server.params.maxClients.toNat

/-- So no more are open than the budget allows. -/
theorem DescriptorsKept.openFds_le (h : DescriptorsKept w) :
    3 + w.own.fds.openFds.length
      ≤ FDS_SERVER + FDS_CLIENT * w.own.server.params.maxClients.toNat :=
  (Nat.add_le_add_left w.own.fds.openFds_le_peak 3).trans h.budget

/-- The places of a table nothing is lost from. -/
theorem Owned.perm_openFds {h : Heap Object} {places : List Int} (ho : h.Owned True places) :
    h.openFds.Perm places :=
  (List.perm_ext_iff_of_nodup h.openFds_nodup ho.nodup).mpr fun fd =>
    ⟨ho.all trivial fd, ho.isOpen fd⟩

/-- Where the places are those of the server, of the handler and of all
clients, everything is kept. -/
theorem DescriptorsKept.intro (own : List Int)
    (hown : own ⊆ w.own.server.places ++ w.own.holding.places)
    (ho : w.own.fds.Owned True (own ++ w.own.mem.live.flatMap w.own.clientPlaces))
    (hbudget : 3 + w.own.fds.peak
      ≤ FDS_SERVER + FDS_CLIENT * w.own.server.params.maxClients.toNat) :
    DescriptorsKept w := ⟨⟨own, hown, Owned.perm_openFds ho⟩, hbudget⟩

theorem Waits.descriptorsKept (h : Waits .masks w) : DescriptorsKept w := by
  obtain ⟨x, hx, h⟩ := h
  have hall : ∃ ex P, Parts x ex P w.loop w.own ∧
      (P ++ w.own.others ex).Perm (w.own.mem.live.flatMap w.own.clientPlaces) := by
    rcases h with h | ⟨a, c, hc, h⟩
    · exact ⟨none, [], h, by rw [Worker.others_all]; exact List.Perm.refl _⟩
    · exact ⟨some a, c.places, h, by
        rw [← Worker.others_all]; exact (Worker.others_none hc).symm⟩
  obtain ⟨ex, P, h, hperm⟩ := hall
  have howned := h.owned
  rw [Context.strict, hx, List.append_assoc] at howned
  exact DescriptorsKept.intro (w.own.server.places ++ w.own.holding.places)
    (List.Subset.refl _) (howned.perm (hperm.append_left _))
    (h.budget (Context.strict_of_masks hx))

theorem Cleaning.descriptorsKept {s : ServerState} {P : List Int} {rest : List Nat}
    (h : Cleaning .masks s P rest rest w) (hP : P ⊆ s.places) : DescriptorsKept w := by
  have hs := h.server
  have howned := h.owned.perm ((h.live.symm.flatMap_right w.own.clientPlaces).append_left P)
  refine DescriptorsKept.intro P (fun fd hfd => ?_) howned (hs ▸ h.budget trivial)
  rw [hs]
  exact List.mem_append_left _ (hP hfd)

/-- **Descriptors have one owner each, and are closed once.** From its
registrations until it has cleaned up a worker keeps every descriptor it
opened in one place, stays within its limit, closes no descriptor it does
not own and uses none it has closed; and in the end each descriptor it
ever had was closed exactly once. -/
theorem descriptors_kept (size : Int) (params : Params) (d g t s e : Int)
    (hmod : MasksChange ans) :
    (serverProcess (started size params d g t s e) ans).Always DescriptorsKept ∧
      serverProcess (started size params d g t s e) ans ≠ .fault ∧
      ∀ w rest, serverProcess (started size params d g t s e) ans = .done () w rest →
        w.own.fds.openFds = [] ∧ w.own.fds.freed.Perm (List.range w.own.fds.allocated) := by
  have hstart : Starts .masks (started size params d g t s e) :=
    .started False.elim params d g t s e
  refine ⟨?_, ?_, ?_⟩
  · refine ((serverProcess_triple .masks) _ ans hstart hmod.answers).always ?_ ?_
    · rintro w (h | ⟨s, P, rest, hP, -, h⟩)
      · exact h.descriptorsKept
      · exact h.descriptorsKept hP
    · intro _ w h
      have hopen : w.own.fds.openFds = [] := congrArg _ (h.descriptors trivial)
      exact ⟨⟨[], by simp, by simp [hopen, h.clients]⟩, h.budget trivial⟩
  · exact (serverProcess_triple .masks).not_fault hstart hmod.answers (fun h => h trivial)
  · intro w rest hrun
    have h := ((serverProcess_triple .masks).done hstart hmod.answers hrun).1.descriptors trivial
    exact ⟨congrArg _ h, Heap.freed_perm_of_live_nil h⟩

theorem descriptors_kept_served :
    (serverProcess (started 5 smallParams 3 4 5 6 7) servedFile).Always DescriptorsKept ∧
      serverProcess (started 5 smallParams 3 4 5 6 7) servedFile ≠ .fault ∧
      ∀ w rest, serverProcess (started 5 smallParams 3 4 5 6 7) servedFile = .done () w rest →
        w.own.fds.openFds = [] ∧ w.own.fds.freed.Perm (List.range w.own.fds.allocated) :=
  descriptors_kept 5 smallParams 3 4 5 6 7 (by unfold MasksChange; decide)

/-- A program is started in a directory. -/
def startedInside : List Answer :=
  asked ++ [{ openat := .ok (9, ⟨S_IFDIR ||| S_IXOTH, 0, []⟩) }, again,
    { openat := .ok (10, smallProgram) }, again, { fork := some ⟨11, {}⟩ }]

/-- Besides the worker's own five a client needs `FDS_CLIENT` descriptors
between the call that forks and `close(client->file)`; at the next call it
is one less. -/
example :
    (serverProcess (started 5 { smallParams with maxClients := 1 } 3 4 5 6 7) startedInside).Stops
      fun w => w.own.fds.openFds.length = 8 ∧ w.own.fds.peak = 9 := by
  decide +kernel

/-- Where a mask is not changed, the descriptor of the first program is
open and nobody's. -/
theorem descriptors_lost :
    ∃ w, serverProcess smallWorker startedTwice = .stopped w ∧ ¬ DescriptorsKept w := by
  have h : (serverProcess smallWorker startedTwice).Stops fun w => 10 ∈ w.own.fds.openFds ∧
      10 ∉ w.own.server.places ++ w.own.holding.places ∧
      10 ∉ w.own.mem.live.flatMap w.own.clientPlaces := by decide +kernel
  obtain ⟨w, hw, hopen, hown, hclients⟩ := h.state
  refine ⟨w, hw, fun hk => ?_⟩
  obtain ⟨own, hsub, hperm⟩ := hk.owned
  rcases List.mem_append.mp (hperm.mem_iff.mp hopen) with hm | hm
  · exact hown (hsub hm)
  · exact hclients hm

end Sgopher.Server
