/-
Sgopher.Server.AbandonTheorems — no CGI program is abandoned.

The log of a connection says for good that a program was started for it.
From then on there is a client with that connection whose `pidfd` is set
(`Kept`), until the account has a reason why it may be gone: the program
has ended, it could not be killed, or the worker is cleaning up and has
sent it `SIGKILL`. A part that works on one client keeps this by what
`Local` and `Left` say; the timer, the error branch and the cleaning up
look at `pidfd` before they disconnect.

That nothing is closed before comes from the invariant of the worker,
which holds of the worker with an account as it does of the one without.

No `sorry`, no `axiom`, no `native_decide`.
-/
import Sgopher.Server.SweepTheorems

namespace Sgopher.Server

open Sgopher.Lib Sgopher.Sepoll

variable {x : Context} {a m : Nat} {c c₀ : Client} {k : Worker} {w w₀ : World}
  {tr tr' : List Event}

/-! ## What is meant -/

/-- The client of a connection is there, its socket is open, and so is the
descriptor of its program. -/
def Worker.Attended (k : Worker) (m : Nat) : Prop :=
  ∃ a c, k.mem.cell a = some c ∧ k.fds.serialOf c.socket = m ∧ 0 ≤ c.pidfd ∧
    c.socket ∈ k.fds.openFds ∧ c.pidfd ∈ k.fds.openFds

/-- Why it may be gone. -/
inductive Released (trace : List Event) (m : Nat) : Prop where
  | ended (h : Event.ended m ∈ trace)
  | unkillable (e : Errno) (h : Event.killed m (some e) ∈ trace)
  | cleaned (error : Option Errno) (h : Event.cleaned m error ∈ trace)

/-- Every program that was started is attended, or was released. -/
def NotAbandoned (t : Traced.World) : Prop :=
  ∀ m child, Action.cgi child ∈ t.own.worker.log m →
    t.own.worker.Attended m ∨ Released t.own.trace m

/-! ## The invariant -/

/-- A client of the connection has a program. -/
def Worker.Has (k : Worker) (m : Nat) : Prop :=
  ∃ a c, k.mem.cell a = some c ∧ k.fds.serialOf c.socket = m ∧ 0 ≤ c.pidfd

/-- The part of it that has to be looked at for each handler. -/
def Kept (k : Worker) (tr : List Event) : Prop :=
  ∀ m child, Action.cgi child ∈ k.log m → k.Has m ∨ Released tr m

theorem Released.mono (h : Released tr m) (hs : tr ⊆ tr') : Released tr' m := by
  cases h with
  | ended h => exact .ended (hs h)
  | unkillable e h => exact .unkillable e (hs h)
  | cleaned error h => exact .cleaned error (hs h)

theorem Kept.mono (h : Kept k tr) (hs : tr ⊆ tr') : Kept k tr' := fun m child hm =>
  (h m child hm).imp id fun h => h.mono hs

/-- Wherever a worker waits, what its clients hold is open. -/
theorem RunWaits.places_open {mode : Mode} (h : RunWaits mode w) (hc : w.own.mem.cell a = some c)
    {fd : Int} (hfd : fd ∈ c.places) : fd ∈ w.own.fds.openFds := by
  have hplaces : w.own.clientPlaces a = c.places := by rw [Worker.clientPlaces, hc]; rfl
  rcases h with ⟨x, _, h | ⟨b, d, hd, h⟩⟩ | ⟨s, P, rest, _, _, h⟩
  · exact h.owned.isOpen fd
      (List.mem_append_right _ (Worker.mem_others.mpr ⟨a, c, by simp, hc, hfd⟩))
  · by_cases hab : a = b
    · obtain rfl : d = c := Option.some.inj (hd.symm.trans (hab ▸ hc))
      exact h.isOpen (by simp [hfd])
    · exact h.owned.isOpen fd (List.mem_append_right _
        (Worker.mem_others.mpr ⟨a, c, by simp [hab], hc, hfd⟩))
  · have ha : a ∈ rest := h.live.mem_iff.mp (Heap.mem_live_of_cell hc)
    exact h.owned.isOpen fd (List.mem_append_right _
      (List.mem_flatMap.mpr ⟨a, ha, hplaces ▸ hfd⟩))

theorem Kept.notAbandoned {mode : Mode} {t : Traced.World} (h : Kept t.own.worker t.own.trace)
    (hw : RunWaits mode (Traced.part.get t)) : NotAbandoned t := by
  refine fun m child hm => (h m child hm).imp ?_ id
  rintro ⟨a, c, hc, hs, h0⟩
  exact ⟨a, c, hc, hs, h0, hw.places_open hc c.socket_mem, hw.places_open hc (Client.pidfd_mem h0)⟩

/-! ## What a part leaves -/

/-- The other clients are where they were. -/
theorem kept_others {P : List Int} (h : AtRest x w₀) (hc : w₀.own.mem.cell a = some c₀)
    (hk : Kept w₀.own tr) (hP : P ⊆ c₀.places)
    (hcells : ∀ b, b ≠ a → w.own.mem.cell b = w₀.own.mem.cell b) (hu : Untouched w₀ P w)
    {n : Nat} (hn : n ≠ w₀.own.fds.serialOf c₀.socket) (hlog : w.own.log n = w₀.own.log n)
    {child : ChildEnd} (hm : Action.cgi child ∈ w.own.log n) : w.own.Has n ∨ Released tr n := by
  rw [hlog] at hm
  refine (hk n child hm).imp ?_ id
  rintro ⟨b, d, hd, hs, h0⟩
  have hb : b ≠ a := by
    rintro rfl
    obtain rfl := Option.some.inj (hc.symm.trans hd)
    exact hn hs.symm
  have hopen : d.socket ∈ w₀.own.fds.openFds :=
    Heap.mem_openFds_of_object (h.parts.kinds b d (by simp) hd).1.socket
  have hfree : d.socket ∉ P := fun hm => h.places_apart hc hd hb d.socket_mem (hP hm)
  exact ⟨b, d, (hcells b hb).trans hd, (hu _ hopen hfree).2.trans hs, h0⟩

theorem Client.spares_subset : c.spares ⊆ c.places := fun _ h => List.mem_cons_of_mem _ h

theorem Local.kept (hw : Local w₀ a c₀ Attending c w) (h : AtRest x w₀)
    (hc : w₀.own.mem.cell a = some c₀) (hk : Kept w₀.own tr) : Kept w.own tr := by
  intro n child hm
  by_cases hn : n = w₀.own.fds.serialOf c₀.socket
  · subst hn
    rcases hw.log with hf | h0
    · exact absurd hm (hf child)
    · exact Or.inl ⟨a, c, hw.cell, hw.serial, h0⟩
  · exact kept_others h hc hk Client.spares_subset hw.cells hw.untouched hn (hw.logs n hn) hm

theorem Left.kept (hw : Left w₀ a c₀ Unforked w) (h : AtRest x w₀)
    (hc : w₀.own.mem.cell a = some c₀) (hk : Kept w₀.own tr) : Kept w.own tr := by
  intro n child hm
  by_cases hn : n = w₀.own.fds.serialOf c₀.socket
  · subst hn
    exact absurd hm (hw.log child)
  · exact kept_others h hc hk (fun _ h => h) hw.cells hw.untouched hn (hw.logs n hn) hm

theorem Stays.kept (hw : Stays w₀ w) (h : AtRest x w₀) (hk : Kept w₀.own tr) :
    Kept w.own tr := by
  refine fun n child hm => (hk n child (hw.forked n child hm)).imp ?_ id
  rintro ⟨b, d, hd, hs, h0⟩
  have hopen : d.socket ∈ w₀.own.fds.openFds :=
    Heap.mem_openFds_of_object (h.parts.kinds b d (by simp) hd).1.socket
  exact ⟨b, d, hw.cells b d hd, (hw.untouched _ hopen (by simp)).2.trans hs, h0⟩

/-- A client that has no program, or was released, may go. -/
theorem Kept.without {k' : Worker} (hk : Kept k tr) (hc : k.mem.cell a = some c)
    (hp : c.pidfd < 0 ∨ Released tr (k.fds.serialOf c.socket))
    (hcells : ∀ b, b ≠ a → k'.mem.cell b = k.mem.cell b)
    (hserials : k'.fds.serialOf = k.fds.serialOf) (hlog : k'.log = k.log) : Kept k' tr := by
  intro n child hm
  rw [hlog] at hm
  rcases hk n child hm with ⟨b, d, hd, hs, h0⟩ | hr
  · by_cases hb : b = a
    · subst hb
      obtain rfl := Option.some.inj (hc.symm.trans hd)
      exact hp.elim (fun hn => by omega) fun hr => Or.inr (hs ▸ hr)
    · exact Or.inl ⟨b, d, (hcells b hb).trans hd, (congrFun hserials _).trans hs, h0⟩
  · exact Or.inr hr

/-! ## Writing down -/

open Traced (part quietly emit)

/-- The worker has a property, and the account is `tr`. -/
def With (tr : List Event) (P : World → Prop) (t : Traced.World) : Prop :=
  P (part.get t) ∧ t.own.trace = tr

abbrev KeptBy (tr : List Event) (w : World) : Prop := Kept w.own tr

/-- Every program has its client, or was released. -/
def Keeping (t : Traced.World) : Prop := ∃ tr, With tr (KeptBy tr) t

/-- A run that keeps its programs. -/
def keeps : Contract Answer Traced.World where
  answers := fun _ => True
  waits := Keeping
  mayFault := True

/-- A part that writes nothing down. -/
theorem quietly_with {α : Type} {I P : World → Prop} {p : Program α} {Q : α → World → Prop}
    (hI : ∀ w, I w → Kept w.own tr) (h : Triple (always I) P p Q) :
    Triple keeps (With tr P) (quietly p) (fun r => With tr (Q r)) := by
  refine (Triple.within (Y := keeps) (T := fun t => t.own.trace = tr) h rfl ?_ id).post ?_
  · exact fun t w ht hw => ⟨tr, hI w hw, ht⟩
  · rintro r t' ⟨t, w, rfl, ht, hq⟩
    exact ⟨hq, ht⟩

/-- The client at `a` is `c`, and has the connection `m`. -/
structure Minding (a : Nat) (c : Client) (m : Nat) (tr : List Event) (w : World) : Prop where
  cell : w.own.mem.cell a = some c
  serial : w.own.fds.serialOf c.socket = m
  kept : Kept w.own tr

/-- A part that leaves the client as it is. -/
theorem quietly_minding {α : Type} {p : Program α}
    (h : Triple (always (Minding a c m tr)) (Minding a c m tr) p (fun _ => Minding a c m tr)) :
    Triple keeps (With tr (Minding a c m tr)) (quietly p)
      (fun _ => With tr (Minding a c m tr)) :=
  quietly_with (fun _ h => h.kept) h

theorem getClient_minding :
    Triple keeps Keeping (quietly (getClient a))
      (fun c t => ∃ tr m, With tr (Minding a c m tr) t) := by
  refine Triple.exists_pre fun tr => ?_
  have hget : Triple (always (KeptBy tr)) (KeptBy tr) (getClient a)
      (fun c w => ∃ m, Minding a c m tr w) :=
    Triple.step_map trivial fun w c h hc => ⟨_, hc, rfl, h⟩
  exact (quietly_with (fun _ h => h) hget).post fun c t ⟨⟨m, h⟩, ht⟩ => ⟨tr, m, h, ht⟩

theorem emit_minding {e : Nat → Event} :
    Triple keeps (With tr (Minding a c m tr)) (emit a e)
      (fun _ => With (tr ++ [e m]) (Minding a c m (tr ++ [e m]))) := by
  refine Triple.modify fun t ⟨h, ht⟩ => ?_
  have hcell : t.own.worker.mem.cell a = some c := h.cell
  have hserial : t.own.worker.fds.serialOf c.socket = m := h.serial
  rw [hcell]
  refine ⟨⟨hcell, hserial, h.kept.mono (List.subset_append_left ..)⟩, ?_⟩
  show t.own.trace ++ [e (t.own.worker.fds.serialOf c.socket)] = _
  rw [ht, hserial]

theorem clientDisconnect_minding (hp : c.pidfd < 0 ∨ Released tr m) :
    Triple keeps (With tr (Minding a c m tr)) (quietly (clientDisconnect a))
      (fun _ => Keeping) := by
  have hrun : Triple (always (KeptBy tr)) (Minding a c m tr) (clientDisconnect a)
      (fun _ => KeptBy tr) := by
    intro w ans h hA
    exact ((clientDisconnect_spared trivial h.cell).post fun _ _ ⟨_, hs⟩ =>
      h.kept.without h.cell (h.serial.symm ▸ hp) hs.cells hs.serials hs.log) w ans rfl hA
  exact (quietly_with (fun _ h => h) hrun).post fun _ t h => ⟨tr, h⟩

theorem quietly_keeping {α : Type} {p : Program α}
    (h : ∀ tr, Triple (always (KeptBy tr)) (KeptBy tr) p (fun _ => KeptBy tr)) :
    Triple keeps Keeping (quietly p) (fun _ => Keeping) :=
  Triple.exists_pre fun tr => (quietly_with (fun _ h => h) (h tr)).post fun _ _ h => ⟨tr, h⟩

/-- A descriptor is closed, and its number is still known. -/
theorem closeFd_kept {fd : Int} :
    Triple (always (KeptBy tr)) (KeptBy tr) (closeFd fd) (fun _ => KeptBy tr) :=
  closeFd_keeps trivial fun w fds hclose h => by
    obtain ⟨hm, rfl⟩ := Heap.closeFd_cases hclose
    exact h

theorem closeFd_minding {fd : Int} :
    Triple (always (Minding a c m tr)) (Minding a c m tr) (closeFd fd)
      (fun _ => Minding a c m tr) :=
  closeFd_keeps trivial fun w fds hclose h => by
    obtain ⟨hm, rfl⟩ := Heap.closeFd_cases hclose
    exact ⟨h.cell, h.serial, h.kept⟩

/-! ## The handlers that look at `pidfd` -/

/-- `pidfd_kill_client` disconnects a client when the signal could not be
sent. -/
theorem pidfdKillClient_keeps :
    Triple keeps Keeping (Traced.pidfdKillClient a) (fun _ => Keeping) := by
  refine Triple.bind getClient_minding fun c => Triple.exists_pre fun tr =>
    Triple.exists_pre fun m => ?_
  refine Triple.bind (quietly_minding (useFd_keeps trivial)) fun _ => ?_
  refine Triple.bind (quietly_minding (systemCall_keeps fun _ h => h)) fun y => ?_
  refine Triple.bind emit_minding fun _ => ?_
  refine Triple.when (fun hk => ?_) fun _ t h => ⟨_, h.1.kept, h.2⟩
  obtain ⟨e, he⟩ := Option.isSome_iff_exists.mp hk
  exact clientDisconnect_minding (Or.inr (.unkillable e (by simp [he])))

theorem clientError_keeps :
    Triple keeps Keeping (Traced.clientError a) (fun _ => Keeping) := by
  refine Triple.bind getClient_minding fun c => Triple.exists_pre fun tr =>
    Triple.exists_pre fun m => ?_
  refine Triple.ite (fun _ => ?_) fun h0 => clientDisconnect_minding (Or.inl (by omega))
  exact pidfdKillClient_keeps.pre fun t h => ⟨tr, h.1.kept, h.2⟩

/-- `client_pidfd` is told that the program has ended. -/
theorem clientPidfd_keeps :
    Triple keeps Keeping (Traced.clientPidfd a) (fun _ => Keeping) := by
  intro t ans ⟨tr, h, ht⟩ hA
  cases hcell : t.own.worker.mem.cell a with
  | some c =>
    refine (Triple.bind emit_minding fun _ => ?_) t ans
      (⟨⟨hcell, rfl, h⟩, ht⟩ : With tr (Minding a c _ tr) t) hA
    exact clientDisconnect_minding (Or.inr (.ended (by simp)))
  | none =>
    -- there is no client to disconnect, and the run faults
    have hget : getClient a (part.get t) ans = .fault := by
      have hnone : (part.get t).own.mem.cell a = none := hcell
      simp only [getClient, Prog.step, hnone, Option.map_none]
    have hemit : emit a Event.ended t ans = .done () t ans := by
      simp only [emit, Prog.modify_run, hcell]
    have hfault : Traced.clientPidfd a t ans = .fault := by
      rw [Traced.clientPidfd, Prog.bind_done hemit, quietly, Prog.within, clientPidfd,
        clientDisconnect, Prog.bind_run, hget]
      rfl
    rw [hfault]
    trivial

theorem timerClient_keeps {now : Int} :
    Triple keeps Keeping (Traced.timerClient now a) (fun _ => Keeping) := by
  refine Triple.bind (quietly_keeping fun tr => getServer_keeps) fun s => ?_
  refine Triple.bind getClient_minding fun c => Triple.exists_pre fun tr =>
    Triple.exists_pre fun m => ?_
  refine Triple.bind emit_minding fun _ => ?_
  refine Triple.when (fun _ => Triple.ite (fun h0 => ?_) fun h0 => ?_)
    fun _ t h => ⟨_, h.1.kept, h.2⟩
  · refine Triple.bind (quietly_minding (useFd_keeps trivial)) fun _ => ?_
    refine Triple.bind (quietly_minding (systemCall_keeps fun _ h => h)) fun y => ?_
    refine Triple.bind emit_minding fun _ => ?_
    refine Triple.pre (P := Keeping) ?_ fun t h => ⟨_, h.1.kept, h.2⟩
    split
    · exact pidfdKillClient_keeps
    · exact Triple.when (fun _ => pidfdKillClient_keeps) fun _ t h => h
  · refine Triple.bind (quietly_minding ?_) fun _ => clientDisconnect_minding (Or.inl (by omega))
    refine Triple.when (fun _ => Triple.step_map trivial fun w _ h _ => ?_) fun _ _ h => h
    have hmenu : ∀ child, Action.menu .timeout ≠ .cgi child := nofun
    exact ⟨h.cell, h.serial, fun n child hm => h.kept n child (cgi_mem_of_noted hmenu hm)⟩

theorem timerWalk_keeps (now : Int) : ∀ (fuel : Nat) (cur : Option Nat),
    Triple keeps Keeping (Traced.timerWalk now fuel cur) (fun _ => Keeping)
  | fuel, none => by
    cases fuel <;> exact Triple.pure fun _ h => h
  | 0, some _ => quietly_keeping fun _ => fault_keeps trivial
  | fuel + 1, some _ =>
    Triple.bind (quietly_keeping fun _ => Triple.step_map trivial fun _ _ h _ => h) fun next =>
      Triple.bind timerClient_keeps fun _ => timerWalk_keeps now fuel next

theorem serverTimer_keeps : Triple keeps Keeping Traced.serverTimer (fun _ => Keeping) := by
  have hask := quietly_keeping fun tr => systemCall_always (I := KeptBy tr)
  refine Triple.bind (quietly_keeping fun _ => getServer_keeps) fun s => ?_
  refine Triple.bind (quietly_keeping fun _ => useFd_keeps trivial) fun _ => ?_
  refine Triple.bind hask fun _ => Triple.bind hask fun y => ?_
  refine Triple.bind (quietly_keeping fun _ => getServer_keeps) fun s => ?_
  exact timerWalk_keeps _ _ _

/-! ## Cleaning up -/

/-- The program of a client is sent `SIGKILL` before its descriptor is
closed. -/
theorem cleanupClient_keeps :
    Triple keeps Keeping (Traced.cleanupClient a) (fun _ => Keeping) := by
  refine Triple.bind getClient_minding fun c => Triple.exists_pre fun tr =>
    Triple.exists_pre fun m => ?_
  refine Triple.bind (R := fun _ t => ∃ tr, (c.pidfd < 0 ∨ Released tr m) ∧
    With tr (Minding a c m tr) t) ?_ fun _ => ?_
  · refine Triple.when (fun _ => ?_) fun h0 t h => ⟨tr, Or.inl (by omega), h⟩
    refine Triple.bind (quietly_minding (useFd_keeps trivial)) fun _ => ?_
    refine Triple.bind (quietly_minding (systemCall_keeps fun _ h => h)) fun y => ?_
    refine Triple.bind emit_minding fun _ => ?_
    exact (quietly_minding closeFd_minding).post fun _ t h =>
      ⟨_, Or.inr (.cleaned y.kill (by simp)), h⟩
  refine Triple.exists_pre fun tr => Triple.assume fun hp => ?_
  have hclose : ∀ fd : Int, Triple keeps (With tr (Minding a c m tr))
      (quietly (Prog.when (0 ≤ fd) (closeFd fd))) (fun _ => With tr (Minding a c m tr)) :=
    fun fd => quietly_minding (Triple.when (fun _ => closeFd_minding) fun _ _ h => h)
  refine Triple.bind (hclose c.file) fun _ => Triple.bind (hclose c.dirfd) fun _ => ?_
  refine Triple.bind (quietly_minding closeFd_minding) fun _ => ?_
  refine (quietly_with (Q := fun _ => KeptBy tr) (fun _ h => h.kept)
    (Triple.step_map (X := always (Minding a c m tr)) trivial fun w mem h hmem => ?_)).post
    fun _ t h => ⟨tr, h⟩
  obtain ⟨ha, rfl⟩ := Heap.free_cases hmem
  exact h.kept.without h.cell (h.serial.symm ▸ hp) (fun b hb => Heap.freeLive_cell_of_ne ha hb)
    rfl rfl

theorem cleanupClients_keeps : ∀ as : List Nat,
    Triple keeps Keeping (Traced.cleanupClients as) (fun _ => Keeping)
  | [] => Triple.pure fun _ h => h
  | _ :: rest => Triple.bind cleanupClient_keeps fun _ => cleanupClients_keeps rest

theorem serverCleanup_keeps : Triple keeps Keeping Traced.serverCleanup (fun _ => Keeping) := by
  have hclose : ∀ fd : Int, Triple keeps Keeping (quietly (Prog.when (0 ≤ fd) (closeFd fd)))
      (fun _ => Keeping) := fun fd =>
    quietly_keeping fun _ => Triple.when (fun _ => closeFd_kept) fun _ _ h => h
  refine Triple.bind (quietly_keeping fun _ => getServer_keeps) fun s => ?_
  refine Triple.bind (quietly_keeping fun _ => onLoop_keeps trivial fun _ _ h => h) fun _ => ?_
  refine Triple.bind (quietly_keeping fun _ => closeFd_kept) fun _ => ?_
  refine Triple.bind (cleanupClients_keeps s.clients) fun _ => ?_
  refine Triple.bind (hclose s.socket) fun _ => Triple.bind (hclose s.timerfd) fun _ => ?_
  exact Triple.bind (hclose s.sigfd) fun _ => hclose s.directory

/-! ## The socket -/

/-- A client's socket is none of its other descriptors. -/
theorem AtRest.socket_spare (h : AtRest x w) (hc : w.own.mem.cell a = some c) :
    c.socket ∉ c.spares := by
  obtain ⟨o, hheld, _⟩ := h.focus hc
  have hnd := (List.nodup_append.mp (List.nodup_append.mp hheld.busy.parts.owned.nodup).1).2.1
  exact (List.nodup_cons.mp hnd).1

/-- A branch for a client without a program keeps the others, and its own
if it starts one. -/
theorem quietly_branch {p : Program Bool} {q : Client → List Action → Prop} (h : AtRest x w₀)
    (hc : w₀.own.mem.cell a = some c₀)
    (hu : Unforked (w₀.own.log (w₀.own.fds.serialOf c₀.socket)))
    (hq : ∀ c L, q c L → Attending c L)
    (hp : Triple (footprint w₀ a c₀) (Idle w₀ a c₀ c₀) p (Leaves w₀ a c₀ (Works w₀ a c₀ q))) :
    Triple keeps (fun t => part.get t = w₀ ∧ Keeping t) (quietly p) (fun _ => Keeping) := by
  intro t ans ⟨ht, tr, hk, htr⟩ hA
  have hk₀ : Kept w₀.own tr := ht ▸ hk
  have hopen := Heap.mem_openFds_of_object (h.parts.kinds a c₀ (by simp) hc).1.socket
  have hstart : Idle w₀ a c₀ c₀ w₀ := Local.refl hc hopen (h.socket_spare hc) hu
  have hafter : ∀ more w, Leaves w₀ a c₀ (Works w₀ a c₀ q) more w → Kept w.own tr := by
    intro more w hw
    cases more with
    | false => exact Left.kept hw h hc hk₀
    | true =>
      obtain ⟨c, hw⟩ := hw
      exact (hw.imp (hq c)).kept h hc hk₀
  have hrun := (quietly_with (fun w ⟨c, hw⟩ => hw.kept h hc hk₀) hp).post fun more t ht =>
    (⟨tr, hafter more _ ht.1, ht.2⟩ : Keeping t)
  exact hrun t ans ⟨ht.symm ▸ hstart, htr⟩ hA

/-- A branch that is not entered. -/
theorem quietly_skip {P : Traced.World → Prop} {b : Bool} {p : Program Bool} (hb : b = false) :
    Triple keeps P (quietly (if b then p else pure true)) (fun more t => more = true ∧ P t) := by
  subst hb
  exact fun _ _ h hA => ⟨⟨rfl, h⟩, hA⟩

/-- **`client_socket`** keeps every program, whatever the event. -/
theorem clientSocket_keeps {e : EpollEvent} {mask : UInt32} (h : AtRest x w₀) (hx : x.strict)
    (hc : w₀.own.mem.cell a = some c) (hmask : (w₀.loop.reg c.socket).map Reg.events = some mask)
    (he : Reported e mask) :
    Triple keeps (fun t => part.get t = w₀ ∧ Keeping t) (Traced.clientSocket e.events a)
      (fun _ => Keeping) := by
  have hrest : ∀ more : Bool, Triple keeps Keeping
      (if more then
        Prog.when (hasEvent e.events EPOLLERR ∨ hasEvent e.events EPOLLHUP) (Traced.clientError a)
      else pure ()) (fun _ => Keeping) := fun more =>
    Triple.ite (fun _ => Triple.when (fun _ => clientError_keeps) fun _ _ h => h) fun _ =>
      Triple.pure fun _ h => h
  have hstand := h.parts.standing a c (by simp) hc
  rw [hmask] at hstand
  cases hstand with
  | reading hm _ _ hs =>
    obtain rfl : mask = EPOLLIN ||| EPOLLET := by simpa using hm
    have hout : hasEvent e.events EPOLLOUT = false := he.hasEvent (by decide)
    have hu : Unforked (w₀.own.log (w₀.own.fds.serialOf c.socket)) := fun child hm => by
      simpa using (hs hx).log _ hm
    refine Triple.bind (quietly_branch h hc hu (fun _ _ hL => hL) (Triple.ite
      (fun _ => clientReadable_local) fun _ => Triple.pure fun w hw => ⟨c, hw.attending⟩))
      fun more => Triple.ite (fun _ => ?_) fun _ => Triple.pure fun _ h => h
    exact Triple.bind_eq (quietly_skip hout) (hrest true)
  | sending f hm _ _ hs =>
    obtain rfl : mask = EPOLLOUT ||| EPOLLET := by simpa using hm
    have hin : hasEvent e.events EPOLLIN = false := he.hasEvent (by decide)
    refine Triple.bind_eq (quietly_skip hin) ?_
    refine Triple.bind (quietly_branch h hc (hs hx).2 (fun _ _ => Or.inl) (Triple.ite
      (fun _ => clientWritable_local.pre fun w hw => ⟨c, hw⟩) fun _ =>
        Triple.pure fun w hw => ⟨c, hw⟩)) hrest
  | cgi hm _ _ _ =>
    obtain rfl : mask = EPOLLET := by simpa using hm
    have hin : hasEvent e.events EPOLLIN = false := he.hasEvent (by decide)
    have hout : hasEvent e.events EPOLLOUT = false := he.hasEvent (by decide)
    refine Triple.bind_eq (quietly_skip hin) (Triple.bind_eq (quietly_skip hout) ?_)
    exact (hrest true).pre fun _ h => h.2

/-! ## The whole run -/

theorem serverSignal_kept :
    Triple (always (KeptBy tr)) (KeptBy tr) serverSignal (fun _ => KeptBy tr) := by
  refine Triple.iterate (I := fun _ => KeptBy tr) (fun _ _ h => h) (fun _ => ?_) ()
  refine Triple.bind getServer_keeps fun s => Triple.bind (useFd_keeps trivial) fun _ => ?_
  refine Triple.bind systemCall_always fun y => ?_
  cases y.signal with
  | error e => exact Triple.pure fun _ h => h
  | ok signo => ?_
  refine Triple.bind (R := fun _ => KeptBy tr) ?_ fun _ => Triple.pure fun _ h => h
  refine Triple.when (fun _ => ?_) fun _ _ h => h
  exact Triple.bind (R := fun _ => KeptBy tr) (Triple.modify fun _ h => h) fun _ =>
    Triple.modify fun _ h => h

theorem serverSocket_keeps {events : UInt32} (h : AtRest x w₀) :
    Triple keeps (fun t => part.get t = w₀ ∧ Keeping t) (quietly (serverSocket events))
      (fun _ => Keeping) := by
  intro t ans ⟨ht, tr, hk, htr⟩ hA
  have hk₀ : Kept w₀.own tr := ht ▸ hk
  have hrun := (quietly_with (fun w hw => Stays.kept hw h hk₀) (serverSocket_stays events)).post
    fun _ t ht => (⟨tr, ht.1.kept h hk₀, ht.2⟩ : Keeping t)
  exact hrun t ans ⟨ht.symm ▸ Stays.refl w₀, htr⟩ hA

/-- **What a callback leaves**, in a worker whose masks change. -/
theorem handle_keeps {e : EpollEvent} {rest : List EpollEvent} {cb : Callback Handler Arg}
    {f : Handler} (hf : cb.function = some f) :
    Triple keeps
      (fun t' => ∃ t, (Resting .masks (part.get t) ∧ Keeping t) ∧ t.loop.pending = e :: rest ∧
        t.loop.heap.cell e.ptr = some cb ∧ t' = t.withLoop t.loop.popped)
      (Traced.handle f e.events cb.userdata1 cb.userdata2) (fun _ => Keeping) := by
  rintro t' ans ⟨t, ⟨⟨x, hx, h⟩, hkeep⟩, hp, hc, rfl⟩ hA
  obtain ⟨r, hr, _, hrep, hrf, hru, hrest⟩ := h.taken hp hc hf
  have hkeep' : Keeping (t.withLoop t.loop.popped) := hkeep
  cases hrest.parts.regs cb.fd r hr with
  | socket a c hf' hu hcell hs ho =>
    obtain rfl := Option.some.inj (hrf.symm.trans hf')
    rw [← hru, hu]
    have hmask : (Loop.reg (part.get (t.withLoop t.loop.popped)).loop c.socket).map Reg.events
        = some r.events := by
      rw [hs]
      exact congrArg (Option.map Reg.events) hr
    exact clientSocket_keeps hrest (Context.strict_of_masks hx) hcell hmask hrep _ ans
      ⟨rfl, hkeep'⟩ hA
  | pidfd a hf' hu _ _ =>
    obtain rfl := Option.some.inj (hrf.symm.trans hf')
    rw [← hru, hu]
    exact clientPidfd_keeps _ ans hkeep' hA
  | server g hf' hh _ =>
    obtain rfl := Option.some.inj (hrf.symm.trans hf')
    rcases hh with rfl | rfl | rfl
    · exact serverSocket_keeps hrest _ ans ⟨rfl, hkeep'⟩ hA
    · exact quietly_keeping (fun _ => serverSignal_kept) _ ans hkeep' hA
    · exact serverTimer_keeps _ ans hkeep' hA

theorem register_keeps : Triple keeps Keeping (quietly register) (fun _ => Keeping) := by
  refine quietly_keeping fun tr => ?_
  have hadd : ∀ {fd : Int} {events : UInt32} {f : Option Handler},
      Triple (always (KeptBy tr)) (KeptBy tr) (sepollAdd fd events f .server .null)
        (fun _ => KeptBy tr) :=
    Triple.bind systemCall_always fun _ => onLoop_keeps trivial fun _ _ h => h
  exact Triple.bind getServer_keeps fun s => Triple.bind hadd fun _ => Triple.bind hadd fun _ =>
    Triple.bind hadd fun _ => Triple.pure fun _ h => h

/-- A worker whose masks change, and keeps its programs. -/
abbrev runKeeps : Contract Answer Traced.World := ((runContract .masks).over part).both keeps

theorem serverProcess_keeps :
    Triple runKeeps (fun t => Starts .masks (part.get t) ∧ Keeping t) Traced.serverProcess
      (fun _ t => Ended .masks (part.get t) ∧ Keeping t) := by
  have hwaits : ∀ t, (((contract .masks).over part).both keeps).waits t → runKeeps.waits t :=
    fun t h => ⟨Or.inl h.1, h.2⟩
  have hregister := ((register_rest .masks).over (Traced.quietly_erases register)).both
    register_keeps fun _ _ => trivial
  have hloop : EnterInv (((contract .masks).over part).both keeps)
      (fun t => Resting .masks (part.get t) ∧ Keeping t) Traced.handle (-1) none :=
    (worker_enterInv .masks).ghost Traced.handle_erases (fun _ _ => trivial) (fun _ h => h)
      (fun _ _ h => h) fun _ _ _ _ hf => handle_keeps hf
  have hcleanup := Triple.over (X := runContract .masks) Traced.serverCleanup_erases
    serverCleanup_triple
  refine Triple.bind (hregister.weaken rfl hwaits id) fun _ => ?_
  have henter := hloop.sepollEnter_triple.weaken (Y := runKeeps) rfl hwaits id
  refine Triple.bind (henter.pre fun t h => ⟨⟨h.1.1, h.2⟩, h.1.2⟩) fun _ => ?_
  exact (hcleanup.both serverCleanup_keeps fun _ _ => trivial).pre
    fun t h => ⟨⟨h.1.1, h.2.1⟩, h.1.2⟩

/-- **CGI processes are not abandoned.** In every run in which no change of
a mask is refused, wherever the worker waits and when it has returned: a
client for which a program was started is still there, and its socket and
its `pidfd` are open, unless its `pidfd` has reported the end of the
program, a `SIGKILL` that was sent to it has failed, or `server_cleanup`
has sent it one. The account that says so changes nothing, the run does not
fault, and `client_pidfd` is called only for an event of the client's own
`pidfd`. -/
theorem programs_not_abandoned {ans : List Answer} (size : Int) (params : Params)
    (d g t s e : Int) (hmod : MasksChange ans) :
    let w := started size params d g t s e
    (Traced.serverProcess (unwritten w) ans).Always NotAbandoned ∧
      (Traced.serverProcess (unwritten w) ans).map part.get = serverProcess w ans ∧
      Traced.serverProcess (unwritten w) ans ≠ .fault ∧
      ∀ w, Reachable .masks w → ∀ event rest cb, w.loop.pending = event :: rest →
        w.loop.heap.cell event.ptr = some cb → cb.function = some .clientPidfd →
        ∃ a c, cb.userdata2 = .client a ∧ w.own.mem.cell a = some c ∧ c.pidfd = cb.fd := by
  intro w
  have hstart : Starts .masks (part.get (unwritten w)) := .started False.elim params d g t s e
  have hkeep : Keeping (unwritten w) := ⟨[], fun _ _ hm => (by cases hm), rfl⟩
  have hrun := serverProcess_keeps (unwritten w) ans ⟨hstart, hkeep⟩ hmod.answers
  refine ⟨hrun.always ?_ ?_, Traced.serverProcess_erases _ _, ?_, ?_⟩
  · rintro t ⟨hw, tr, hk, rfl⟩
    exact Kept.notAbandoned hk hw
  · rintro _ t ⟨hend, tr, hk, rfl⟩ m child hm
    refine (hk m child hm).imp ?_ id
    rintro ⟨a, c, hc, _⟩
    have ha : a ∈ (part.get t).own.mem.live := Heap.mem_live_of_cell hc
    rw [hend.clients] at ha
    cases ha
  · intro hf
    rw [hf] at hrun
    exact hrun.1 trivial
  · intro w hw event rest cb hp hc hf
    obtain ⟨x, hx, h⟩ := hw.resting
    obtain ⟨r, hr, _, _, hrf, hru, hrest⟩ := h.taken hp hc hf
    cases hrest.parts.regs cb.fd r hr with
    | socket a c hf' _ _ _ _ => exact absurd (hrf.symm.trans hf') (by simp)
    | pidfd a _ hu hcell _ =>
      obtain ⟨c, hcell, hfd⟩ := hcell (Context.strict_of_masks hx)
      exact ⟨a, c, hru.symm.trans hu, hcell, hfd⟩
    | server f hf' hh _ =>
      have hne := hrf.symm.trans hf'
      rcases hh with rfl | rfl | rfl <;> exact absurd hne (by simp)

/-! ## A mask that is not changed -/

/-- A program is started, and its end is reported. -/
def programEnds : List Answer :=
  asked ++ [{ openat := .ok (9, smallProgram) }, again, { fork := some ⟨10, {}⟩ }, again,
    { loop := { malloc := some 5 } }, again, { loop := { wait := .ready [(10, EPOLLIN)] } }]

theorem programs_not_abandoned_ended :
    (Traced.serverProcess (unwritten smallWorker) programEnds).Always NotAbandoned :=
  (programs_not_abandoned 5 smallParams 3 4 5 6 7 (by unfold MasksChange; decide)).1

/-- A program is started, and the mask of the socket is not changed; then
the client hangs up. -/
def programLost : List Answer :=
  asked ++ [{ openat := .ok (9, smallProgram) }, again, { fork := some ⟨10, {}⟩ },
    { loop := { ctlMod := some .ENOMEM } }, { loop := { malloc := some 5 } }, again,
    { loop := { wait := .ready [(8, EPOLLIN)] } }, { read := .ok [] }]

/-- The client is disconnected, though its program was neither sent a
signal nor reported. -/
theorem programs_abandoned : ∃ t, Traced.serverProcess (unwritten smallWorker) programLost
    = .stopped t ∧ t.own.trace = [] ∧ t.own.worker.mem.live = [] ∧ ¬ NotAbandoned t := by
  have h : (Traced.serverProcess (unwritten smallWorker) programLost).Stops fun t =>
      t.own.trace = [] ∧ t.own.worker.mem.live = [] ∧
        (t.own.worker.log 5).any (fun | .cgi _ => true | _ => false) = true := by
    decide +kernel
  obtain ⟨t, hrun, htrace, hlive, hany⟩ := h.state
  refine ⟨t, hrun, htrace, hlive, fun hkept => ?_⟩
  obtain ⟨act, hm, hact⟩ := List.any_eq_true.mp hany
  cases act with
  | cgi child =>
    rcases hkept 5 child hm with ⟨a, c, hc, _⟩ | hr
    · have ha := Heap.mem_live_of_cell hc
      rw [hlive] at ha
      cases ha
    · rw [htrace] at hr
      obtain h | ⟨e, h⟩ | ⟨e, h⟩ := hr <;> cases h
  | _ => cases hact

end Sgopher.Server
