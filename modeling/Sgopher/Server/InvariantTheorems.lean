/-
Sgopher.Server.InvariantTheorems — what each call of a handler does to the
invariant.

There is one lemma for each change a handler makes: to the log of a
connection, to the table of descriptors, to a client's record, to the
registrations. All but the focused client are looked after here, once:
its fields and its descriptors are what a handler works with, and the
lemmas say what it owes for them. `Parts.focus` and `Parts.unfocus` take a
client out of the invariant and put it back.

No `sorry`, no `axiom`, no `native_decide`.
-/
import Sgopher.Server.Invariant

namespace Sgopher.Server

open Sgopher.Lib Sgopher.Sepoll

variable {x : Context} {strict : Prop} {ex : Option Nat} {P P' : List Int} {l l' : EventLoop}
  {k : Worker} {fds fds' : Heap Object} {a : Nat} {c c' : Client} {mask : Option UInt32}
  {L : List Action} {act : Action} {fd : Int}

/-! ## Logs -/

@[simp] theorem menus_append (L L' : List Action) : menus (L ++ L') = menus L ++ menus L' :=
  List.filterMap_append ..

@[simp] theorem sent_append (L L' : List Action) : sent (L ++ L') = sent L ++ sent L' :=
  List.flatMap_append ..

theorem Silent.nil : Silent [] := ⟨rfl, rfl, by simp⟩

theorem Silent.quiet (h : Silent L) (hq : act.Quiet) : Silent (L ++ [act]) := by
  obtain ⟨hm, hs, hf⟩ := h
  cases act <;>
    first
    | exact hq.elim
    | exact ⟨by rw [menus_append, hm]; rfl, by rw [sent_append, hs]; rfl, by simp [hf]⟩

/-- One menu is a reply. -/
theorem Silent.menu (h : Silent L) (m : Menu) : ReplyOk (L ++ [.menu m]) :=
  .menu m (by rw [menus_append, h.menus]; rfl) (by rw [sent_append, h.sent]; rfl)
    (by simp [h.finished])

theorem LogOk.nil : LogOk strict [] := ⟨.nothing .nil, by simp, fun _ => by simp⟩

/-- A request for which nothing was done was not read. -/
theorem Fresh.unread (h : Fresh c L) : L.count .readable = 0 :=
  List.count_eq_zero.mpr fun hm => by simpa using h.log _ hm

/-- One more action, that is not the request's being read a second time. -/
theorem LogOk.snoc (h : LogOk strict L) (hr : ReplyOk (L ++ [act]))
    (hp : ∀ path, act = .openat path → Confined path)
    (ho : strict → act = .readable → L.count .readable = 0) : LogOk strict (L ++ [act]) := by
  refine ⟨hr, ?_, ?_⟩
  · intro path hm
    rcases List.mem_append.mp hm with hm | hm
    · exact h.paths path hm
    · exact hp path (List.mem_singleton.mp hm).symm
  · intro hs
    by_cases ha : act = .readable
    · rw [List.count_append, ho hs ha, ha]
      simp
    · rw [List.count_append, List.count_singleton, if_neg (by simpa using ha)]
      exact h.once hs

theorem LogOk.menu {m : Menu} (h : LogOk strict L) (hr : ReplyOk (L ++ [.menu m])) :
    LogOk strict (L ++ [.menu m]) := h.snoc hr (by simp) (by simp)

/-! ## How a client stands, and the table -/

theorem Client.socket_mem (c : Client) : c.socket ∈ c.places := List.mem_cons_self

theorem Client.dirfd_mem (h : 0 ≤ c.dirfd) : c.dirfd ∈ c.places := by
  simp [Client.places, mem_held h]

theorem Client.file_mem (h : 0 ≤ c.file) : c.file ∈ c.places := by
  by_cases he : c.file = c.dirfd
  · exact he ▸ Client.dirfd_mem (he ▸ h)
  · simp [Client.places, Client.filePlaces, he, mem_held h]

theorem Client.pidfd_mem (h : 0 ≤ c.pidfd) : c.pidfd ∈ c.places := by
  simp [Client.places, mem_held h]

theorem Kinds.congr (h : Kinds fds c) (hs : ∀ fd ∈ c.places, fds'.object fd = fds.object fd) :
    Kinds fds' c where
  socket := (hs _ c.socket_mem).trans h.socket
  file h0 := by rw [hs _ (Client.file_mem h0)]; exact h.file h0
  dirfd h0 := by rw [hs _ (Client.dirfd_mem h0)]; exact h.dirfd h0
  pidfd h0 := (hs _ (Client.pidfd_mem h0)).trans (h.pidfd h0)

theorem Standing.congr (h : Standing strict fds c mask L)
    (hs : ∀ fd ∈ c.places, fds'.object fd = fds.object fd) : Standing strict fds' c mask L := by
  cases h with
  | reading hm h0 hq h => exact .reading hm h0 hq h
  | sending f hm ho hf h =>
    exact .sending f hm ((hs _ (Client.file_mem (Heap.nonneg_of_object ho))).trans ho) hf h
  | cgi hm h0 hq h => exact .cgi hm h0 hq h

/-- The bytes sent so far are a reply. -/
theorem Sending.reply {f : File} (h : Sending c L f) : ReplyOk L :=
  .file f c.sentsize.toNat h.transmit h.menus h.le_length
    (by have := h.le_size; omega) h.sent fun hf => absurd hf h.finished

/-- A registration is for what it was for, where its client and what its
descriptor refers to are still there. -/
theorem RegOk.congr {k' : Worker} {r : Registration} (h : RegOk strict k fd r)
    (hc : ∀ b c, k.mem.cell b = some c → k'.mem.cell b = some c)
    (ho : k'.fds.object fd = k.fds.object fd) : RegOk strict k' fd r := by
  cases h with
  | socket b c hf hu hcell hs hob => exact .socket b c hf hu (hc b c hcell) hs (ho.trans hob)
  | pidfd b hf hu hcell hob =>
    exact .pidfd b hf hu (fun hn => (hcell hn).imp fun c h => ⟨hc b c h.1, h.2⟩) (ho.trans hob)
  | server f hf hh hob => exact .server f hf hh (ho.trans hob)

/-! ## Who holds which descriptor -/

theorem Worker.mem_others :
    fd ∈ k.others ex ↔ ∃ b c, some b ≠ ex ∧ k.mem.cell b = some c ∧ fd ∈ c.places := by
  simp only [Worker.others, List.mem_flatMap, List.mem_filter, decide_eq_true_eq]
  constructor
  · rintro ⟨b, ⟨hb, hne⟩, hfd⟩
    obtain ⟨c, hc⟩ := Heap.cell_of_mem_live hb
    rw [Worker.clientPlaces, hc] at hfd
    exact ⟨b, c, hne, hc, hfd⟩
  · rintro ⟨b, c, hne, hc, hfd⟩
    exact ⟨b, ⟨Heap.mem_live_of_cell hc, hne⟩, by rwa [Worker.clientPlaces, hc]⟩

/-- The places of a client, taken out of those of all. -/
theorem Worker.others_none (hc : k.mem.cell a = some c) :
    (k.others none).Perm (c.places ++ k.others (some a)) := by
  have ha := Heap.mem_live_of_cell hc
  have hsplit : k.mem.live.Perm (a :: k.mem.live.filter fun b => some b ≠ some a) := by
    have hfilter : (k.mem.live.filter fun b => some b ≠ some a) = k.mem.live.erase a := by
      rw [k.mem.live_nodup.erase_eq_filter a]
      exact List.filter_congr fun b _ => by by_cases hb : b = a <;> simp [hb]
    rw [hfilter]
    exact List.perm_cons_erase ha
  have hall : k.others none = k.mem.live.flatMap k.clientPlaces := by
    simp [Worker.others]
  rw [hall]
  refine (hsplit.flatMap_right _).trans ?_
  rw [List.flatMap_cons, Worker.clientPlaces, hc]
  exact List.Perm.refl _

/-- The places of the others do not depend on the client that is left out. -/
theorem Worker.others_congr {k' : Worker} (hl : k'.mem.live.filter (fun b => some b ≠ ex)
    = k.mem.live.filter fun b => some b ≠ ex)
    (hc : ∀ b, some b ≠ ex → k'.mem.cell b = k.mem.cell b) : k'.others ex = k.others ex := by
  unfold Worker.others
  rw [hl]
  refine List.flatMap_congr fun b hb => ?_
  rw [Worker.clientPlaces, Worker.clientPlaces, hc b (by simpa using (List.mem_filter.mp hb).2)]

theorem Client.places_length (c : Client) : c.places.length ≤ 4 := by
  have hheld : ∀ fd, (held fd).length ≤ 1 := fun fd => by
    unfold held
    split <;> simp
  have hfile : c.filePlaces.length ≤ 1 := by
    unfold Client.filePlaces
    split
    · simp
    · exact hheld _
  have h1 := hheld c.dirfd
  have h2 := hheld c.pidfd
  simp only [Client.places, List.length_cons, List.length_append]
  omega

theorem Worker.clientPlaces_length (k : Worker) (as : List Nat) :
    (as.flatMap k.clientPlaces).length ≤ 4 * as.length := by
  induction as with
  | nil => simp
  | cons a as ih =>
    have ha : (k.clientPlaces a).length ≤ 4 := by
      rw [Worker.clientPlaces]
      cases k.mem.cell a with
      | none => simp
      | some c => exact c.places_length
    simp only [List.flatMap_cons, List.length_append, List.length_cons]
    omega

theorem Worker.others_all (k : Worker) : k.others none = k.mem.live.flatMap k.clientPlaces := by
  simp [Worker.others]

/-- A descriptor that moves to the front. -/
theorem perm_front (A B P C : List Int) :
    (A ++ B ++ (fd :: P) ++ C).Perm (fd :: (A ++ B ++ P ++ C)) := by
  rw [List.perm_iff_count]
  intro b
  simp only [List.count_append, List.count_cons]
  omega

/-- What the other clients hold is left when one is freed. -/
theorem Worker.others_freed (k : Worker) (ha : a ∈ k.mem.live) :
    Worker.others { k with mem := k.mem.freeLive a ha } none = k.others (some a) := by
  have hfilter : ((k.mem.live.erase a).filter fun b => some b ≠ none)
      = k.mem.live.filter fun b => some b ≠ some a := by
    rw [k.mem.live_nodup.erase_eq_filter a]
    simp only [ne_eq, reduceCtorEq, not_false_eq_true, decide_true, List.filter_true]
    exact List.filter_congr fun b _ => by by_cases hb : b = a <;> simp [hb]
  rw [Worker.others, Worker.others, Heap.freeLive_live, hfilter]
  refine List.flatMap_congr fun b hb => ?_
  have hne : b ≠ a := by simpa using (List.mem_filter.mp hb).2
  rw [Worker.clientPlaces, Worker.clientPlaces, Heap.freeLive_cell_of_ne ha hne]

/-- A registration of something else than a client's two descriptors
outlives the client. -/
theorem RegOk.freed {r : Registration} (h : RegOk strict k fd r) (hc : k.mem.cell a = some c)
    (ha : a ∈ k.mem.live) (hsocket : c.socket ≠ fd) (hpidfd : 0 ≤ fd → c.pidfd ≠ fd)
    (s : ServerState) :
    RegOk strict { k with mem := k.mem.freeLive a ha, server := s } fd r := by
  have hcell : ∀ b d, k.mem.cell b = some d → d ≠ c → (k.mem.freeLive a ha).cell b = some d := by
    intro b d hd hne
    refine (Heap.freeLive_cell_of_ne ha fun he => hne ?_).trans hd
    rw [he, hc] at hd
    exact (Option.some.inj hd).symm
  cases h with
  | socket b d hf hu hd hs hob =>
    exact .socket b d hf hu (hcell b d hd fun he => hsocket (he ▸ hs)) hs hob
  | pidfd b hf hu hd hob =>
    refine .pidfd b hf hu (fun hstrict => ?_) hob
    obtain ⟨d, hd, hpid⟩ := hd hstrict
    have hne : d ≠ c := fun he => hpidfd (Heap.nonneg_of_object hob) (he ▸ hpid)
    exact ⟨d, hcell b d hd hne, hpid⟩
  | server f hf hh hob => exact .server f hf hh hob

/-! ## Changes to the table of descriptors -/

namespace Parts

/-- What a place of the handler or of the worker names, no other client
names. -/
theorem other_ne (h : Parts x ex P l k) {fd' : Int}
    (hfd : fd ∈ k.server.places ++ k.holding.places ++ P) (hfd' : fd' ∈ k.others ex) :
    fd' ≠ fd := by
  intro he
  exact (List.nodup_append.mp h.owned.nodup).2.2 fd hfd fd' hfd' he.symm

theorem isOpen (h : Parts x ex P l k)
    (hfd : fd ∈ k.server.places ++ k.holding.places ++ P ++ k.others ex) :
    fd ∈ k.fds.openFds := h.owned.isOpen fd hfd

theorem places_perm (h : Parts x ex P l k) (hp : P.Perm P') : Parts x ex P' l k :=
  { h with owned := h.owned.perm ((hp.append_left _).append_right _) }

/-- A descriptor is lost where that is excused. -/
theorem lost (h : Parts x ex (fd :: P) l k) (hs : ¬ x.strict) : Parts x ex P l k :=
  { h with owned := (h.owned.perm (perm_front ..)).lost hs }

/-- Descriptors are lost where that is excused. -/
theorem dropped {Q : List Int} (h : Parts x ex (Q ++ P) l k) (hs : x.strict → Q = []) :
    Parts x ex P l k := by
  by_cases hx : x.strict
  · rwa [hs hx] at h
  · induction Q with
    | nil => exact h
    | cons fd Q ih => exact ih (h.lost hx) (fun hn => absurd hn hx)

/-- Another table, in which the others' descriptors and the registered ones
are what they were. -/
theorem retable (h : Parts x ex P l k)
    (ho : fds.Owned x.strict (k.server.places ++ k.holding.places ++ P' ++ k.others ex))
    (hobject : ∀ fd ∈ k.others ex, fds.object fd = k.fds.object fd)
    (hserial : ∀ fd ∈ k.others ex, fds.serialOf fd = k.fds.serialOf fd)
    (hregs : ∀ fd r, l.reg fd = some r → fds.object fd = k.fds.object fd)
    (hall : k.fds.allocated ≤ fds.allocated)
    (hpeak : x.strict →
      3 + fds.peak ≤ FDS_SERVER + FDS_CLIENT * k.server.params.maxClients.toNat) :
    Parts x ex P' l { k with fds := fds } where
  wf := h.wf
  pending := h.pending
  epollEvents := h.epollEvents
  reported_nodup := h.reported_nodup
  reported := h.reported
  owned := ho
  count := h.count
  room := h.room
  live := h.live
  regs fd r hr := (h.regs fd r hr).congr (fun _ _ hc => hc) (hregs fd r hr)
  kinds b c hb hc :=
    ⟨(h.kinds b c hb hc).1.congr fun fd hm => hobject fd (Worker.mem_others.mpr ⟨b, c, hb, hc, hm⟩),
      (h.kinds b c hb hc).2⟩
  standing b c hb hc := by
    have hm : ∀ fd ∈ c.places, fd ∈ k.others ex := fun fd hm =>
      Worker.mem_others.mpr ⟨b, c, hb, hc, hm⟩
    show Standing x.strict fds c _ (k.log (fds.serialOf c.socket))
    rw [hserial _ (hm _ c.socket_mem)]
    exact (h.standing b c hb hc).congr fun fd hfd => hobject fd (hm fd hfd)
  logs := h.logs
  unused n hn := h.unused n (hall.trans hn)
  size := h.size
  told := h.told
  budget := hpeak
  grown := h.grown

/-- Where no client has more than its four descriptors, there is room for
one more. -/
theorem room_left (h : Parts x ex P l k) (hold : k.holding = .nothing)
    (hP : (P ++ k.others ex).length ≤ 4 * k.mem.live.length) :
    (k.server.places ++ k.holding.places ++ P ++ k.others ex).length
      < 6 + 4 * k.server.params.maxClients.toNat := by
  have hlive := h.live.length_eq
  have hroom := h.room
  rw [hold] at hlive hroom ⊢
  simp only [List.length_append, ServerState.places, Holding.places, Holding.clients,
    List.length_cons, List.length_nil] at *
  omega

/-- A new descriptor. -/
theorem opened (h : Parts x ex P l k) (hold : k.holding = .nothing)
    (hP : (P ++ k.others ex).length ≤ 4 * k.mem.live.length) (want : Int) (o : Object) :
    Parts x ex ((k.fds.openFd want o).2 :: P) l { k with fds := (k.fds.openFd want o).1 } := by
  refine h.retable ((h.owned.opened want o).perm (perm_front ..).symm) ?_ ?_ ?_ ?_ fun hs => ?_
  · exact fun fd hm => Heap.openFd_object_of_mem (h.isOpen (List.mem_append_right _ hm))
  · exact fun fd hm => Heap.openFd_serialOf_of_mem (h.isOpen (List.mem_append_right _ hm))
  · intro fd r hr
    have : ∃ o, k.fds.object fd = some o := by
      cases h.regs fd r hr with
      | socket _ _ _ _ _ _ ho => exact ⟨_, ho⟩
      | pidfd _ _ _ _ ho => exact ⟨_, ho⟩
      | server _ _ _ ho => exact ⟨_, ho⟩
    obtain ⟨o', ho⟩ := this
    exact Heap.openFd_object_of_mem (Heap.mem_openFds_of_object ho)
  · rw [Heap.openFd_allocated]
    omega
  · have hbudget := h.budget hs
    unfold FDS_SERVER FDS_CLIENT at *
    have := h.owned.opened_peak hs (by omega) (h.room_left hold hP) want o
    omega

/-- A descriptor of the handler's is closed. It may not be registered. -/
theorem closed (h : Parts x ex (fd :: P) l k) (hreg : l.reg fd = none)
    (hm : fd ∈ k.fds.openFds) :
    Parts x ex P l { k with fds := k.fds.closedFd fd hm } := by
  have hfront := h.owned.perm (perm_front ..)
  refine h.retable hfront.closed ?_ (fun _ _ => rfl) ?_ (Nat.le_refl _) h.budget
  · exact fun fd' hfd' => Heap.closedFd_object_of_ne hm (h.other_ne (by simp) hfd')
  · intro fd' r hr
    refine Heap.closedFd_object_of_ne hm ?_
    rintro rfl
    rw [hreg] at hr
    cases hr

/-! ## Changes to the logs -/

/-- One more action for a connection that is not another client's. -/
theorem noted (h : Parts x ex P l k) (hfd : fd ∈ k.server.places ++ k.holding.places ++ P)
    (hlog : LogOk x.strict (k.log (k.fds.serialOf fd) ++ [act])) :
    Parts x ex P l { k with
      log := Function.update k.log (k.fds.serialOf fd) (k.log (k.fds.serialOf fd) ++ [act]) } where
  wf := h.wf
  pending := h.pending
  epollEvents := h.epollEvents
  reported_nodup := h.reported_nodup
  reported := h.reported
  owned := h.owned
  count := h.count
  room := h.room
  live := h.live
  regs fd r hr := (h.regs fd r hr).congr (fun _ _ hc => hc) rfl
  kinds := h.kinds
  standing b c hb hc := by
    have hm : c.socket ∈ k.others ex := Worker.mem_others.mpr ⟨b, c, hb, hc, c.socket_mem⟩
    have hne : k.fds.serialOf c.socket ≠ k.fds.serialOf fd := fun he =>
      h.other_ne hfd hm (Heap.serialOf_inj (h.isOpen (List.mem_append_right _ hm))
        (h.isOpen (List.mem_append_left _ hfd)) he)
    show Standing x.strict k.fds c _ (Function.update k.log _ _ (k.fds.serialOf c.socket))
    rw [Function.update_of_ne hne]
    exact h.standing b c hb hc
  logs n := by
    dsimp only
    by_cases hn : n = k.fds.serialOf fd
    · rw [hn, Function.update_self]
      exact hlog
    · rw [Function.update_of_ne hn]
      exact h.logs n
  unused n hn := by
    dsimp only at hn ⊢
    have hlt := Heap.serialOf_lt (h.isOpen (List.mem_append_left _ hfd))
    have hne : n ≠ k.fds.serialOf fd := fun he => absurd hn (by rw [he]; omega)
    rw [Function.update_of_ne hne]
    exact h.unused n hn
  size := h.size
  told := h.told
  budget := h.budget
  grown n := by
    dsimp only
    by_cases hn : n = k.fds.serialOf fd
    · rw [hn, Function.update_self]
      exact (h.grown _).trans (List.prefix_append _ _)
    · rw [Function.update_of_ne hn]
      exact h.grown n

/-! ## Changes to the clients -/

/-- The client a handler works on is written. It keeps its socket, and
gives up no process it may be the client of. -/
theorem written (h : Parts x (some a) P l k) (hc : k.mem.cell a = some c)
    (hs : c'.socket = c.socket) (hp : x.strict → c'.pidfd = c.pidfd ∨ c.pidfd < 0)
    (ha : a ∈ k.mem.live) :
    Parts x (some a) P l { k with mem := k.mem.writeLive a c' ha } := by
  have hcell : ∀ b, some b ≠ some a → (k.mem.writeLive a c' ha).cell b = k.mem.cell b :=
    fun b hb => Heap.writeLive_cell_of_ne ha fun he => hb (congrArg some he)
  have hself : (k.mem.writeLive a c' ha).cell a = some c' := Heap.writeLive_cell_self ..
  have hothers : Worker.others { k with mem := k.mem.writeLive a c' ha } (some a)
      = k.others (some a) := Worker.others_congr rfl hcell
  refine { h with owned := ?_, regs := ?_, kinds := ?_, standing := ?_ }
  · rw [hothers]
    exact h.owned
  · intro fd r hr
    cases h.regs fd r hr with
    | socket b d hf hu hd hsock hob =>
      by_cases hb : b = a
      · rw [hb, hc, Option.some.injEq] at hd
        exact .socket a c' hf (hb ▸ hu) hself (by rw [hs, hd, hsock]) hob
      · exact .socket b d hf hu ((hcell b (by simpa using hb)).trans hd) hsock hob
    | pidfd b hf hu hd hob =>
      refine .pidfd b hf hu (fun hstrict => ?_) hob
      obtain ⟨d, hd, hpid⟩ := hd hstrict
      by_cases hb : b = a
      · rw [hb, hc, Option.some.injEq] at hd
        have h0 := Heap.nonneg_of_object hob
        refine ⟨c', by rw [hb]; exact hself, ?_⟩
        rw [(hp hstrict).resolve_right (by rw [hd]; omega), hd, hpid]
      · exact ⟨d, (hcell b (by simpa using hb)).trans hd, hpid⟩
    | server f hf hh hob => exact .server f hf hh hob
  · exact fun b d hb hd => h.kinds b d hb ((hcell b hb).symm.trans hd)
  · exact fun b d hb hd => h.standing b d hb ((hcell b hb).symm.trans hd)

/-- A client is left out. -/
theorem focus (h : Parts x none [] l k) (hc : k.mem.cell a = some c) :
    Parts x (some a) c.places l k :=
  { h with
    owned := h.owned.perm (by
      rw [List.append_nil, List.append_assoc (k.server.places ++ k.holding.places)]
      exact (Worker.others_none hc).append_left _)
    kinds := fun b d _ hd => h.kinds b d (by simp) hd
    standing := fun b d _ hd => h.standing b d (by simp) hd }

/-- A client is put back. -/
theorem unfocus (h : Parts x (some a) c.places l k) (hc : k.mem.cell a = some c)
    (hk : Kinds k.fds c) (hd : Settled c)
    (hs : Standing x.strict k.fds c ((l.reg c.socket).map Reg.events)
      (k.log (k.fds.serialOf c.socket))) : Parts x none [] l k := by
  refine { h with owned := h.owned.perm ?_, kinds := ?_, standing := ?_ }
  · rw [List.append_nil, List.append_assoc (k.server.places ++ k.holding.places)]
    exact ((Worker.others_none hc).append_left _).symm
  · intro b d _ hbd
    by_cases hb : b = a
    · rw [hb, hc, Option.some.injEq] at hbd
      exact hbd ▸ ⟨hk, hd⟩
    · exact h.kinds b d (by simpa using hb) hbd
  · intro b d _ hbd
    by_cases hb : b = a
    · rw [hb, hc, Option.some.injEq] at hbd
      exact hbd ▸ hs
    · exact h.standing b d (by simpa using hb) hbd

/-! ## Changes to the registrations -/

/-- Another registration for a descriptor that is not another client's
socket. -/
theorem reloop (h : Parts x ex P l k) {v : Option Registration} (hwf : l'.Wf) (hkept : l.Kept l')
    (hreg : l'.reg = Function.update l.reg fd v)
    (hsocket : ∀ b d, some b ≠ ex → k.mem.cell b = some d → d.socket ≠ fd)
    (hok : ∀ r, v = some r → RegOk x.strict k fd r)
    (hrep : ∀ r, v = some r → ∀ e ∈ l.pending, r.ptr = e.ptr → Reported e r.events) :
    Parts x ex P l' k where
  wf := hwf
  pending := hkept.pending.trans h.pending
  epollEvents := hkept.epollEvents.trans h.epollEvents
  reported_nodup := by
    rw [hkept.pending]
    exact h.reported_nodup
  reported e he fd' r hr hp := by
    rw [hkept.pending] at he
    rw [hreg] at hr
    by_cases hfd : fd' = fd
    · rw [hfd, Function.update_self] at hr
      exact hrep r hr e he hp
    · rw [Function.update_of_ne hfd] at hr
      exact h.reported e he fd' r hr hp
  owned := h.owned
  count := h.count
  room := h.room
  live := h.live
  regs fd' r hr := by
    rw [hreg] at hr
    by_cases hfd : fd' = fd
    · rw [hfd, Function.update_self] at hr
      exact hfd ▸ hok r hr
    · rw [Function.update_of_ne hfd] at hr
      exact h.regs fd' r hr
  kinds := h.kinds
  standing b d hb hd := by
    rw [hreg, Function.update_of_ne (hsocket b d hb hd)]
    exact h.standing b d hb hd
  logs := h.logs
  unused := h.unused
  size := hkept.epollEventsSize ▸ h.size
  told := hkept.run ▸ h.told
  budget := h.budget
  grown := h.grown

/-! ## Clients that come and go -/

/-- The client a handler works on is freed, once it has no descriptor left
and no callback refers to it. -/
theorem freed (h : Parts x (some a) [] l k) (hc : k.mem.cell a = some c)
    (hold : k.holding = .nothing) (hsocket : l.reg c.socket = none)
    (hpidfd : 0 ≤ c.pidfd → l.reg c.pidfd = none) (ha : a ∈ k.mem.live) :
    (a ∈ k.server.clients ∧ 0 < k.server.numClients) ∧ Parts x none [] l { k with
      mem := k.mem.freeLive a ha
      server := { k.server with
        clients := k.server.clients.erase a
        numClients := k.server.numClients - 1 } } := by
  have hlive : k.mem.live.Perm k.server.clients := by
    have := h.live
    rwa [hold] at this
  have hmem : a ∈ k.server.clients := hlive.mem_iff.mp ha
  have hlen := List.length_erase_of_mem hmem
  have hpos := List.length_pos_of_mem hmem
  have hother : ∀ b d, (k.mem.freeLive a ha).cell b = some d →
      some b ≠ some a ∧ k.mem.cell b = some d := by
    intro b d hd
    by_cases hb : b = a
    · rw [hb, show (k.mem.freeLive a ha).cell a = none from Function.update_self ..] at hd
      cases hd
    · exact ⟨fun he => hb (Option.some.inj he), (Heap.freeLive_cell_of_ne ha hb).symm.trans hd⟩
  have h1 : (1 : UInt32) ≤ k.server.numClients := by
    rw [UInt32.le_iff_toNat_le, h.count]
    exact hpos
  have h0 : 0 < k.server.numClients := by
    rw [UInt32.lt_iff_toNat_lt, h.count]
    exact hpos
  refine ⟨⟨hmem, h0⟩, { h with
    owned := ?_, count := ?_, room := ?_, live := ?_, regs := ?_, kinds := ?_, standing := ?_ }⟩
  · show Heap.Owned _ _ (k.server.places ++ k.holding.places ++ [] ++
      Worker.others { k with mem := k.mem.freeLive a ha } none)
    rw [Worker.others_freed]
    exact h.owned
  · show (k.server.numClients - 1).toNat = _
    rw [UInt32.toNat_sub_of_le _ _ h1, h.count, hlen]
    rfl
  · have := h.room
    show (k.server.clients.erase a).length + k.holding.clients.length
      ≤ k.server.params.maxClients.toNat
    omega
  · rw [hold]
    exact hlive.erase a
  · intro fd r hr
    refine (h.regs fd r hr).freed hc ha ?_ (fun h0 => ?_) _
    · rintro rfl
      rw [hsocket] at hr
      cases hr
    · rintro rfl
      rw [hpidfd h0] at hr
      cases hr
  · exact fun b d _ hd => h.kinds b d (hother b d hd).1 (hother b d hd).2
  · exact fun b d _ hd => h.standing b d (hother b d hd).1 (hother b d hd).2

/-- What `server_socket` holds changes hands. -/
theorem reheld (h : Parts x ex P l k) {held : Holding}
    (hp : (k.holding.places ++ P).Perm (held.places ++ P'))
    (hc : held.clients = k.holding.clients) : Parts x ex P' l { k with holding := held } := by
  refine { h with owned := h.owned.perm ?_, room := ?_, live := ?_, regs := ?_ }
  · show (k.server.places ++ k.holding.places ++ P ++ k.others ex).Perm
      (k.server.places ++ held.places ++ P' ++ k.others ex)
    rw [List.append_assoc k.server.places k.holding.places,
      List.append_assoc k.server.places held.places]
    exact (hp.append_left _).append_right _
  · rw [hc]
    exact h.room
  · rw [hc]
    exact h.live
  · exact fun fd r hr => (h.regs fd r hr).congr (fun _ _ hc => hc) rfl

/-- A client is allocated for the connection at hand. -/
theorem allocated (h : Parts x none [c.socket] l { k with holding := .nothing })
    (hplaces : c.places = [c.socket])
    (hroom : k.server.clients.length < k.server.params.maxClients.toNat) (want : Nat) :
    Parts x (some (k.mem.fresh want)) c.places l
      { k with mem := k.mem.alloc want c, holding := .client (k.mem.fresh want) } := by
  have hnew := k.mem.fresh_not_live want
  have hcell : ∀ b d, k.mem.cell b = some d → (k.mem.alloc want c).cell b = some d :=
    fun b d hd => (Heap.alloc_cell_of_live (Heap.mem_live_of_cell hd)).trans hd
  have hold : ∀ b d, some b ≠ some (k.mem.fresh want) → (k.mem.alloc want c).cell b = some d →
      k.mem.cell b = some d := fun b d hb hd =>
    (Heap.alloc_cell_of_ne fun he => hb (congrArg some he)).symm.trans hd
  refine { h with
    owned := ?_, room := hroom, live := h.live.cons _, regs := ?_, kinds := ?_, standing := ?_ }
  · have hothers : Worker.others
        { k with mem := k.mem.alloc want c, holding := .client (k.mem.fresh want) }
        (some (k.mem.fresh want)) = k.others none := by
      rw [Worker.others, Worker.others]
      have hfilter : ((k.mem.fresh want :: k.mem.live).filter
          fun b => some b ≠ some (k.mem.fresh want))
          = k.mem.live.filter fun b => some b ≠ none := by
        rw [List.filter_cons_of_neg (by simp), List.filter_eq_self.mpr, List.filter_eq_self.mpr]
        · simp
        · intro b hb
          have : b ≠ k.mem.fresh want := fun he => hnew (he ▸ hb)
          simpa using this
      rw [Heap.alloc_live, hfilter]
      refine List.flatMap_congr fun b hb => ?_
      rw [Worker.clientPlaces, Worker.clientPlaces,
        Heap.alloc_cell_of_live (List.mem_filter.mp hb).1]
    rw [hothers, hplaces]
    exact h.owned
  · exact fun fd r hr => (h.regs fd r hr).congr hcell rfl
  · exact fun b d hb hd => h.kinds b d (by simp) (hold b d hb hd)
  · exact fun b d hb hd => h.standing b d (by simp) (hold b d hb hd)

/-- The worker is told to stop. -/
theorem terminated (h : Parts x ex P l k) : Parts x ex P l { k with terminated := true } :=
  { h with
    regs := fun fd r hr => (h.regs fd r hr).congr (fun _ _ hc => hc) rfl
    told := fun _ _ => rfl }

/-- The new client is put into the list. -/
theorem inserted (h : Parts x none [] l k) (hold : k.holding = .client a) :
    Parts x none [] l { k with
      holding := .nothing
      server := { k.server with
        clients := a :: k.server.clients
        numClients := k.server.numClients + 1 } } := by
  have hroom := h.room
  rw [hold] at hroom
  refine { h with owned := ?_, count := ?_, room := hroom, live := ?_, regs := ?_ }
  · have := h.owned
    rw [hold] at this
    exact this
  · have hlt := k.server.params.maxClients.toNat_lt
    have hlen : k.server.clients.length + 1 ≤ k.server.params.maxClients.toNat := hroom
    show (k.server.numClients + 1).toNat = k.server.clients.length + 1
    rw [UInt32.toNat_add, h.count, UInt32.toNat_one]
    exact Nat.mod_eq_of_lt (by omega)
  · have := h.live
    rw [hold] at this
    exact this
  · exact fun fd r hr => (h.regs fd r hr).congr (fun _ _ hc => hc) rfl

end Parts

end Sgopher.Server
