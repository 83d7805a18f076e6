/-
Sgopher.Main.SupervisorTheorems — the supervisor's books over its whole
run.

`Books` says that the counter, the array of workers, the table of open
descriptors, the registrations and the log agree. It holds at every call the
supervisor waits in: while it spawns its workers, between two callbacks of
its event loop and inside each of them. `Watch` adds what the event loop
needs of it, so that the rule of `sepoll_enter` gives the run of the loop,
and `main_triple` the run of the whole, after which nothing is left open.

No `sorry`, no `axiom`, no `native_decide`.
-/
import Sgopher.Sepoll.EnterTheorems
import Sgopher.Main.Ledger

namespace Sgopher.Main

open Sgopher.Lib Sgopher.Sepoll

variable {w : World} {s : Supervisor} {ws : List Worker} {k k' : Worker} {i : Nat}

/-! ## The array of workers -/

/-- The descriptors of the workers whose exit is not handled yet. -/
def pidfds (ws : List Worker) : List Int := ws.flatMap fun k => held k.pidfd

@[simp] theorem pidfds_nil : pidfds [] = [] := rfl

@[simp] theorem pidfds_cons : pidfds (k :: ws) = held k.pidfd ++ pidfds ws := rfl

theorem held_length_le (fd : Int) : (held fd).length ≤ 1 := by
  unfold held
  split <;> simp

theorem pidfds_length_le (ws : List Worker) : (pidfds ws).length ≤ ws.length := by
  induction ws with
  | nil => simp
  | cons k ws ih =>
    have := held_length_le k.pidfd
    simp only [pidfds_cons, List.length_append, List.length_cons]
    omega

theorem mem_pidfds (hk : k ∈ ws) (h0 : 0 ≤ k.pidfd) : k.pidfd ∈ pidfds ws :=
  List.mem_flatMap.mpr ⟨k, hk, mem_held h0⟩

theorem actives_length (i : Nat) (ws : List Worker) :
    (actives i ws).length = (pidfds ws).length := by
  induction ws generalizing i with
  | nil => rfl
  | cons k ws ih =>
    rw [actives, pidfds_cons, List.length_append, held]
    split
    · rw [List.length_cons, ih, List.length_singleton, Nat.add_comm]
    · rw [ih, List.length_nil, Nat.zero_add]

/-- A worker's record is overwritten. -/
theorem pidfds_set (hk : ws[i]? = some k) (k' : Worker) :
    (held k'.pidfd ++ pidfds ws).Perm (held k.pidfd ++ pidfds (ws.set i k')) := by
  induction ws generalizing i with
  | nil => simp at hk
  | cons k₀ ws ih =>
    cases i with
    | zero =>
      cases hk
      rw [List.set_cons_zero, pidfds_cons, pidfds_cons, List.perm_iff_count]
      intro b
      simp only [List.count_append]
      omega
    | succ i =>
      have := ih (i := i) (by simpa using hk)
      rw [List.set_cons_succ, pidfds_cons, pidfds_cons]
      rw [List.perm_iff_count] at this ⊢
      intro b
      have := this b
      simp only [List.count_append] at this ⊢
      omega

/-! ## The books -/

/-- Where the supervisor keeps its descriptors. -/
def Supervisor.places (s : Supervisor) : List Int :=
  pidfds s.workers ++ (held s.sigfd ++ s.loop.toList)

/-- What a registration of the supervisor's loop is for. -/
inductive Watches (s : Supervisor) (fd : Int) (r : Reg Handler Arg) : Prop
  | signals (hf : r.function = some .sigfdEvent) (hfd : fd = s.sigfd) (h0 : 0 ≤ fd)
  | worker (i : Nat) (k : Worker) (hf : r.function = some .pidfdEvent)
      (hu : r.userdata2 = .worker i) (hk : s.workers[i]? = some k) (hfd : fd = k.pidfd)
      (h0 : 0 ≤ fd)

/-- The process with more in its log. -/
def noted (w : World) (es : List Event) : World :=
  { w with own := { w.own with log := w.own.log ++ es } }

/-- The counter, the array, the open descriptors, the registrations and
the log agree, but for the signals to the workers of `more`, which are
still to be sent. -/
structure Books (n : UInt32) (more : List Nat) (w : World) : Prop where
  wf : w.loop.Wf
  numWorkers : w.own.supervisor.numWorkers = n
  length : w.own.supervisor.workers.length = n.toNat
  active : w.own.supervisor.activeWorkers.toNat = (pidfds w.own.supervisor.workers).length
  owned : w.own.fds.Owned True w.own.supervisor.places
  objects : ∀ i k, w.own.supervisor.workers[i]? = some k → 0 ≤ k.pidfd →
    w.own.fds.object k.pidfd = some (.worker i)
  regs : ∀ fd r, w.loop.reg fd = some r → Watches w.own.supervisor fd r
  slots : ∀ k ∈ w.own.supervisor.workers, k.pidfd = -1 ∨ 0 ≤ k.pidfd
  log : Logged (actives 0 w.own.supervisor.workers) (w.own.log ++ passedOn more)

/-- What the supervisor may rely on, and what it owes wherever it waits.
Where the kernel wakes it, `epoll_wait` does not fail. The sum that sizes
the event loop can overflow. -/
def contract (woken : Prop) (n : UInt32) : Contract Answer World where
  answers y := woken → ∀ e, y.loop.wait ≠ .error e
  waits w := ∃ m more, Books m more w
  mayFault := loopSize n = none

variable {woken : Prop} {n : UInt32} {rest arr : List EpollEvent} {l : Loop Handler Arg}
  {more : List Nat}

/-- The books, in the supervisor's event loop: where the kernel wakes it,
it stops only when no worker is left. -/
structure Watch (woken : Prop) (n : UInt32) (rest arr : List EpollEvent) (more : List Nat)
    (w : World) : Prop where
  books : Books n more w
  pending : w.loop.pending = rest
  epollEvents : w.loop.epollEvents = arr
  size : woken → 0 < w.loop.epollEventsSize
  told : woken → w.loop.run = false → w.own.supervisor.activeWorkers = 0

/-- More is logged, and is as it ought to be. -/
theorem Watch.noted {more' : List Nat} (h : Watch woken n rest arr more w) (es : List Event)
    (hlog : Logged (actives 0 w.own.supervisor.workers) (w.own.log ++ es ++ passedOn more')) :
    Watch woken n rest arr more' (Main.noted w es) :=
  ⟨⟨h.books.wf, h.books.numWorkers, h.books.length, h.books.active, h.books.owned, h.books.objects,
    h.books.regs, h.books.slots, hlog⟩, h.pending, h.epollEvents, h.size, h.told⟩

/-- A SIGTERM is read: it is to be passed on to the workers that are
left. -/
theorem Watch.term (h : Watch woken n rest arr [] w) :
    Watch woken n rest arr (actives 0 w.own.supervisor.workers) (Main.noted w [.term]) := by
  refine h.noted _ ?_
  have hlog := h.books.log
  rw [passedOn, List.map_nil, List.append_nil] at hlog
  rw [List.append_assoc]
  exact hlog.term

/-- A worker is signalled. -/
theorem Watch.signalled (h : Watch woken n rest arr (i :: more) w) :
    Watch woken n rest arr more (Main.noted w [.signal i SIGTERM]) := by
  refine h.noted _ ?_
  rw [List.append_assoc]
  exact h.books.log

/-- The loop changes, but nothing in it that the books know of. -/
theorem Books.reloop (h : Books n more w) (hwf : l.Wf) (hreg : l.reg = w.loop.reg) :
    Books n more (w.withLoop l) :=
  { h with wf := hwf, regs := fun fd r hr => h.regs fd r (hreg ▸ hr) }

/-! ## Signals -/

theorem systemCall_books {P : World → Prop} (hP : ∀ w, P w → Books n more w) :
    Triple (contract woken n) P systemCall (fun _ => P) :=
  Triple.ask (fun w h => ⟨n, more, hP w h⟩) fun _ _ h _ => h

/-- The workers from number `i` on are signalled: each through the
descriptor that stands for it. -/
theorem signalWorkers_triple : ∀ (i : Nat) (ws : List Worker), ws = s.workers.drop i →
    Triple (contract woken n)
      (fun w => Watch woken n rest arr (actives i ws) w ∧ w.own.supervisor = s)
      (signalWorkers SIGTERM false ws)
      (fun _ w => Watch woken n rest arr [] w ∧ w.own.supervisor = s)
  | _, [], _ => Triple.pure fun _ h => h
  | i, k :: ws, hws => by
    have hk : s.workers[i]? = some k := by
      rw [← List.head?_drop, ← hws]
      rfl
    have hrest : ws = s.workers.drop (i + 1) := by
      rw [← List.tail_drop, ← hws]
      rfl
    refine Triple.bind (R := fun _ w => Watch woken n rest arr (actives (i + 1) ws) w ∧
      w.own.supervisor = s) (Triple.when (fun h0 => ?_) fun h0 w h => ?_) fun _ =>
      signalWorkers_triple (i + 1) ws hrest
    · rw [actives, if_pos h0]
      refine Triple.bind (Triple.bind_eq (v := .worker i)
        (R := fun w => Watch woken n rest arr (i :: actives (i + 1) ws) w ∧ w.own.supervisor = s)
        (Triple.step fun w h => ?_) ?_) fun _ => Triple.when (by simp) fun _ _ h => h
      · have hobj := h.1.books.objects i k (by rw [h.2, hk]) h0
        exact ⟨w, .worker i, by rw [hobj]; rfl, rfl, h⟩
      · refine Triple.bind (R := fun _ w => Watch woken n rest arr (actives (i + 1) ws) w ∧
          w.own.supervisor = s) (Triple.modify fun w h => ⟨h.1.signalled, h.2⟩) fun _ => ?_
        exact Triple.bind (systemCall_books fun w h => h.1.books) fun _ => Triple.pure fun _ h => h
    · rwa [actives, if_neg h0] at h

/-- `sigfd_event` leaves the books as they are. -/
theorem sigfdEvent_triple :
    Triple (contract woken n)
      (fun w => Watch woken n rest arr [] w ∧ 0 ≤ w.own.supervisor.sigfd) sigfdEvent
      (fun _ => Watch woken n rest arr []) := by
  refine Triple.iterate
    (I := fun _ w => Watch woken n rest arr [] w ∧ 0 ≤ w.own.supervisor.sigfd)
    (fun _ w h => (⟨n, [], h.1.books⟩ : ∃ m more, Books m more w)) (fun _ => ?_) ()
  refine Triple.bind (R := fun s w => 0 ≤ s.sigfd ∧ Watch woken n rest arr [] w ∧
    w.own.supervisor = s) (Triple.bind Triple.get fun _ => Triple.pure fun w h => ?_) fun s =>
    Triple.assume fun h0 => ?_
  · exact ⟨h.2 ▸ h.1.2, h.1.1, by rw [h.2]⟩
  refine Triple.bind (R := fun _ w => Watch woken n rest arr [] w ∧ w.own.supervisor = s)
    (Triple.step fun w h => ?_) fun _ => ?_
  · have hopen := h.1.books.owned.isOpen s.sigfd (by
      rw [h.2]
      simp [Supervisor.places, mem_held h0])
    obtain ⟨o, ho⟩ := Heap.object_of_mem_openFds hopen
    exact ⟨w, o, by rw [ho]; rfl, h⟩
  refine Triple.bind (systemCall_books fun w h => h.1.books) fun x => ?_
  cases x.read with
  | error e => exact Triple.pure fun w h => h.1
  | ok signo =>
    refine Triple.bind (R := fun _ w => Watch woken n rest arr [] w ∧ w.own.supervisor = s)
      (Triple.when (fun _ => ?_) fun _ w h => h) fun _ =>
      Triple.pure fun w h => ⟨h.1, h.2 ▸ h0⟩
    refine Triple.bind (R := fun _ w => Watch woken n rest arr (actives 0 s.workers) w ∧
      w.own.supervisor = s) (Triple.modify fun w h => ⟨h.2 ▸ h.1.term, h.2⟩) fun _ => ?_
    refine Triple.bind_eq (v := s)
      (R := fun w => Watch woken n rest arr (actives 0 s.workers) w ∧ w.own.supervisor = s)
      (Triple.bind Triple.get fun _ => Triple.pure fun w h => ⟨by rw [h.2]; exact h.1.2, h.1⟩) ?_
    exact signalWorkers_triple 0 s.workers rfl

/-! ## Exits -/

/-- No worker is left when the counter says so. -/
theorem Books.none_iff (h : Books n more w) :
    w.own.supervisor.activeWorkers = 0 ↔ actives 0 w.own.supervisor.workers = [] := by
  rw [← List.length_eq_zero_iff, actives_length, ← h.active, ← UInt32.toNat_inj, UInt32.toNat_zero]

/-- The process without a worker whose exit was handled. -/
def reaped (w : World) (i : Nat) (k : Worker) (fds : Heap Object) : World :=
  { loop := { w.loop with interest := Function.update w.loop.interest k.pidfd none }
    own := { w.own with
      fds := fds
      supervisor := { w.own.supervisor with
        workers := w.own.supervisor.workers.set i { k with pidfd := -1 }
        activeWorkers := w.own.supervisor.activeWorkers - 1 } } }

/-- The workers but for one whose exit is handled. -/
theorem pidfds_handled (hk : ws[i]? = some k) (h0 : 0 ≤ k.pidfd) :
    (pidfds ws).Perm (k.pidfd :: pidfds (ws.set i { k with pidfd := -1 })) := by
  have hset := pidfds_set hk { k with pidfd := -1 }
  rwa [show held k.pidfd = [k.pidfd] from if_pos h0] at hset

/-- Another worker's record is not touched. -/
theorem getElem?_set_of_pidfd {j : Nat} (hk : ws[i]? = some k) {k' : Worker}
    (hk' : ws[j]? = some k') (hne : k'.pidfd ≠ k.pidfd) (v : Worker) :
    (ws.set i v)[j]? = some k' := by
  rw [List.getElem?_set_ne, hk']
  rintro rfl
  rw [hk, Option.some.injEq] at hk'
  exact hne (hk' ▸ rfl)

/-- The registration of a worker whose exit is handled is gone. -/
theorem Watch.unwatched (h : Watch woken n rest arr [] w) (fd : Int) :
    ∃ l ret, w.loop.remove fd = some (l, ret) ∧ Watch woken n rest arr [] (w.withLoop l) ∧
      l.reg fd = none := by
  obtain ⟨l, ret, hrun, hwf, hkept, hreg⟩ := h.books.wf.remove_spec fd
  refine ⟨l, ret, hrun, ⟨?_, hkept.pending.trans h.pending, hkept.epollEvents.trans h.epollEvents,
    fun hw => ?_, fun hw hr => ?_⟩, ?_⟩
  · refine { h.books with wf := hwf, regs := fun fd' r hr => h.books.regs fd' r ?_ }
    rw [World.withLoop, hreg, Function.update_apply] at hr
    split at hr
    · cases hr
    · exact hr
  · exact (hkept.epollEventsSize.symm ▸ h.size hw : 0 < l.epollEventsSize)
  · exact h.told hw (hkept.run.symm.trans hr)
  · rw [hreg, Function.update_self]

/-- A worker's exit, once its registration is gone: its descriptor is
closed, and it is counted off. The log is to tell of it. -/
theorem Watch.reaped (h : Watch woken n rest arr [] w) (hk : w.own.supervisor.workers[i]? = some k)
    (h0 : 0 ≤ k.pidfd) (hreg : w.loop.reg k.pidfd = none) :
    ∃ fds, w.own.fds.closeFd k.pidfd = some fds ∧
      Watch woken n rest arr [] (Main.noted (Main.reaped w i k fds)
        (.handled i :: exitCall (actives 0 (Main.reaped w i k fds).own.supervisor.workers))) := by
  have hperm := pidfds_handled hk h0
  have howned : w.own.fds.Owned True (k.pidfd ::
      (pidfds (w.own.supervisor.workers.set i { k with pidfd := -1 }) ++
        (held w.own.supervisor.sigfd ++ w.own.supervisor.loop.toList))) :=
    h.books.owned.perm (hperm.append_right _)
  refine ⟨_, Heap.closeFd_eq howned.head_open, ?_⟩
  have hinterest : Function.update w.loop.interest k.pidfd none = w.loop.interest := by
    rw [← (h.books.wf.reg_none_iff _).mp hreg, Function.update_eq_self]
  have hactive := h.books.active
  rw [hperm.length_eq, List.length_cons] at hactive
  have hleft : actives 0 (w.own.supervisor.workers.set i { k with pidfd := -1 }) =
      (actives 0 w.own.supervisor.workers).erase i := by
    have := actives_handled { k with pidfd := -1 } hk h0 (by simp) 0
    rwa [Nat.zero_add] at this
  unfold Main.reaped Main.noted
  rw [hinterest]
  refine ⟨⟨h.books.wf, h.books.numWorkers, ?_, ?_, howned.closed, ?_, ?_, ?_, ?_⟩, h.pending,
    h.epollEvents, h.size, ?_⟩
  · exact (List.length_set ..).trans h.books.length
  · have hle : 1 ≤ w.own.supervisor.activeWorkers := by
      rw [UInt32.le_iff_toNat_le, UInt32.toNat_one]
      omega
    rw [UInt32.toNat_sub_of_le _ _ hle, UInt32.toNat_one]
    exact Nat.sub_eq_of_eq_add hactive
  · intro j k' hk' h0'
    have hne : k'.pidfd ≠ k.pidfd :=
      howned.ne (List.mem_append_left _ (mem_pidfds (List.mem_of_getElem? hk') h0'))
    have hj : j ≠ i := by
      rintro rfl
      have hlt := (List.getElem?_eq_some_iff.mp hk).1
      rw [List.getElem?_set_self hlt, Option.some.injEq] at hk'
      rw [← hk'] at h0'
      exact absurd h0' (by simp)
    rw [List.getElem?_set_ne hj.symm] at hk'
    exact (Heap.closedFd_object_of_ne howned.head_open hne).trans (h.books.objects j k' hk' h0')
  · intro fd r hr
    have hne : fd ≠ k.pidfd := by
      rintro rfl
      rw [show w.loop.reg k.pidfd = some r from hr] at hreg
      cases hreg
    cases h.books.regs fd r hr with
    | signals hf hfd h0 => exact .signals hf hfd h0
    | worker j k' hf hu hk' hfd h0 =>
      exact .worker j k' hf hu (getElem?_set_of_pidfd hk hk' (hfd ▸ hne) _) hfd h0
  · intro k' hk'
    rcases List.mem_or_eq_of_mem_set hk' with hk' | rfl
    · exact h.books.slots k' hk'
    · exact Or.inl rfl
  · have hmem := mem_actives hk h0 0
    have hlog := h.books.log
    rw [Nat.zero_add] at hmem
    simp only [passedOn, List.map_nil, List.append_nil] at hlog ⊢
    rw [hleft]
    exact hlog.handled i hmem
  · intro hwoken hrun
    have := h.told hwoken hrun
    rw [this] at hactive
    simp at hactive

/-- The end of `pidfd_event`: the loop is told to stop if the counter says
that no worker is left, which is when that is to be logged. -/
theorem stopIfNone_triple :
    Triple (contract woken n)
      (fun w => Watch woken n rest arr []
        (noted w (exitCall (actives 0 w.own.supervisor.workers))))
      (do
        let s ← getSupervisor
        Prog.when (s.activeWorkers = 0) do
          note .exitLoop
          sepollExit)
      (fun _ => Watch woken n rest arr []) := by
  refine Triple.bind (R := fun s w => Watch woken n rest arr []
    (noted w (exitCall (actives 0 w.own.supervisor.workers))) ∧ w.own.supervisor = s)
    (Triple.bind Triple.get fun _ => Triple.pure fun w h => ⟨h.1, by rw [h.2]⟩) fun s => ?_
  refine Triple.when (fun hzero => ?_) fun hsome w ⟨h, hs⟩ => ?_
  · refine Triple.bind (R := fun _ w => Watch woken n rest arr [] w ∧ w.own.supervisor = s)
      (Triple.modify ?_) fun _ => Triple.modify ?_
    · rintro w ⟨h, hs⟩
      have hnone : actives 0 w.own.supervisor.workers = [] :=
        h.books.none_iff.mp (hs ▸ hzero)
      rw [exitCall, if_pos hnone] at h
      exact ⟨h, hs⟩
    · rintro w ⟨h, hs⟩
      exact ⟨h.books.reloop (h.books.wf.setRun false) rfl, h.pending, h.epollEvents, h.size,
        fun _ _ => hs ▸ hzero⟩
  · have hleft : ¬ actives 0 w.own.supervisor.workers = [] := fun hnone =>
      hsome (hs ▸ h.books.none_iff.mpr hnone)
    rw [exitCall, if_neg hleft, noted, List.append_nil] at h
    exact h

/-- `pidfd_event`, called for a registration. -/
theorem pidfdEvent_triple {fd : Int} {r : Reg Handler Arg} (hf : r.function = some .pidfdEvent)
    (hu : r.userdata2 = .worker i) :
    Triple (contract woken n)
      (fun w => Watch woken n rest arr [] w ∧ w.loop.reg fd = some r) (pidfdEvent i)
      (fun _ => Watch woken n rest arr []) := by
  refine Triple.bind (R := fun k w => Watch woken n rest arr [] w ∧
    w.own.supervisor.workers[i]? = some k ∧ 0 ≤ k.pidfd)
    (Triple.step fun w ⟨h, hr⟩ => ?_) fun k => ?_
  · cases h.books.regs fd r hr with
    | signals hf' => rw [hf] at hf'; cases hf'
    | worker j k hf' hu' hk hfd h0 =>
      rw [hu] at hu'
      cases hu'
      exact ⟨w, k, by rw [hk]; rfl, h, hk, hfd ▸ h0⟩
  refine Triple.bind (R := fun _ w => Watch woken n rest arr [] w ∧
    w.own.supervisor.workers[i]? = some k ∧ 0 ≤ k.pidfd) (Triple.step fun w h => ?_) fun _ => ?_
  · have hobj := h.1.books.objects i k h.2.1 h.2.2
    exact ⟨w, .worker i, by rw [hobj]; rfl, h⟩
  refine Triple.bind (systemCall_books fun w h => h.1.books) fun _ => ?_
  -- the log runs ahead of the array until the worker is counted off
  refine Triple.bind (R := fun _ w => ∃ w₀, w = noted w₀ [.handled i] ∧
    Watch woken n rest arr [] w₀ ∧ w₀.own.supervisor.workers[i]? = some k ∧ 0 ≤ k.pidfd)
    (Triple.modify fun w h => ⟨w, rfl, h⟩) fun _ => ?_
  refine Triple.bind (R := fun _ w => ∃ w₀, w = noted w₀ [.handled i] ∧
    Watch woken n rest arr [] w₀ ∧ w₀.own.supervisor.workers[i]? = some k ∧ 0 ≤ k.pidfd ∧
    w₀.loop.reg k.pidfd = none) (onLoop_triple ?_) fun _ => ?_
  · rintro _ ⟨w, rfl, h, hk, h0⟩
    obtain ⟨l, ret, hrun, hwatch, hreg⟩ := h.unwatched k.pidfd
    exact ⟨l, ret, hrun, w.withLoop l, rfl, hwatch, hk, h0, hreg⟩
  refine Triple.bind (R := fun _ w => ∃ w₀ fds, w = noted { w₀ with
      loop := { w₀.loop with interest := Function.update w₀.loop.interest k.pidfd none }
      own := { w₀.own with fds := fds } } [.handled i] ∧
      Watch woken n rest arr [] (noted (reaped w₀ i k fds)
        (.handled i :: exitCall (actives 0 (reaped w₀ i k fds).own.supervisor.workers))))
    (Triple.step ?_) fun _ => ?_
  · rintro _ ⟨w, rfl, h, hk, h0, hreg⟩
    obtain ⟨fds, hclose, hwatch⟩ := h.reaped hk h0 hreg
    exact ⟨_, (), by rw [noted, hclose]; rfl, w, fds, rfl, hwatch⟩
  refine Triple.bind (Triple.modify ?_) fun _ => stopIfNone_triple
  rintro _ ⟨w₀, fds, rfl, hwatch⟩
  rw [noted, List.append_cons] at hwatch
  exact hwatch

/-! ## The event loop -/

/-- The supervisor between two callbacks. -/
def Watching (woken : Prop) (n : UInt32) (w : World) : Prop :=
  Watch woken n w.loop.pending w.loop.epollEvents [] w

/-- The callbacks keep the books. -/
theorem supervisor_enterInv (woken : Prop) (n : UInt32) :
    EnterInv (contract woken n) (Watching woken n) handle (-1) none where
  wf _ h := h.books.wf
  waits _ h := ⟨n, [], h.books⟩
  start _ h :=
    ⟨h.books.reloop (h.books.wf.setRun true) rfl, rfl, rfl, h.size, by simp [World.withLoop]⟩
  stop := by
    intro _ w y m h _ hy hm hr
    refine ⟨h.books.reloop (h.books.wf.setRun false) rfl, rfl, rfl, h.size, fun hwoken => ?_⟩
    -- where the kernel wakes the loop, waiting does not end like this
    obtain ⟨e, he⟩ := Loop.poll_error (h.size hwoken) (by decide) hm hr
    exact absurd he (hy hwoken e)
  batch _ _ _ h _ _ hb :=
    ⟨h.books.reloop (h.books.wf.polled hb) rfl, rfl, rfl, h.size, h.told⟩
  skip _ _ _ _ h _ _ _ := ⟨h.books.reloop h.books.wf.popped rfl, rfl, rfl, h.size, h.told⟩
  callback := by
    rintro e rest cb f arr hf _ ans ⟨w, h, hp, hc, harr, rfl⟩ hA
    obtain ⟨r, hr, _, hrf, _, hru⟩ := h.books.wf.reg_of_pending (by simp [hp]) hc hf
    have hpop : Watch woken n rest arr [] (w.withLoop w.loop.popped) :=
      ⟨h.books.reloop h.books.wf.popped rfl, by simp [World.withLoop, Loop.popped, hp], harr,
        h.size,
        h.told⟩
    have hdone : Triple (contract woken n)
        (fun w => Watch woken n rest arr [] w ∧ w.loop.reg cb.fd = some r)
        (handle f e.events cb.userdata1 cb.userdata2) (fun _ => Watch woken n rest arr []) := by
      rw [← hru]
      cases f with
      | sigfdEvent =>
        refine sigfdEvent_triple.pre fun w h => ⟨h.1, ?_⟩
        cases h.1.books.regs _ r h.2 with
        | signals _ hfd h0 => exact hfd ▸ h0
        | worker _ _ hf' => rw [hrf] at hf'; cases hf'
      | pidfdEvent =>
        cases h.books.regs _ r hr with
        | signals hf' => rw [hrf] at hf'; cases hf'
        | worker i _ _ hu =>
          rw [hu]
          exact pidfdEvent_triple hrf hu
    refine (hdone.post fun _ w' h' => ?_) _ ans ⟨hpop, hr⟩ hA
    refine ⟨?_, h'.pending, h'.epollEvents⟩
    rw [Watching, h'.pending, h'.epollEvents]
    exact h'
  after := by simp
  collect w l h hp hc := by
    obtain ⟨heap, hrun, _⟩ := h.books.wf.collect_spec hp
    rw [hrun, Option.some.injEq] at hc
    have hwf := h.books.wf.collected hp hrun
    have hreg := h.books.wf.collected_reg hp hrun
    subst hc
    exact ⟨h.books.reloop hwf hreg, rfl, rfl, h.size, h.told⟩

end Sgopher.Main
