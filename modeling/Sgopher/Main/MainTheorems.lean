/-
Sgopher.Main.MainTheorems — the whole run of the supervisor.

`main` spawns its workers, sets up its event loop, enters it, and cleans
up. The books are right from the first fork on; `supervise_triple` says
with what the event loop leaves them, and `main_triple` that the process
then gives back what it has left.

Before that it reads its options. Options that set different fields
commute, so their order is only of interest among those of one kind
(`parsed_by_option`); and what `main` reports of its arguments, given back
as options in any order, gives the same arguments (`reported_parses`).

No `sorry`, no `axiom`, no `native_decide`.
-/
import Sgopher.Main.SupervisorTheorems

namespace Sgopher.Main

open Sgopher.Lib Sgopher.Sepoll

variable {w : World} {s : Supervisor} {ws : List Worker} {k k' : Worker} {i : Nat} {woken : Prop}
  {n : UInt32} {rest arr : List EpollEvent} {l : Loop Handler Arg}

/-! ## The command line -/

section CommandLine

variable {options options' : List (ArgKey × Bytes)}

/-- Each option sets a field of its own and looks at no other, and the
report has every option once. -/
theorem argpParseOptions_restores : Restores argpParseOptions Args.report where
  apart := by
    intro k k' hne v v' args
    cases k <;> cases k' <;> first | rfl | exact absurd rfl hne
  once args := by simp [Args.report]
  back args args' := by
    simp only [Args.report, runCalls_cons, runCalls_nil, argpParseOptions, scanInto_decimal,
      storeUInt_toNat, storeUShort_toNat]

/-- Command lines that give each option the same arguments, in order, come
to the same. -/
theorem parsed_by_option (hsame : ∀ k, (options.filter fun c => c.1 = k) =
      options'.filter fun c => c.1 = k) : argpParse options = argpParse options' :=
  argpParseOptions_restores.apart.run_congr hsame .default

/-- The port is given twice, and the second time by what is not all a
number. -/
theorem parsed_by_option_twice :
    argpParse [(.port, ascii "7070"), (.hostname, ascii "here"), (.port, ascii " +70th")] =
      argpParse [(.hostname, ascii "here"), (.port, ascii "7070"), (.port, ascii " +70th")] :=
  parsed_by_option fun k => by cases k <;> rfl

/-- What the server reports of its arguments are options for the same
server. -/
theorem reported_parses (args : Args) (hp : options.Perm args.report) : argpParse options = args :=
  argpParseOptions_restores.run_eq hp .default

theorem reported_parses_reversed :
    argpParse ({ Args.default with port := 65535, timeout := 4294967295 }).report.reverse =
      { Args.default with port := 65535, timeout := 4294967295 } :=
  reported_parses _ (List.reverse_perm _)

end CommandLine

/-! ## Spawning -/

/-- A supervisor that has no event loop yet, and no worker from number `i`
on. -/
structure Spawning (n : UInt32) (i : Nat) (w : World) : Prop where
  books : Books n [] w
  later : ∀ j k, i ≤ j → w.own.supervisor.workers[j]? = some k → k.pidfd = -1
  loop : w.loop = .created 0
  sigfd : w.own.supervisor.sigfd = -1
  created : w.own.supervisor.loop = none
  forks : ∀ e ∈ w.own.log, ∃ j < i, e = .forked j

theorem pidfds_eq_nil (h : ∀ k ∈ ws, k.pidfd = -1) : pidfds ws = [] :=
  List.flatMap_eq_nil_iff.mpr fun k hk => by rw [h k hk]; rfl

/-- Before the first fork there is nothing to keep books of. -/
theorem started_spawning (n : UInt32) :
    Spawning n 0 { started with own := { started.own with supervisor := .new n } } := by
  have hnone : ∀ k ∈ (Supervisor.new n).workers, k.pidfd = -1 := fun k hk => by
    rw [List.eq_of_mem_replicate hk]
  have hplaces : (Supervisor.new n).places = [] := by
    rw [Supervisor.places, pidfds_eq_nil hnone]
    rfl
  refine ⟨⟨.new 0, rfl, List.length_replicate .., ?_, ?_, ?_, ?_, ?_, ?_⟩, ?_, rfl, rfl, rfl,
    by simp [started]⟩
  · simp only [pidfds_eq_nil hnone]
    rfl
  · simp only [hplaces]
    exact ⟨List.nodup_nil, by simp, by simp [started, Heap.openFds, Heap.empty]⟩
  · intro i k hk h0
    rw [hnone k (List.mem_of_getElem? hk)] at h0
    exact absurd h0 (by decide)
  · simp [started, Loop.created, Loop.reg]
  · exact fun k hk => Or.inl (hnone k hk)
  · have hleft : actives 0 (Supervisor.new n).workers = [] :=
      actives_eq_nil (fun k hk => by rw [hnone k hk]; decide) 0
    simp only [hleft]
    exact .nil
  · exact fun j k _ hk => hnone k (List.mem_of_getElem? hk)

/-- The process with one more worker. -/
def forked (w : World) (i : Nat) (pid want : Int) (log : List Event) : World :=
  { w with own := { w.own with
      fds := (w.own.fds.openFd want (.worker i)).1
      log := log
      supervisor := { w.own.supervisor with
        workers := w.own.supervisor.workers.set i
          ⟨UInt32.ofNat i, pid, (w.own.fds.openFd want (.worker i)).2⟩
        activeWorkers := w.own.supervisor.activeWorkers + 1 } } }

/-- A worker is entered in the books. -/
theorem Spawning.forked (h : Spawning n i w) (hi : i < n.toNat) (pid want : Int) :
    Spawning n (i + 1) (Main.forked w i pid want (w.own.log ++ [.forked i])) := by
  obtain ⟨k, hk⟩ : ∃ k, w.own.supervisor.workers[i]? = some k :=
    ⟨_, List.getElem?_eq_getElem (h.books.length ▸ hi)⟩
  have hlt := (List.getElem?_eq_some_iff.mp hk).1
  have hfd := Heap.openFd_ge w.own.fds want (.worker i)
  have hperm := pidfds_set hk ⟨UInt32.ofNat i, pid, (w.own.fds.openFd want (.worker i)).2⟩
  have hnone : held k.pidfd = [] := by
    rw [h.later i k (Nat.le_refl i) hk]
    rfl
  have hsome :
      held (w.own.fds.openFd want (.worker i)).2 = [(w.own.fds.openFd want (.worker i)).2] :=
    if_pos (by omega)
  rw [hnone, hsome, List.nil_append, List.singleton_append] at hperm
  have hcount := pidfds_length_le (w.own.supervisor.workers.set i
    ⟨UInt32.ofNat i, pid, (w.own.fds.openFd want (.worker i)).2⟩)
  rw [List.length_set, h.books.length, ← hperm.length_eq, List.length_cons] at hcount
  refine ⟨⟨h.books.wf, h.books.numWorkers, ?_, ?_, ?_, ?_, ?_, ?_, ?_⟩, ?_, h.loop, h.sigfd,
    h.created, ?_⟩
  · exact (List.length_set ..).trans h.books.length
  · have hbound := UInt32.toNat_lt n
    have hactive := h.books.active
    simp only [Main.forked, UInt32.toNat_add, UInt32.toNat_one, ← hperm.length_eq, List.length_cons]
    omega
  · exact (h.books.owned.opened want (.worker i)).perm (hperm.append_right _)
  · intro j k' hk' h0
    by_cases hj : j = i
    · subst hj
      rw [Main.forked, List.getElem?_set_self hlt, Option.some.injEq] at hk'
      subst hk'
      exact Heap.openFd_object_self ..
    · rw [Main.forked, List.getElem?_set_ne (Ne.symm hj)] at hk'
      have hopen := h.books.owned.isOpen k'.pidfd
        (List.mem_append_left _ (mem_pidfds (List.mem_of_getElem? hk') h0))
      exact (Heap.openFd_object_of_mem hopen).trans (h.books.objects j k' hk' h0)
  · intro fd r hr
    rw [show (Main.forked w i pid want _).loop = .created 0 from h.loop] at hr
    simp [Loop.created, Loop.reg] at hr
  · intro k' hk'
    rcases List.mem_or_eq_of_mem_set hk' with hk' | rfl
    · exact h.books.slots k' hk'
    · exact Or.inr (by simpa using Int.le_trans (by decide) hfd)
  · have hlater : ∀ k ∈ w.own.supervisor.workers.drop i, ¬ 0 ≤ k.pidfd := fun k hk => by
      obtain ⟨j, hj⟩ := List.getElem?_of_mem hk
      rw [List.getElem?_drop] at hj
      rw [h.later (i + j) k (Nat.le_add_right i j) hj]
      decide
    have hleft := actives_forked ⟨UInt32.ofNat i, pid, (w.own.fds.openFd want (.worker i)).2⟩
      hlt hlater (by simpa using Int.le_trans (by decide) hfd) 0
    have hlog := h.books.log
    rw [Nat.zero_add] at hleft
    simp only [Main.forked, hleft, passedOn, List.map_nil, List.append_nil] at hlog ⊢
    exact hlog.forked i h.forks
  · intro j k' hj hk'
    rw [Main.forked, List.getElem?_set_ne (by omega)] at hk'
    exact h.later j k' (by omega) hk'
  · intro e he
    rcases List.mem_append.mp he with he | he
    · obtain ⟨j, hj, he⟩ := h.forks e he
      exact ⟨j, Nat.lt_succ_of_lt hj, he⟩
    · exact ⟨i, Nat.lt_succ_self i, List.mem_singleton.mp he⟩

theorem spawnWorker_triple (hi : i < n.toNat) :
    Triple (contract woken n) (Spawning n i) (spawnWorker i) (fun _ => Spawning n (i + 1)) := by
  refine Triple.bind (systemCall_books fun w h => h.books) fun x => ?_
  cases x.fork with
  | none =>
    exact Triple.pure fun w h =>
      ⟨h.books, fun j k hj hk => h.later j k (by omega) hk, h.loop, h.sigfd, h.created,
        fun e he => (h.forks e he).imp fun j hj => ⟨Nat.lt_succ_of_lt hj.1, hj.2⟩⟩
  | some p =>
    obtain ⟨pid, want⟩ := p
    refine Triple.bind (R := fun fd w => ∃ w₀, Spawning n i w₀ ∧
      fd = (w₀.own.fds.openFd want (.worker i)).2 ∧
      w = { w₀ with own := { w₀.own with fds := (w₀.own.fds.openFd want (.worker i)).1 } })
      (Triple.step fun w h => ⟨_, _, rfl, w, h, rfl, rfl⟩) fun fd => ?_
    refine Triple.bind (R := fun _ w => ∃ w₀, Spawning n i w₀ ∧
      fd = (w₀.own.fds.openFd want (.worker i)).2 ∧
      w = { w₀ with own := { w₀.own with
        fds := (w₀.own.fds.openFd want (.worker i)).1
        log := w₀.own.log ++ [.forked i] } }) (Triple.modify ?_) fun _ => Triple.modify ?_
    · rintro _ ⟨w₀, h, rfl, rfl⟩
      exact ⟨w₀, h, rfl, rfl⟩
    · rintro _ ⟨w₀, h, rfl, rfl⟩
      exact h.forked hi pid want

/-- The whole spawn loop. -/
theorem spawnWorkers_triple : ∀ (m i : Nat), i + m = n.toNat →
    Triple (contract woken n) (Spawning n i) (spawnWorkers m i) (fun _ => Spawning n n.toNat)
  | 0, i, hi => Triple.pure fun w h => by
    have : i = n.toNat := by omega
    exact this ▸ h
  | m + 1, i, hi => Triple.bind (spawnWorker_triple (by omega)) fun _ =>
    spawnWorkers_triple m (i + 1) (by omega)

/-! ## Setting up the event loop -/

/-- A descriptor of the supervisor is registered, or refused. -/
theorem sepollAdd_triple {fd : Int} {events : UInt32} {f : Handler} {u1 u2 : Arg}
    (hfd : ∀ p, Watches s fd ⟨p, events, some f, u1, u2⟩) :
    Triple (contract woken n) (fun w => Watch woken n rest arr [] w ∧ w.own.supervisor = s)
      (sepollAdd fd events (some f) u1 u2)
      (fun _ w => Watch woken n rest arr [] w ∧ w.own.supervisor = s) := by
  refine Triple.bind (systemCall_books fun w h => h.1.books) fun x => ?_
  refine onLoop_triple fun w ⟨h, hs⟩ => ?_
  obtain ⟨l, ret, hrun, hwf, hkept, hcases⟩ := h.books.wf.add_spec fd events (some f) u1 u2 x.loop
  refine ⟨l, ret, hrun, ⟨?_, hkept.pending.trans h.pending, hkept.epollEvents.trans h.epollEvents,
    fun hw => (hkept.epollEventsSize.symm ▸ h.size hw : 0 < l.epollEventsSize),
    fun hw hr => h.told hw (hkept.run.symm.trans hr)⟩, hs⟩
  rcases hcases with ⟨_, hreg⟩ | ⟨p, _, _, _, hreg⟩
  · exact h.books.reloop hwf hreg
  · refine { h.books with wf := hwf, regs := fun fd' r hr => ?_ }
    rw [World.withLoop, hreg, Function.update_apply] at hr
    split at hr
    · rename_i he
      cases hr
      exact he ▸ hs ▸ hfd p
    · exact h.books.regs fd' r hr

theorem registerWorkers_triple : ∀ (i : Nat) (ws : List Worker), ws = s.workers.drop i →
    Triple (contract woken n) (fun w => Watch woken n rest arr [] w ∧ w.own.supervisor = s)
      (registerWorkers i ws) (fun _ w => Watch woken n rest arr [] w ∧ w.own.supervisor = s)
  | _, [], _ => Triple.pure fun _ h => h
  | i, k :: ws, hws => by
    have hk : s.workers[i]? = some k := by
      rw [← List.head?_drop, ← hws]
      rfl
    have hrest : ws = s.workers.drop (i + 1) := by
      rw [← List.tail_drop, ← hws]
      rfl
    refine Triple.bind (Triple.when (fun h0 => ?_) fun _ _ h => h) fun _ =>
      registerWorkers_triple (i + 1) ws hrest
    refine Triple.bind (sepollAdd_triple fun p => ?_) fun _ => Triple.pure fun _ h => h
    exact .worker i k rfl rfl hk rfl (by omega)

theorem register_triple :
    Triple (contract woken n)
      (fun w => Watch woken n rest arr [] w ∧ 0 ≤ w.own.supervisor.sigfd) register
      (fun _ => Watch woken n rest arr []) := by
  refine Triple.bind (R := fun s w => 0 ≤ s.sigfd ∧ Watch woken n rest arr [] w ∧
    w.own.supervisor = s) (Triple.bind Triple.get fun _ => Triple.pure fun w h => ?_) fun s =>
    Triple.assume fun h0 => ?_
  · exact ⟨h.2 ▸ h.1.2, h.1.1, by rw [h.2]⟩
  refine Triple.bind (sepollAdd_triple fun p => .signals rfl rfl h0) fun _ => ?_
  exact (registerWorkers_triple 0 s.workers rfl).post fun _ w h => h.1

/-! ## The run up to `exit` -/

/-- What the supervisor leaves to `exit`: on success its event loop has
ended, and on failure it had none. -/
structure Leaving (woken : Prop) (n : UInt32) (code : ExitStatus) (w : World) : Prop where
  books : Books n [] w
  pending : w.loop.pending = []
  success : code = .success → woken → w.own.supervisor.activeWorkers = 0

theorem Spawning.leaving (h : Spawning n i w) : Leaving woken n .failure w :=
  ⟨h.books, by rw [h.loop]; rfl, by simp⟩

/-- A new descriptor of the supervisor's own finds its place. -/
theorem Books.opened (h : Books n [] w) (hwf : l.Wf) (hreg : l.reg = fun _ => none) (want : Int)
    (o : Object) {s : Supervisor}
    (hs : s.places.Perm ((w.own.fds.openFd want o).2 :: w.own.supervisor.places))
    (hworkers : s.workers = w.own.supervisor.workers)
    (hactive : s.activeWorkers = w.own.supervisor.activeWorkers)
    (hn : s.numWorkers = w.own.supervisor.numWorkers) :
    Books n [] { loop := l, own := { w.own with
      fds := (w.own.fds.openFd want o).1
      supervisor := s } } where
  wf := hwf
  numWorkers := hn.trans h.numWorkers
  length := by simp only [hworkers, h.length]
  active := by simp only [hworkers, hactive, h.active]
  owned := (h.owned.opened want o).perm hs.symm
  objects i k hk h0 := by
    simp only [hworkers] at hk
    have hopen := h.owned.isOpen k.pidfd
      (List.mem_append_left _ (mem_pidfds (List.mem_of_getElem? hk) h0))
    exact (Heap.openFd_object_of_mem hopen).trans (h.objects i k hk h0)
  regs fd r hr := by
    rw [hreg] at hr
    cases hr
  slots := by simpa only [hworkers] using h.slots
  log := by simpa only [hworkers] using h.log

/-- A supervisor that has its signalfd, and is about to create its event
loop. -/
structure Ready (n : UInt32) (w : World) : Prop where
  books : Books n [] w
  loop : w.loop = .created 0
  sigfd : 0 ≤ w.own.supervisor.sigfd
  created : w.own.supervisor.loop = none

theorem Ready.leaving (h : Ready n w) : Leaving woken n .failure w :=
  ⟨h.books, by rw [h.loop]; rfl, by simp⟩

/-- The signalfd. -/
theorem signalfd_triple (want : Int) :
    Triple (contract woken n) (Spawning n i)
      (do
        let sigfd ← openFd want .signals
        setSupervisor fun s => { s with sigfd := sigfd })
      (fun _ => Ready n) := by
  refine Triple.bind (R := fun fd w => ∃ w₀, Spawning n i w₀ ∧
    fd = (w₀.own.fds.openFd want .signals).2 ∧
    w = { w₀ with own := { w₀.own with fds := (w₀.own.fds.openFd want .signals).1 } })
    (Triple.step fun w h => ⟨_, _, rfl, w, h, rfl, rfl⟩) fun fd => Triple.modify ?_
  rintro _ ⟨w₀, h, rfl, rfl⟩
  have hfd := Heap.openFd_ge w₀.own.fds want .signals
  refine ⟨h.books.opened h.books.wf ?_ want .signals ?_ rfl rfl rfl, h.loop, ?_, h.created⟩
  · rw [h.loop]
    rfl
  · have hold : w₀.own.supervisor.places = pidfds w₀.own.supervisor.workers := by
      rw [Supervisor.places, h.sigfd, h.created]
      exact List.append_nil _
    have hnew : held (w₀.own.fds.openFd want .signals).2 = [(w₀.own.fds.openFd want .signals).2] :=
      if_pos (by omega)
    rw [hold, Supervisor.places, hnew, h.created]
    exact List.perm_append_comm
  · exact Int.le_trans (by decide) hfd

/-- `sepoll_create`. -/
theorem createLoop_triple {size : Int} (hsize : woken → size ≠ 0) :
    Triple (contract woken n) (Ready n) (createLoop size)
      (fun created w => if created then
        (∃ arr, Watch woken n [] arr [] w) ∧ 0 ≤ w.own.supervisor.sigfd else Ready n w) := by
  refine Triple.bind (systemCall_books fun w h => h.books) fun x => ?_
  by_cases h0 : 0 ≤ size
  · have hc : (sepollCreate size true (decide (0 ≤ size)) true : Option (Loop Handler Arg))
        = some (.created size) := by simp [sepollCreate, h0]
    simp only [hc]
    cases x.create with
    | none => exact Triple.pure fun w h => h
    | some want =>
      refine Triple.bind (R := fun fd w => ∃ w₀, Ready n w₀ ∧
        fd = (w₀.own.fds.openFd want .epoll).2 ∧
        w = { w₀ with own := { w₀.own with fds := (w₀.own.fds.openFd want .epoll).1 } })
        (Triple.step fun w h => ⟨_, _, rfl, w, h, rfl, rfl⟩) fun fd => ?_
      refine Triple.bind (R := fun _ w => ∃ w₀, Ready n w₀ ∧
        fd = (w₀.own.fds.openFd want .epoll).2 ∧
        w = { loop := .created size, own := { w₀.own with
          fds := (w₀.own.fds.openFd want .epoll).1 } }) (Triple.modify ?_) fun _ => ?_
      · rintro _ ⟨w₀, h, rfl, rfl⟩
        exact ⟨w₀, h, rfl, rfl⟩
      refine Triple.bind (R := fun _ w => (∃ arr, Watch woken n [] arr [] w) ∧
        0 ≤ w.own.supervisor.sigfd) (Triple.modify ?_) fun _ => Triple.pure fun w h => h
      rintro _ ⟨w₀, h, rfl, rfl⟩
      refine ⟨⟨_, h.books.opened (.new size) rfl want .epoll ?_ rfl rfl rfl, rfl, rfl, fun hw => ?_,
        by simp [Loop.created]⟩, h.sigfd⟩
      · rw [Supervisor.places, Supervisor.places, h.created]
        simp only [Option.toList_some, Option.toList_none, List.append_nil, ← List.append_assoc]
        exact List.perm_append_comm
      · exact lt_of_le_of_ne h0 (hsize hw).symm
  · have hc :
        (sepollCreate size true (decide (0 ≤ size)) true : Option (Loop Handler Arg)) = none := by
      simp [sepollCreate, h0]
    simp only [hc]
    cases x.create <;> exact Triple.pure fun w h => h

/-- The set-up leaves the supervisor in front of its event loop, or on its
way out. -/
theorem launch_triple (hroom : woken → loopSize n ≠ some 0) :
    Triple (contract woken n) (Spawning n i) launch
      (fun ready w => if ready then Watching woken n w ∧ w.loop.pending = [] else
        Leaving woken n .failure w) := by
  refine Triple.bind (R := fun s w => s.numWorkers = n ∧ Spawning n i w)
    (Triple.bind Triple.get fun _ => Triple.pure fun w h => ⟨h.2 ▸ h.1.books.numWorkers, h.1⟩)
    fun s => Triple.assume fun hn => ?_
  refine Triple.ite (fun _ => Triple.pure fun w h => h.leaving) fun _ => ?_
  refine Triple.bind (systemCall_books fun w h => h.books) fun x => ?_
  refine Triple.ite (fun _ => Triple.pure fun w h => h.leaving) fun _ => ?_
  refine Triple.bind (systemCall_books fun w h => h.books) fun y => ?_
  cases y.signalfd with
  | error e => exact Triple.pure fun w h => h.leaving
  | ok want =>
    dsimp only
    rw [← Prog.bind_assoc (openFd want .signals)
      fun sigfd => setSupervisor fun s => { s with sigfd := sigfd }]
    refine Triple.bind (signalfd_triple want) fun _ => ?_
    rw [hn]
    cases hsize : loopSize n with
    | none => exact Triple.step_partial hsize fun _ _ _ _ h => by cases h
    | some size =>
      refine Triple.bind (createLoop_triple fun hw h0 => hroom hw (h0 ▸ hsize)) fun created => ?_
      cases created with
      | false => exact Triple.pure fun w h => Ready.leaving h
      | true =>
        refine Triple.bind (R := fun _ w => Watching woken n w ∧ w.loop.pending = []) ?_ fun _ =>
          Triple.pure fun w h => h
        rintro w ans ⟨⟨arr, h⟩, h0⟩ hA
        refine (register_triple.post fun _ w' h' => ?_) w ans ⟨h, h0⟩ hA
        refine ⟨?_, h'.pending⟩
        rw [Watching, h'.pending, h'.epollEvents]
        exact h'

/-- The supervisor's task. -/
theorem supervise_triple (hroom : woken → loopSize n ≠ some 0) :
    Triple (contract woken n) (Spawning n i) supervise (Leaving woken n) := by
  refine Triple.bind (launch_triple hroom) fun ready => ?_
  cases ready with
  | false => exact Triple.pure fun w h => h
  | true =>
    refine Triple.bind (supervisor_enterInv woken n).sepollEnter_triple fun _ => ?_
    exact Triple.pure fun w h => ⟨h.1.books, h.2.1, fun _ hw => h.1.told hw h.2.2⟩

/-- `main`, up to the last fork. -/
theorem spawn_triple (n : UInt32) :
    Triple (contract woken n) (fun w => w = started) (spawn n)
      (fun spawned w => if spawned then Spawning n n.toNat w else w = started) := by
  have hask : Triple (contract woken n) (fun w => w = started) systemCall
      (fun _ w => w = started) := by
    refine Triple.ask (fun w h => ⟨0, [], ?_⟩) fun _ _ h _ => h
    subst h
    exact (started_spawning 0).books
  refine Triple.bind hask fun x => Triple.ite (fun _ => Triple.pure fun w h => h) fun _ => ?_
  refine Triple.bind hask fun x => Triple.ite (fun _ => Triple.pure fun w h => h) fun _ => ?_
  refine Triple.bind (R := fun _ => Spawning n 0) (Triple.modify ?_) fun _ => ?_
  · rintro _ rfl
    exact started_spawning n
  · exact Triple.bind (spawnWorkers_triple n.toNat 0 (by omega)) fun _ => Triple.pure fun w h => h

/-- `main`, up to its call of `exit`. -/
theorem mainUntilExit_triple (hroom : woken → loopSize n ≠ some 0) :
    Triple (contract woken n) (fun w => w = started) (mainUntilExit n)
      (fun exit w => if exit.onExit then Leaving woken n exit.code w else
        exit.code = .failure ∧ w = started) := by
  refine Triple.bind (spawn_triple n) fun spawned => ?_
  cases spawned with
  | false => exact Triple.pure fun w h => ⟨rfl, h⟩
  | true => exact Triple.bind (supervise_triple hroom) fun _ => Triple.pure fun w h => h

/-! ## Cleaning up -/

/-- A supervisor on its way out: `P` is what it has not closed yet. The
kernel may have dropped registrations its event loop still has a record
of. -/
structure Emptying (s : Supervisor) (P : List Int) (w : World) : Prop where
  supervisor : w.own.supervisor = s
  owned : w.own.fds.Owned True P
  loop : ∃ l interest, Loop.Wf l ∧ l.pending = [] ∧ w.loop = { l with interest := interest }

/-- The contract of the whole run. -/
def runContract (woken : Prop) (n : UInt32) : Contract Answer World where
  answers := (contract woken n).answers
  waits w := (∃ m more, Books m more w) ∨ ∃ s P, Emptying s P w
  mayFault := loopSize n = none

variable {P : List Int} {fd : Int}

theorem Emptying.noted (h : Emptying s P w) (log : List Event) :
    Emptying s P { w with own := { w.own with log := log } } :=
  ⟨h.supervisor, h.owned, h.loop⟩

/-- A descriptor is closed. -/
def closed (w : World) (fd : Int) (fds : Heap Object) : World :=
  { loop := { w.loop with interest := Function.update w.loop.interest fd none }
    own := { w.own with fds := fds } }

theorem Emptying.closed (h : Emptying s (fd :: P) w) :
    Emptying s P (Main.closed w fd (w.own.fds.closedFd fd h.owned.head_open)) := by
  obtain ⟨l, interest, hwf, hp, hl⟩ := h.loop
  exact ⟨h.supervisor, h.owned.closed, l, Function.update interest fd none, hwf, hp,
    by rw [Main.closed, hl]⟩

theorem Emptying.closeFd_triple :
    Triple (runContract woken n) (Emptying s (fd :: P)) (closeFd fd) (fun _ => Emptying s P) :=
  Triple.step fun w h => ⟨_, (), by rw [Heap.closeFd_eq h.owned.head_open]; rfl, h.closed⟩

/-- The workers of `ws` are still to be killed. -/
structure Killing (s : Supervisor) (ws : List Worker) (P : List Int) (w : World) : Prop where
  rest : Emptying s (pidfds ws ++ P) w
  objects : ∀ k ∈ ws, 0 ≤ k.pidfd → ∃ i, w.own.fds.object k.pidfd = some (.worker i)

/-- The workers whose exit was not handled are killed, and their
descriptors closed. -/
theorem killWorkers_triple : ∀ ws : List Worker,
    Triple (runContract woken n) (Killing s ws P) (signalWorkers SIGKILL true ws)
      (fun _ => Emptying s P)
  | [] => Triple.pure fun w h => h.rest
  | k :: ws => by
    refine Triple.bind (R := fun _ => Killing s ws P) (Triple.when (fun h0 => ?_) fun h0 w h => ?_)
      fun _ => killWorkers_triple ws
    · have hheld : held k.pidfd = [k.pidfd] := if_pos h0
      refine Triple.bind (R := fun _ => Killing s (k :: ws) P)
        (Triple.bind (R := fun o w => (∃ i, o = .worker i) ∧ Killing s (k :: ws) P w)
          (Triple.step fun w h => ?_) fun o => Triple.assume fun ⟨i, ho⟩ => ?_) fun _ =>
        Triple.when (fun _ => Triple.step fun w h => ?_) fun hclose => absurd rfl hclose
      · obtain ⟨i, ho⟩ := h.objects k List.mem_cons_self h0
        exact ⟨w, .worker i, by rw [ho]; rfl, ⟨i, rfl⟩, h⟩
      · have hrest := h.rest
        rw [pidfds_cons, hheld] at hrest
        refine ⟨_, (), by rw [Heap.closeFd_eq hrest.owned.head_open]; rfl, hrest.closed, ?_⟩
        intro k' hk' h0'
        obtain ⟨i, ho⟩ := h.objects k' (List.mem_cons_of_mem _ hk') h0'
        have hne := hrest.owned.ne (List.mem_append_left P (mem_pidfds hk' h0'))
        exact ⟨i, (Heap.closedFd_object_of_ne hrest.owned.head_open hne).trans ho⟩
      · subst ho
        refine Triple.bind (R := fun _ => Killing s (k :: ws) P)
          (Triple.modify fun w h => ⟨h.rest.noted _, h.objects⟩) fun _ => ?_
        refine Triple.bind (R := fun _ => Killing s (k :: ws) P)
          (Triple.ask (fun w h => Or.inr ⟨s, _, h.rest⟩) fun _ _ h _ => h) fun _ => ?_
        exact Triple.pure fun w h => h
    · have hrest := h.rest
      rw [pidfds_cons, show held k.pidfd = [] from if_neg h0] at hrest
      exact ⟨hrest, fun k' hk' => h.objects k' (List.mem_cons_of_mem _ hk')⟩

/-- **`supervisor_cleanup`** closes what is left, and on a failure kills
the workers that are. -/
theorem supervisorCleanup_triple (code : ExitStatus) :
    Triple (runContract woken n) (fun w => Leaving woken n code w ∧ w.own.supervisor = s)
      (supervisorCleanup code)
      (fun _ => Emptying { s with workers := [] }
        (if code = .failure then [] else pidfds s.workers)) := by
  refine Triple.bind (R := fun _ => Emptying s
    ((held s.sigfd ++ s.loop.toList) ++ if code = .failure then [] else pidfds s.workers))
    (Triple.when (fun hcode => ?_) fun hcode w h => ?_) fun _ => ?_
  · refine Triple.bind_eq (v := s) (R := Killing s s.workers (held s.sigfd ++ s.loop.toList))
      (Triple.bind Triple.get fun _ => Triple.pure fun w h => ?_) ?_
    · refine ⟨by rw [h.2]; exact h.1.2, ?_⟩
      obtain ⟨⟨h, hs⟩, -⟩ := h
      subst hs
      refine ⟨⟨rfl, h.books.owned, w.loop, w.loop.interest, h.books.wf, h.pending, rfl⟩, ?_⟩
      intro k hk h0
      obtain ⟨i, hi⟩ := List.getElem?_of_mem hk
      exact ⟨i, h.books.objects i k hi h0⟩
    · rw [if_pos hcode, List.append_nil]
      exact killWorkers_triple s.workers
  · obtain ⟨h, rfl⟩ := h
    rw [if_neg hcode]
    exact ⟨rfl, h.books.owned.perm List.perm_append_comm, w.loop, w.loop.interest, h.books.wf,
      h.pending, rfl⟩
  generalize (if code = .failure then [] else pidfds s.workers) = P
  refine Triple.bind (R := fun _ => Emptying { s with workers := [] }
    ((held s.sigfd ++ s.loop.toList) ++ P)) (Triple.modify ?_) fun _ => ?_
  · rintro w ⟨rfl, howned, hloop⟩
    exact ⟨rfl, howned, hloop⟩
  refine Triple.bind_eq (v := { s with workers := [] })
    (R := Emptying { s with workers := [] } ((held s.sigfd ++ s.loop.toList) ++ P))
    (Triple.bind Triple.get fun _ => Triple.pure fun w h => ⟨h.2 ▸ h.1.supervisor, h.1⟩) ?_
  refine Triple.bind (R := fun _ => Emptying { s with workers := [] } (s.loop.toList ++ P))
    (Triple.when (fun h0 => ?_) fun h0 w h => ?_) fun _ => ?_
  · rw [show held s.sigfd = [s.sigfd] from if_pos h0, List.append_assoc]
    exact Emptying.closeFd_triple
  · rwa [show held s.sigfd = [] from if_neg h0] at h
  dsimp only
  generalize ({ s with workers := [] } : Supervisor) = s'
  cases s.loop with
  | none => exact Triple.pure fun w h => h
  | some epollfd =>
    refine Triple.bind (R := fun _ => Emptying s' (epollfd :: P))
      (onLoop_triple fun w h => ?_) fun _ => Emptying.closeFd_triple
    obtain ⟨l, interest, hwf, hp, hl⟩ := h.loop
    obtain ⟨l', hrun, hwf', hp', _⟩ := hwf.destroy_unwatched hp interest
    exact ⟨l', (), by rw [hl, hrun]; rfl, h.supervisor, h.owned, l', l'.interest, hwf', hp', rfl⟩

/-- **The run of the supervisor.** It succeeds only when no worker is left
where the kernel wakes it, and then, as after a failure, it has nothing
open any more. -/
theorem main_triple (hroom : woken → loopSize n ≠ some 0) :
    Triple (runContract woken n) (fun w => w = started) (main n)
      (fun code w => (code = .success → woken → w.own.supervisor.activeWorkers = 0) ∧
        (code = .failure ∨ woken → w.own.fds.openFds = [])) := by
  refine Triple.bind ((mainUntilExit_triple hroom).weaken rfl (fun _ => Or.inl) id) fun exit => ?_
  refine Triple.bind (R := fun _ w => (exit.code = .success → woken →
    w.own.supervisor.activeWorkers = 0) ∧ (exit.code = .failure ∨ woken → w.own.fds.openFds = []))
    (Triple.when (fun hexit => ?_) fun hexit w h => ?_) fun _ => Triple.pure fun w h => h
  · intro w ans h hA
    rw [if_pos hexit] at h
    refine ((supervisorCleanup_triple exit.code).post fun _ w' h' => ?_) w ans ⟨h, rfl⟩ hA
    refine ⟨fun hs hw => h'.supervisor ▸ h.success hs hw, fun hleft => ?_⟩
    have hplaces : (if exit.code = .failure then [] else pidfds w.own.supervisor.workers) = [] := by
      split
      · rfl
      · rename_i hcode
        have hsuccess : exit.code = .success := by
          cases hc : exit.code with
          | success => rfl
          | failure => exact absurd hc hcode
        have hactive := h.books.active
        rw [h.success hsuccess (hleft.resolve_left hcode), UInt32.toNat_zero] at hactive
        exact List.length_eq_zero_iff.mp hactive.symm
    have howned := h'.owned
    rw [hplaces] at howned
    exact List.eq_nil_iff_forall_not_mem.mpr fun fd hm =>
      absurd (howned.all trivial fd hm) (by simp)
  · rw [if_neg hexit] at h
    obtain ⟨hcode, rfl⟩ := h
    exact ⟨fun hs => (by rw [hcode] at hs; cases hs), fun _ => rfl⟩

end Sgopher.Main
