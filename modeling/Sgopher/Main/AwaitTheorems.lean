/-
Sgopher.Main.AwaitTheorems — the supervisor misses no exit.

`Sgopher.Main.WakeTheorems` says that the supervisor handles no exit but
those that happened. Here is the other half: in its event loop the
supervisor awaits the exit of every worker it has not handled yet. The
worker's descriptor is registered, for the right handler and with the
right arguments (`Awaits`), from before the loop is entered until the exit
is handled, so the kernel can report it.

The source reports no registration that fails. `Grants` says that none
does: there is memory, and the kernel takes the descriptor. That it is not
refused as one that is registered already follows from the books, by which
the descriptors are distinct.

No `sorry`, no `axiom`, no `native_decide`.
-/
import Sgopher.Lib.Ghost
import Sgopher.Main.WakeTheorems

namespace Sgopher.Main

open Sgopher.Lib Sgopher.Sepoll Prog

variable {w : World} {l l' : Loop Handler Arg} {ws : List Worker} {A : Answer → Prop} {i j : Nat}
  {sig : Nat} {fd : Int} {k k' : Worker} {n : UInt32} {s : Supervisor}

/-! ## What is awaited -/

/-- The exit of worker `i` is awaited through a descriptor. -/
def Awaits (l : Loop Handler Arg) (fd : Int) (i : Nat) : Prop :=
  ∃ p, l.reg fd = some ⟨p, EPOLLIN, some .pidfdEvent, .supervisor, .worker i⟩

theorem Awaits.reg (h : Awaits l fd i) (hreg : l'.reg fd = l.reg fd) : Awaits l' fd i :=
  h.imp fun _ hp => hreg.trans hp

/-- What is awaited gets through when it is reported. -/
theorem Awaits.ready (h : Awaits l fd i) :
    ∃ p, l.ready [(fd, EPOLLIN)] [] = [⟨EPOLLIN, p⟩] := by
  obtain ⟨p, hp⟩ := h
  refine ⟨p, ?_⟩
  have hbits : EPOLLIN &&& (EPOLLIN ||| EPOLLERR ||| EPOLLHUP) = EPOLLIN := by decide
  simp only [Loop.ready, (Loop.reg_some_iff.mp hp).1, hbits]
  exact if_pos ⟨List.not_mem_nil, by decide⟩

/-- The descriptors of the workers are distinct. -/
def Distinct (ws : List Worker) : Prop :=
  ∀ (i j : Nat) (k k' : Worker), ws[i]? = some k → ws[j]? = some k' → 0 ≤ k.pidfd →
    k.pidfd = k'.pidfd → i = j

theorem Distinct.of_nodup : ∀ {ws : List Worker}, (pidfds ws).Nodup → Distinct ws
  | [], _ => by simp [Distinct]
  | k₀ :: ws, hnd => by
    intro i j k k' hk hk' h0 he
    rw [pidfds_cons] at hnd
    have hrest : Distinct ws := Distinct.of_nodup hnd.of_append_right
    have hnew : ∀ k, k ∈ ws → 0 ≤ k.pidfd → k.pidfd ≠ k₀.pidfd := fun k hmem h0 he =>
      (List.nodup_append.mp hnd).2.2 _ (mem_held (he ▸ h0)) _ (mem_pidfds hmem h0) he.symm
    cases i with
    | zero =>
      obtain rfl := Option.some.inj hk
      cases j with
      | zero => rfl
      | succ j => exact absurd he.symm (hnew k' (List.mem_of_getElem? hk') (he ▸ h0))
    | succ i =>
      cases j with
      | zero =>
        obtain rfl := Option.some.inj hk'
        exact absurd he (hnew k (List.mem_of_getElem? hk) h0)
      | succ j => exact congrArg Nat.succ (hrest i j k k' hk hk' h0 he)

/-- A worker's exit is handled. -/
theorem Distinct.handled (h : Distinct ws) (hk' : k'.pidfd < 0) : Distinct (ws.set i k') := by
  intro a b ka kb ha hb h0 he
  have hold : ∀ (a : Nat) (ka : Worker), (ws.set i k')[a]? = some ka → 0 ≤ ka.pidfd →
      ws[a]? = some ka := fun a ka ha h0 => by
      by_cases hai : a = i
      · subst hai
        have hlt := (List.getElem?_eq_some_iff.mp ha).1
        rw [List.length_set] at hlt
        rw [List.getElem?_set_self hlt, Option.some.injEq] at ha
        exact absurd (ha ▸ h0) (by omega)
      · rwa [List.getElem?_set_ne (Ne.symm hai)] at ha
  exact h a b ka kb (hold a ka ha h0) (hold b kb hb (he ▸ h0)) h0 he

/-- Every worker of the array whose exit is not handled is awaited. -/
structure Attending (w : World) : Prop where
  wf : w.loop.Wf
  distinct : Distinct w.own.supervisor.workers
  awaited : ∀ (i : Nat) (k : Worker), w.own.supervisor.workers[i]? = some k → 0 ≤ k.pidfd →
    .handled i ∉ w.own.log → Awaits w.loop k.pidfd i

/-! ## The callbacks -/

theorem Attending.reloop (h : Attending w) (hwf : l.Wf) (hreg : l.reg = w.loop.reg) :
    Attending (w.withLoop l) :=
  ⟨hwf, h.distinct, fun i k hk h0 hn => (h.awaited i k hk h0 hn).reg (congrFun hreg _)⟩

theorem note_attending (e : Event) : Keeps A Attending (note e) :=
  Keeps.modify fun _ h => ⟨h.wf, h.distinct, fun i k hk h0 hn =>
    h.awaited i k hk h0 fun hm => hn (List.mem_append_left _ hm)⟩

theorem setRun_attending (run : Bool) : Keeps A Attending (setRun run : Program Unit) :=
  Keeps.modify fun _ h => h.reloop (h.wf.setRun run) rfl

theorem pidfdSendSignal_attending : Keeps A Attending (pidfdSendSignal fd sig) := by
  refine Keeps.bind useFd_keeps fun o => ?_
  have hask : Keeps A Attending (do let _ ← systemCall; Pure.pure () : Program Unit) :=
    Keeps.bind Keeps.ask fun _ => Keeps.pure _
  cases o with
  | worker i => exact Keeps.bind (note_attending _) fun _ => hask
  | signals => exact Keeps.bind (Keeps.step fun _ _ _ _ h => nomatch h) fun _ => hask
  | epoll => exact Keeps.bind (Keeps.step fun _ _ _ _ h => nomatch h) fun _ => hask

theorem signalWorkers_attending : ∀ ws : List Worker,
    Keeps A Attending (signalWorkers sig false ws)
  | [] => Keeps.pure ()
  | _ :: ws => Keeps.bind (Keeps.when (Keeps.bind pidfdSendSignal_attending fun _ =>
      Keeps.pure ())) fun _ => signalWorkers_attending ws

theorem sigfdEvent_attending : Keeps A Attending sigfdEvent := by
  refine Keeps.iterate (fun _ => ?_) ()
  refine Keeps.bind getSupervisor_keeps fun s => Keeps.bind useFd_keeps fun _ =>
    Keeps.bind Keeps.ask fun x => ?_
  cases x.read with
  | error e => exact Keeps.pure _
  | ok signo =>
    exact Keeps.bind (Keeps.when (Keeps.bind (note_attending _) fun _ =>
      Keeps.bind getSupervisor_keeps fun s => signalWorkers_attending s.workers))
      fun _ => Keeps.pure _

/-- In the middle of `pidfd_event`, once the exit is logged. -/
structure Reaping (i : Nat) (k : Worker) (w : World) : Prop where
  attending : Attending w
  slot : w.own.supervisor.workers[i]? = some k
  logged : .handled i ∈ w.own.log

/-- The registration of the worker goes; those of the others stay. -/
theorem Reaping.unwatched (h : Reaping i k w) (hwf : l.Wf)
    (hreg : l.reg = Function.update w.loop.reg k.pidfd none) : Reaping i k (w.withLoop l) := by
  refine ⟨⟨hwf, h.attending.distinct, fun j k' hk' h0 hn => ?_⟩, h.slot, h.logged⟩
  have hne : k'.pidfd ≠ k.pidfd := fun he => by
    obtain rfl := h.attending.distinct j i k' k hk' h.slot h0 he
    exact hn h.logged
  refine (h.attending.awaited j k' hk' h0 hn).reg ?_
  rw [World.withLoop, hreg, Function.update_of_ne hne]

theorem pidfdEvent_attending (i : Nat) : Keeps A Attending (pidfdEvent i) := by
  refine Triple.bind (R := fun k w => Attending w ∧ w.own.supervisor.workers[i]? = some k)
    (Triple.step_map trivial fun w k h hk => ⟨h, hk⟩) fun k => ?_
  refine Triple.bind (R := fun _ w => Attending w ∧ w.own.supervisor.workers[i]? = some k)
    (Triple.step_map trivial fun w _ h _ => h) fun _ => ?_
  refine Triple.bind (R := fun _ w => Attending w ∧ w.own.supervisor.workers[i]? = some k)
    (Triple.ask (fun w h => h.1) fun _ _ h _ => h) fun _ => ?_
  refine Triple.bind (R := fun _ => Reaping i k) (Triple.modify fun w h => ?_) fun _ => ?_
  · exact ⟨⟨h.1.wf, h.1.distinct, fun j k' hk' h0 hn =>
      h.1.awaited j k' hk' h0 fun hm => hn (List.mem_append_left _ hm)⟩, h.2,
      List.mem_append_right _ (List.mem_singleton_self _)⟩
  refine Triple.bind (R := fun _ w => Reaping i k w ∧ w.loop.interest k.pidfd = none)
    (Triple.step_map trivial fun w r h hr => ?_) fun _ => ?_
  · obtain ⟨l, ret⟩ := r
    obtain ⟨l', ret', hrun, hwf, -, hreg⟩ := h.attending.wf.remove_spec k.pidfd
    obtain ⟨rfl, rfl⟩ := Prod.mk.inj (Option.some.inj (hrun.symm.trans hr))
    refine ⟨h.unwatched hwf hreg, (hwf.reg_none_iff _).mp ?_⟩
    rw [hreg, Function.update_self]
  refine Triple.bind (R := fun _ => Reaping i k) (Triple.step_map trivial fun w fds h _ => ?_)
    fun _ => ?_
  · -- the kernel has nothing to drop
    have hnone : Function.update w.loop.interest k.pidfd none = w.loop.interest := by
      rw [← h.2, Function.update_eq_self]
    have hsame := h.1
    rw [hnone]
    exact ⟨⟨hsame.attending.wf, hsame.attending.distinct, hsame.attending.awaited⟩, hsame.slot,
      hsame.logged⟩
  refine Triple.bind (R := fun _ => Attending) (Triple.modify fun w h => ?_) fun _ => ?_
  · refine ⟨h.attending.wf, h.attending.distinct.handled (by simp), fun j k' hk' h0 hn => ?_⟩
    have hj : j ≠ i := fun he => hn (he ▸ h.logged)
    rw [List.getElem?_set_ne hj.symm] at hk'
    exact h.attending.awaited j k' hk' h0 hn
  · exact Keeps.bind getSupervisor_keeps fun s => Keeps.when (Keeps.bind (note_attending _)
      fun _ => setRun_attending false)

theorem handle_attending (f : Handler) (events : UInt32) (u1 u2 : Arg) :
    Keeps A Attending (handle f events u1 u2) := by
  unfold handle
  split
  · exact sigfdEvent_attending
  · exact pidfdEvent_attending _
  · exact Keeps.step fun _ _ _ _ h => nomatch h

/-! ## The registrations -/

/-- No registration fails for want of memory or at the kernel. -/
def Grants (y : Answer) : Prop :=
  y.loop.malloc ≠ none ∧ y.loop.tsearch = true ∧ y.loop.ctlAdd = none

/-- The workers up to number `i` are awaited, and those from there on are
not registered yet. -/
structure Registered (s : Supervisor) (i : Nat) (w : World) : Prop where
  same : w.own.supervisor = s
  wf : w.loop.Wf
  done : ∀ (j : Nat) (k : Worker), s.workers[j]? = some k → 0 ≤ k.pidfd → j < i →
    Awaits w.loop k.pidfd j
  todo : ∀ (j : Nat) (k : Worker), s.workers[j]? = some k → 0 ≤ k.pidfd → i ≤ j →
    w.loop.reg k.pidfd = none

/-- Where nothing fails, a descriptor that is not registered becomes
so. -/
theorem sepollAdd_granted {events : UInt32} {f : Handler} {u1 u2 : Arg} {P : World → Prop}
    {I : World → Prop} (hI : ∀ w, P w → I w) (hwf : ∀ w, P w → w.loop.Wf)
    (hnone : ∀ w, P w → w.loop.reg fd = none) :
    Triple (.keeping Grants I) P (sepollAdd fd events (some f) u1 u2 : Program Ret)
      (fun _ w => ∃ w₀ p, P w₀ ∧ w.own = w₀.own ∧ w.loop.Wf ∧ w.loop.reg
        = Function.update w₀.loop.reg fd (some ⟨p, events, some f, u1, u2⟩)) := by
  refine Triple.bind (R := fun x w => P w ∧ Grants x)
    (Triple.ask hI fun _ _ h hx => ⟨h, hx⟩) fun x => ?_
  refine onLoop_triple fun w ⟨h, hmalloc, htsearch, hctl⟩ => ?_
  have hi := ((hwf w h).reg_none_iff fd).mp (hnone w h)
  rcases (hwf w h).add_cases fd events (some f) u1 u2 x.loop with
    ⟨l', e, he, -, -⟩ | ⟨want, -, -, -, hrun⟩
  · simp [addError, hmalloc, hi, htsearch, hctl] at he
  · exact ⟨_, _, hrun, w, w.loop.heap.fresh want, h, rfl,
      (hwf w h).added hi events (some f) u1 u2 want,
      (hwf w h).added_reg fd events (some f) u1 u2 want⟩

theorem registerWorkers_registers {I : World → Prop} (hdistinct : Distinct s.workers)
    (hI : ∀ i w, Registered s i w → I w) : ∀ (i : Nat) (ws : List Worker), ws = s.workers.drop i →
    Triple (.keeping Grants I) (Registered s i) (registerWorkers i ws)
      (fun _ => Registered s s.workers.length)
  | i, [], hws => Triple.pure fun w h => by
    have hlen : s.workers.length ≤ i := List.drop_eq_nil_iff.mp hws.symm
    refine ⟨h.same, h.wf, fun j k hk h0 hj => h.done j k hk h0 (by omega), fun j k hk _ hj => ?_⟩
    have := (List.getElem?_eq_some_iff.mp hk).1
    omega
  | i, k :: ws, hws => by
    have hk : s.workers[i]? = some k := by
      rw [← List.head?_drop, ← hws]
      rfl
    have hrest : ws = s.workers.drop (i + 1) := by
      rw [← List.tail_drop, ← hws]
      rfl
    refine Triple.bind (R := fun _ => Registered s (i + 1)) (Triple.when (fun h0 => ?_)
      fun h0 w h => ?_) fun _ => registerWorkers_registers hdistinct hI (i + 1) ws hrest
    · have h0' : 0 ≤ k.pidfd := by omega
      refine Triple.bind (sepollAdd_granted (hI i) (fun w h => h.wf)
        fun w h => h.todo i k hk h0' (Nat.le_refl i)) fun _ => Triple.pure ?_
      rintro w ⟨w₀, p, h, hown, hwf, hreg⟩
      refine ⟨hown ▸ h.same, hwf, fun j k' hk' h0k hj => ?_, fun j k' hk' h0k hj => ?_⟩
      · by_cases hji : j = i
        · subst hji
          obtain rfl := Option.some.inj (hk.symm.trans hk')
          exact ⟨p, by rw [hreg, Function.update_self]⟩
        · have hne : k'.pidfd ≠ k.pidfd := fun he => hji (hdistinct j i k' k hk' hk h0k he)
          refine (h.done j k' hk' h0k (by omega)).reg ?_
          rw [hreg, Function.update_of_ne hne]
      · have hne : k'.pidfd ≠ k.pidfd := fun he => by
          have := hdistinct j i k' k hk' hk h0k he
          omega
        rw [hreg, Function.update_of_ne hne]
        exact h.todo j k' hk' h0k (by omega)
    · refine ⟨h.same, h.wf, fun j k' hk' h0k hj => ?_, fun j k' hk' h0k hj =>
        h.todo j k' hk' h0k (by omega)⟩
      by_cases hji : j = i
      · subst hji
        obtain rfl := Option.some.inj (hk.symm.trans hk')
        omega
      · exact h.done j k' hk' h0k (by omega)

/-- A new event loop, beside the books of the spawned workers. -/
structure Fresh (s : Supervisor) (w : World) : Prop where
  same : w.own.supervisor = s
  distinct : (pidfds s.workers ++ held s.sigfd).Nodup
  sigfd : 0 ≤ s.sigfd
  loop : ∃ size, w.loop = .created size

theorem register_registers :
    Triple (.keeping Grants fun _ => True) (Fresh s) register
      (fun _ => Registered s s.workers.length) := by
  refine Triple.bind (R := fun s' w => s' = s ∧ Fresh s w)
    (Triple.bind Triple.get fun _ => Triple.pure fun w h => ⟨h.2 ▸ h.1.same, h.1⟩) fun s' =>
    Triple.assume fun hs => ?_
  subst hs
  have hnone : ∀ w, Fresh s' w → w.loop.Wf ∧ ∀ fd, w.loop.reg fd = none := fun w h => by
    obtain ⟨size, hl⟩ := h.loop
    rw [hl]
    exact ⟨.new size, fun _ => rfl⟩
  rintro w ans hfresh hA
  have hnodup := List.nodup_append.mp hfresh.distinct
  refine Triple.bind (P := Fresh s') (R := fun _ => Registered s' 0)
    ((sepollAdd_granted (fun _ _ => trivial) (fun w h => (hnone w h).1)
      fun w h => (hnone w h).2 _).post ?_) (fun _ => registerWorkers_registers
        (Distinct.of_nodup hnodup.1) (fun _ _ _ => trivial) 0 _ rfl) w ans hfresh hA
  rintro _ w ⟨w₀, p, h, hown, hwf, hreg⟩
  refine ⟨hown ▸ h.same, hwf, fun j k _ _ hj => by omega, fun j k hk h0 _ => ?_⟩
  have hne : k.pidfd ≠ s'.sigfd := hnodup.2.2 _ (mem_pidfds (List.mem_of_getElem? hk) h0) _
    (mem_held h.sigfd)
  rw [hreg, Function.update_of_ne hne]
  exact (hnone w₀ h).2 _

/-! ## The set-up -/

/-- What the supervisor relies on where no registration fails, and what it
owes: it keeps its books. -/
def grantContract : Contract Answer World :=
  .keeping Grants fun w => ∃ m more, Books m more w

/-- A part of the set-up, by what the books say of it. -/
theorem Spawned.granted {α : Type} {m : Program α} {P : World → Prop} {Q : α → World → Prop}
    (hk : Keeps Grants (Beside (Spawned ws)) m) (h : Triple (contract False n) P m Q) :
    Triple grantContract (fun w => P w ∧ Spawned ws w.own) m
      (fun a w => Q a w ∧ Spawned ws w.own) :=
  (hk.under h fun _ _ hf => hf.elim).weaken rfl (fun _ h => h.1) id

theorem createLoop_created {size : Int} :
    Triple (.keeping A fun _ => True) (fun _ => True) (createLoop size)
      (fun created w => created = true → ∃ size, w.loop = .created size) := by
  refine Triple.bind (R := fun _ _ => True) (Triple.ask (fun _ h => h) fun _ _ h _ => h) fun x => ?_
  cases x.create with
  | none =>
    cases (sepollCreate _ _ _ _ : Option (Loop Handler Arg)) <;> exact Triple.pure fun _ _ => nofun
  | some want =>
    cases hc : (sepollCreate size true (decide (0 ≤ size)) true : Option (Loop Handler Arg)) with
    | none => exact Triple.pure fun _ _ => nofun
    | some l =>
      have hl : l = .created size := by
        unfold sepollCreate at hc
        split at hc
        · exact (Option.some.inj hc).symm
        · cases hc
      refine Triple.bind (R := fun _ _ => True) (Triple.step_partial trivial fun _ _ _ h _ => h)
        fun _ => Triple.bind (R := fun _ w => w.loop = .created size)
          (Triple.modify fun _ _ => hl) fun _ =>
        Triple.bind (R := fun _ w => w.loop = .created size) (Triple.modify fun _ h => h) fun _ =>
          Triple.pure fun _ h _ => ⟨size, h⟩

theorem Watch.fresh {arr : List EpollEvent} {size : Int} (h : Watch False n [] arr [] w)
    (h0 : 0 ≤ w.own.supervisor.sigfd) (hl : w.loop = .created size) :
    Fresh w.own.supervisor w := by
  refine ⟨rfl, ?_, h0, size, hl⟩
  have hnodup := h.books.owned.nodup
  rw [Supervisor.places, ← List.append_assoc] at hnodup
  exact hnodup.of_append_left

theorem Registered.attending (h : Registered s s.workers.length w) (hd : Distinct s.workers) :
    Attending w := by
  obtain ⟨rfl, hwf, hdone, -⟩ := h
  exact ⟨hwf, hd, fun i k hk h0 _ => hdone i k hk h0 (List.getElem?_eq_some_iff.mp hk).1⟩

/-- When the event loop is entered, every worker is awaited. -/
theorem launch_attending :
    Triple grantContract (fun w => Spawning n i w ∧ Spawned ws w.own) launch
      (fun ready w => ready = true → Watching False n w ∧ w.loop.pending = [] ∧ Attending w) := by
  have hfail : ∀ {P : World → Prop}, Triple grantContract P (Pure.pure false : Program Bool)
      (fun ready w => ready = true → Watching False n w ∧ w.loop.pending = [] ∧ Attending w) :=
    Triple.pure fun _ _ => nofun
  have hask : Triple grantContract (fun w => Spawning n i w ∧ Spawned ws w.own) systemCall
      (fun _ w => Spawning n i w ∧ Spawned ws w.own) :=
    Spawned.granted Keeps.ask (systemCall_books fun w h => h.books)
  refine Triple.bind (R := fun _ w => Spawning n i w ∧ Spawned ws w.own)
    (Triple.bind Triple.get fun _ => Triple.pure fun w h => h.1) fun s => ?_
  refine Triple.ite (fun _ => hfail) fun _ => Triple.bind hask fun x => ?_
  refine Triple.ite (fun _ => hfail) fun _ => Triple.bind hask fun y => ?_
  cases y.signalfd with
  | error e => exact hfail
  | ok want =>
    dsimp only
    rw [← Prog.bind_assoc (openFd want .signals)
      fun sigfd => setSupervisor fun s => { s with sigfd := sigfd }]
    refine Triple.bind (Spawned.granted (Keeps.bind openFd_spawned fun _ =>
      Keeps.modify fun _ h => h) (signalfd_triple want)) fun _ => ?_
    cases loopSize s.numWorkers with
    | none => exact Triple.step_partial trivial fun _ _ _ _ h => by cases h
    | some size =>
      have hbooks : Triple grantContract (fun w => Ready n w ∧ Spawned ws w.own) (createLoop size)
          _ := Spawned.granted createLoop_spawned (createLoop_triple False.elim)
      have hboth := Triple.both hbooks createLoop_created fun _ hy => hy
      have hcreate := Triple.weaken (Y := grantContract) hboth rfl (fun _ h => h.1) fun _ => trivial
      refine Triple.bind (R := fun created w => ((if created then
        (∃ arr, Watch False n [] arr [] w) ∧ 0 ≤ w.own.supervisor.sigfd else Ready n w) ∧
        Spawned ws w.own) ∧ (created = true → ∃ size, w.loop = .created size))
        (Triple.pre hcreate fun _ h => ⟨h, trivial⟩)
        fun created => ?_
      cases created with
      | false => exact hfail
      | true =>
        refine Triple.bind (R := fun _ w => Watching False n w ∧ w.loop.pending = [] ∧
          Attending w) ?_ fun _ => Triple.pure fun _ h _ => h
        rintro w ans ⟨⟨⟨⟨arr, h⟩, h0⟩, hs⟩, hl⟩ hA
        obtain ⟨size, hl⟩ := hl rfl
        have hfresh := h.fresh h0 hl
        have hbooks : Triple grantContract (fun w => (Watch False n [] arr [] w ∧
            0 ≤ w.own.supervisor.sigfd) ∧ Spawned ws w.own) register _ :=
          Spawned.granted register_spawned register_triple
        have hregister := Triple.both hbooks
          (register_registers (s := w.own.supervisor)) fun _ hy => hy
        refine Triple.post (Triple.weaken (Y := grantContract) hregister rfl (fun _ h => h.1)
          fun _ => trivial) (fun _ w' h' => ?_) w ans ⟨⟨⟨h, h0⟩, hs⟩, hfresh⟩ hA
        obtain ⟨⟨hwatch, -⟩, hregistered⟩ := h'
        refine ⟨?_, hwatch.pending, hregistered.attending
          (Distinct.of_nodup (List.nodup_append.mp hfresh.distinct).1)⟩
        rw [Watching, hwatch.pending, hwatch.epollEvents]
        exact hwatch

/-! ## The event loop -/

/-- Wherever the supervisor waits in its event loop, it keeps its books
and awaits its workers. -/
def awaitContract (n : UInt32) : Contract Answer World :=
  { contract False n with waits := fun w => (∃ m more, Books m more w) ∧ Attending w }

theorem await_enterInv (n : UInt32) :
    EnterInv (awaitContract n) (fun w => Watching False n w ∧ Attending w) handle (-1) none where
  wf _ h := h.2.wf
  waits _ h := ⟨⟨n, [], h.1.books⟩, h.2⟩
  start w h := ⟨(supervisor_enterInv False n).start w h.1, h.2.reloop (h.2.wf.setRun true) rfl⟩
  stop hf w x m h hp hx hm hr := ⟨(supervisor_enterInv False n).stop hf w x m h.1 hp hx hm hr,
    h.2.reloop (h.2.wf.setRun false) rfl⟩
  batch w evs b h hp hne hb := ⟨(supervisor_enterInv False n).batch w evs b h.1 hp hne hb,
    h.2.reloop (h.2.wf.polled hb) rfl⟩
  skip w e rest cb h hp hc hf := ⟨(supervisor_enterInv False n).skip w e rest cb h.1 hp hc hf,
    h.2.reloop h.2.wf.popped rfl⟩
  callback e rest cb f arr hf := by
    have hcall := (handle_attending f e.events cb.userdata1 cb.userdata2).triple
      ((supervisor_enterInv False n).callback e rest cb f arr hf) fun x hx => hx
    refine Triple.conseq hcall ?_ fun _ w h => ⟨⟨h.1.1, h.2⟩, h.1.2⟩
    rintro _ ⟨w, h, hp, hc, harr, rfl⟩
    exact ⟨⟨w, h.1, hp, hc, harr, rfl⟩, h.2.reloop h.2.wf.popped rfl⟩
  after _ h := nomatch h
  collect w l h hp hc := ⟨(supervisor_enterInv False n).collect w l h.1 hp hc,
    h.2.reloop (h.2.wf.collected hp hc) (h.2.wf.collected_reg hp hc)⟩

/-- A worker that was forked and not handled is awaited, through the
descriptor that stands for it. -/
theorem Attending.awaits {more : List Nat} (h : Attending w) (hb : Books n more w)
    (hforked : .forked i ∈ w.own.log) (hhandled : .handled i ∉ w.own.log) :
    ∃ fd, w.own.fds.object fd = some (.worker i) ∧ Awaits w.loop fd i := by
  have haccount := hb.log.account i
  have hpos := List.count_pos_iff.mpr hforked
  have hzero := List.count_eq_zero.mpr hhandled
  simp only [List.count_append, count_passedOn_handled] at haccount
  have hmem : i ∈ actives 0 w.own.supervisor.workers := List.count_pos_iff.mp (by omega)
  have hiff := mem_actives_iff 0 i w.own.supervisor.workers
  rw [Nat.zero_add] at hiff
  obtain ⟨k, hk, h0⟩ := hiff.mp hmem
  exact ⟨k.pidfd, hb.objects i k hk h0, h.awaited i k hk h0 hhandled⟩

/-- After a success there is nothing to wait for. -/
theorem supervisorCleanup_success_runs (w w' : World) (ans : List Answer) :
    supervisorCleanup .success w ans ≠ .stopped w' := by
  have htriple : Triple (⟨fun _ => True, fun _ => False, True⟩ : Contract Answer World)
      (fun _ => True) (supervisorCleanup .success) (fun _ _ => True) := by
    refine Triple.bind (R := fun _ _ => True) (Triple.when nofun fun _ _ h => h) fun _ =>
      Triple.bind (R := fun _ _ => True) (Triple.modify fun _ h => h) fun _ =>
      Triple.bind (R := fun _ _ => True) (Triple.bind Triple.get fun _ =>
        Triple.pure fun _ _ => trivial) fun s =>
      Triple.bind (R := fun _ _ => True) (Triple.when (fun _ =>
        Triple.step_partial trivial fun _ _ _ h _ => h) fun _ _ h => h) fun _ => ?_
    cases s.loop with
    | none => exact Triple.pure fun _ h => h
    | some epollfd =>
      exact Triple.bind (R := fun _ _ => True) (Triple.step_partial trivial fun _ _ _ h _ => h)
        fun _ => Triple.step_partial trivial fun _ _ _ h _ => h
  exact fun hr => htriple.stopped trivial (fun _ _ => trivial) hr

/-- `main`, up to its event loop; `false` where it does not get there. -/
def launched (n : UInt32) : Program Bool := do
  if ← spawn n then launch else pure false

/-- **No exit is missed.** Where no registration failed, the supervisor in
its event loop awaits each worker it forked and has not handled. -/
theorem main_awaits {ans : List Answer} (hgrants : ∀ y ∈ ans, Grants y)
    (hentered : (launched n started ans).Returns fun ready _ => ready = true)
    (hstop : main n started ans = .stopped w) (hforked : .forked i ∈ w.own.log)
    (hhandled : .handled i ∉ w.own.log) :
    ∃ fd, w.own.fds.object fd = some (.worker i) ∧ Awaits w.loop fd i := by
  obtain ⟨ready, w₀, rest, hrun, rfl⟩ := hentered.state
  unfold launched at hrun
  rw [Prog.bind_run] at hrun
  rw [main_eq, Prog.bind_run] at hstop
  cases hspawn : spawn n started ans with
  | stopped w => rw [hspawn] at hrun; cases hrun
  | fault => rw [hspawn] at hrun; cases hrun
  | done spawned w₁ mid =>
    rw [hspawn] at hrun hstop
    cases spawned with
    | false => cases hrun
    | true =>
      have hstart : Beside Forks started := List.forall_mem_nil _
      have htriple : Triple (contract False n) _ (spawn n) _ := spawn_triple n
      have hspawning := (htriple.done rfl (fun _ _ h => h.elim) hspawn).1
      obtain ⟨hforks, hmid⟩ := Triple.done (spawn_forks (A := Grants) n) hstart hgrants hspawn
      have hlaunch : Triple grantContract (fun w => Spawning n n.toNat w ∧
          Spawned w₁.own.supervisor.workers w.own) launch _ := launch_attending
      obtain ⟨hready, -⟩ := hlaunch.done ⟨hspawning, rfl, hforks⟩ hmid hrun
      obtain ⟨hwatch, hpending, hattending⟩ := hready rfl
      have henter := (await_enterInv n).sepollEnter_triple w₀ rest ⟨⟨hwatch, hattending⟩, hpending⟩
        fun _ _ h => h.elim
      simp only [if_true, finish, supervise, serve, Prog.bind_assoc, Prog.bind_run] at hstop hrun
      simp only [hrun, if_true, Prog.bind_run] at hstop
      cases hloop : sepollEnter handle (-1) none w₀ rest with
      | stopped w =>
        rw [hloop] at hstop henter
        obtain rfl := Outcome.stopped.inj hstop
        obtain ⟨⟨m, more, hbooks⟩, hattending⟩ := henter
        exact hattending.awaits hbooks hforked hhandled
      | fault => rw [hloop] at hstop; cases hstop
      | done r w' rest' =>
        simp only [hloop, Prog.pure_run] at hstop
        cases hclean : supervisorCleanup .success w' rest' with
        | stopped w'' => exact absurd hclean (supervisorCleanup_success_runs w' w'' rest')
        | fault => rw [hclean] at hstop; cases hstop
        | done u w'' rest'' => rw [hclean] at hstop; cases hstop

end Sgopher.Main
