/-
Sgopher.Main.WakeTheorems — the supervisor handles the exit of a worker
only when the kernel reported it.

The kernel reports the descriptor of a process when the process has ended.
`Reported ended ws` says that of an answer, for the workers `ws` that were
spawned and those that have ended by then. What follows is that every exit
the supervisor handles is that of a worker that has ended: when a batch
arrives, each event of it that is for a worker is for one that has ended
(`Seen`), and this stays so while the callbacks before it remove
registrations and free nothing.

No `sorry`, no `axiom`, no `native_decide`.
-/
import Sgopher.Lib.System
import Sgopher.Sepoll.CarryTheorems
import Sgopher.Main.MainTheorems

namespace Sgopher.Main

open Sgopher.Lib Sgopher.Sepoll Prog

variable {ended : Nat → Prop} {ws : List Worker} {b : List EpollEvent} {w : World} {p : Process}
  {l : Loop Handler Arg} {A : Answer → Prop} {i : Nat} {sig : Nat} {fd : Int} {n : UInt32}

/-! ## What is known of an exit -/

/-- A pidfd is reported only when its process has ended. -/
def Reported (ended : Nat → Prop) (ws : List Worker) (y : Answer) : Prop :=
  ∀ evs fd bits i k, y.loop.wait = .ready evs → (fd, bits) ∈ evs → 0 ≤ fd → ws[i]? = some k →
    k.pidfd = fd → ended i

/-- The exits that were handled are those of workers that have ended, and
the descriptors of the spawned workers stand for nothing else. -/
structure Known (ended : Nat → Prop) (ws : List Worker) (p : Process) : Prop where
  handled : ∀ i, .handled i ∈ p.log → ended i
  named : ∀ i k o, ws[i]? = some k → 0 ≤ k.pidfd → p.fds.object k.pidfd = some o → o = .worker i

/-- What the supervisor knows within the batch `b`. -/
structure Seen (ended : Nat → Prop) (ws : List Worker) (b : List EpollEvent) (w : World) :
    Prop where
  known : Known ended ws w.own
  regs : ∀ fd e cb i, w.loop.interest fd = some e → w.loop.heap.cell e.ptr = some cb →
    cb.function = some .pidfdEvent → cb.userdata2 = .worker i →
    0 ≤ fd ∧ ∃ k, ws[i]? = some k ∧ k.pidfd = fd
  batch : ∀ e ∈ b, ∀ cb i, w.loop.heap.cell e.ptr = some cb → cb.function = some .pidfdEvent →
    cb.userdata2 = .worker i → ended i
  array : b <+: w.loop.epollEvents

/-- No more exits are handled, and no more descriptors open. -/
structure Process.Fewer (p p' : Process) : Prop where
  handled : ∀ i, .handled i ∈ p'.log → .handled i ∈ p.log
  object : ∀ fd o, p'.fds.object fd = some o → p.fds.object fd = some o

theorem Process.Fewer.of_eq {p' : Process} (hlog : p'.log = p.log) (hfds : p'.fds = p.fds) :
    p.Fewer p' := ⟨fun _ hi => hlog ▸ hi, fun _ _ ho => hfds ▸ ho⟩

theorem Process.Fewer.refl (p : Process) : p.Fewer p := .of_eq rfl rfl

/-- A property that survives where the loop comes to know less, no exit is
handled and nothing is opened. -/
def Lax (I : World → Prop) : Prop :=
  ∀ w l p, I w → w.loop.Fewer l → w.own.Fewer p → I ⟨l, p⟩

theorem Known.fewer {p' : Process} (h : Known ended ws p) (hp : p.Fewer p') :
    Known ended ws p' :=
  ⟨fun i hi => h.handled i (hp.handled i hi), fun i k o hk h0 ho =>
    h.named i k o hk h0 (hp.object _ _ ho)⟩

theorem Known.lax : Lax (Beside (Known ended ws)) := fun _ _ _ h _ hp => Known.fewer h hp

theorem Seen.between (h : Seen ended ws b w) : Seen ended ws [] w :=
  ⟨h.known, h.regs, nofun, List.nil_prefix⟩

theorem Seen.lax : Lax (Seen ended ws b) := by
  intro w l p h hl hp
  refine ⟨h.known.fewer hp, fun fd e cb i he hc hf hu => ?_,
    fun e he cb i hc hf hu => ?_, hl.array.symm ▸ h.array⟩
  · rcases hl.cell e.ptr cb hc with hnone | hc
    · rw [hnone] at hf
      cases hf
    · exact h.regs fd e cb i (hl.interest fd e he) hc hf hu
  · rcases hl.cell e.ptr cb hc with hnone | hc
    · rw [hnone] at hf
      cases hf
    · exact h.batch e he cb i hc hf hu

/-! ## The calls -/

variable {I : World → Prop}

theorem useFd_keeps : Keeps A I (useFd fd) := Keeps.step_map fun _ _ h _ => h

theorem getSupervisor_keeps : Keeps A I getSupervisor := Keeps.bind Keeps.get fun _ => Keeps.pure _

section Calls

variable (hI : Lax I)

include hI

theorem Lax.setSupervisor (f : Supervisor → Supervisor) : Keeps A I (setSupervisor f) :=
  Keeps.modify fun w h => hI w w.loop _ h (.refl _) (.of_eq rfl rfl)

theorem Lax.note {e : Event} (he : ∀ i, e ≠ .handled i) : Keeps A I (note e) :=
  Keeps.modify fun w h => hI w w.loop _ h (.refl _) ⟨fun i hi =>
    (List.mem_append.mp hi).elim id fun hi => absurd (List.mem_singleton.mp hi).symm (he i),
    fun _ _ ho => ho⟩

theorem Lax.closeFd : Keeps A I (closeFd fd) :=
  Keeps.step_map fun w _ h hc => hI w _ _ h (.unwatched w.loop fd)
    ⟨fun _ hi => hi, fun _ _ ho => Heap.closeFd_object hc ho⟩

theorem Lax.sepollRemove : Keeps A I (sepollRemove fd : Program Ret) :=
  Keeps.step_map fun w r h hr => by
    obtain ⟨l, ret⟩ := r
    exact hI w l w.own h (.remove hr) (.refl _)

theorem Lax.setRun (run : Bool) : Keeps A I (setRun run : Program Unit) :=
  Keeps.modify fun w h => hI w _ w.own h ⟨rfl, fun _ _ he => he, fun _ _ => Or.inr⟩ (.refl _)

theorem Lax.pidfdSendSignal : Keeps A I (pidfdSendSignal fd sig) := by
  refine Keeps.bind useFd_keeps fun o => ?_
  have hask : Keeps A I (do let _ ← systemCall; Pure.pure () : Program Unit) :=
    Keeps.bind Keeps.ask fun _ => Keeps.pure _
  cases o with
  | worker i => exact Keeps.bind (hI.note nofun) fun _ => hask
  | signals => exact Keeps.bind (Keeps.step fun _ _ _ _ h => nomatch h) fun _ => hask
  | epoll => exact Keeps.bind (Keeps.step fun _ _ _ _ h => nomatch h) fun _ => hask

theorem Lax.signalWorkers (closePidfd : Bool) : ∀ ws : List Worker,
    Keeps A I (signalWorkers sig closePidfd ws)
  | [] => Keeps.pure ()
  | _ :: ws => Keeps.bind (Keeps.when (Keeps.bind hI.pidfdSendSignal fun _ =>
      Keeps.when hI.closeFd)) fun _ => Lax.signalWorkers closePidfd ws

theorem Lax.signalAllWorkers (closePidfd : Bool) : Keeps A I (signalAllWorkers sig closePidfd) :=
  Keeps.bind getSupervisor_keeps fun s => hI.signalWorkers closePidfd s.workers

theorem Lax.sigfdEvent : Keeps A I sigfdEvent := by
  refine Keeps.iterate (fun _ => ?_) ()
  refine Keeps.bind getSupervisor_keeps fun s => Keeps.bind useFd_keeps fun _ =>
    Keeps.bind Keeps.ask fun x => ?_
  cases x.read with
  | error e => exact Keeps.pure _
  | ok signo =>
    exact Keeps.bind (Keeps.when (Keeps.bind (hI.note nofun) fun _ => hI.signalAllWorkers false))
      fun _ => Keeps.pure _

/-- The exit of a worker may be handled if the property does not mind. -/
theorem Lax.pidfdEvent (hi : ∀ w, I w → I (noted w [.handled i])) : Keeps A I (pidfdEvent i) := by
  refine Keeps.bind (Keeps.step_map fun _ _ h _ => h) fun k => Keeps.bind useFd_keeps fun _ =>
    Keeps.bind Keeps.ask fun _ => ?_
  refine Keeps.bind (Keeps.modify hi) fun _ => Keeps.bind hI.sepollRemove fun _ =>
    Keeps.bind hI.closeFd fun _ => Keeps.bind (hI.setSupervisor _) fun _ => ?_
  exact Keeps.bind getSupervisor_keeps fun s => Keeps.when (Keeps.bind (hI.note nofun) fun _ =>
    hI.setRun false)

theorem Lax.supervisorCleanup (code : ExitStatus) : Keeps A I (supervisorCleanup code) := by
  refine Keeps.bind (Keeps.when (hI.signalAllWorkers true)) fun _ =>
    Keeps.bind (hI.setSupervisor _) fun _ => Keeps.bind getSupervisor_keeps fun s =>
      Keeps.bind (Keeps.when hI.closeFd) fun _ => ?_
  cases s.loop with
  | none => exact Keeps.pure _
  | some epollfd =>
    refine Keeps.bind (Keeps.step_map fun w r h hr => ?_) fun _ => hI.closeFd
    obtain ⟨l, hl, rfl⟩ := Option.map_eq_some_iff.mp hr
    exact hI w l w.own h (.destroy hl) (.refl _)

end Calls

/-! ## The event loop -/

theorem handle_keeps {f : Handler} {events : UInt32} {u1 u2 : Arg}
    (hu : f = .pidfdEvent → ∀ i, u2 = .worker i → ended i) :
    Keeps A (Seen ended ws b) (handle f events u1 u2) := by
  unfold handle
  split
  · exact Seen.lax.sigfdEvent
  · rename_i i
    refine Seen.lax.pidfdEvent fun w h =>
      ⟨⟨fun j hj => ?_, h.known.named⟩, h.regs, h.batch, h.array⟩
    rcases List.mem_append.mp hj with hj | hj
    · exact h.known.handled j hj
    · obtain rfl := Event.handled.inj (List.mem_singleton.mp hj)
      exact hu rfl j rfl
  · exact Keeps.step fun _ _ _ _ h => nomatch h

/-- The callbacks of a batch find the workers ended that they are for. -/
theorem seen_enterCarry :
    EnterCarry (Reported ended ws) (Seen ended ws []) (Seen ended ws) handle where
  run w run h := Seen.lax w _ w.own h ⟨rfl, fun _ _ he => he, fun _ _ => Or.inr⟩ (.refl _)
  batch w x evs h hx hev := by
    refine ⟨h.known, h.regs, fun e he cb i hc hf hu => ?_, List.prefix_append ..⟩
    obtain ⟨fd, bits, m, hm, hi, hp⟩ := Loop.ready_named evs [] e (List.mem_of_mem_take he)
    rw [hp] at hc
    obtain ⟨h0, k, hk, hfd⟩ := h.regs fd m cb i hi hc hf hu
    exact hx evs fd bits i k hev hm h0 hk hfd
  array b w h := h.array
  between b w h := h.between
  pop b w h := ⟨h.known, h.regs, h.batch, h.array⟩
  callback b e cb f he hf := by
    rintro w ans ⟨h, hc⟩ hA
    have hkeeps : Keeps (Reported ended ws) (Seen ended ws b)
        (handle f e.events cb.userdata1 cb.userdata2) :=
      handle_keeps fun hfun i hu => h.batch e he cb i hc (by rw [hf, hfun]) hu
    have hcall : Triple (.keeping (Reported ended ws) (Seen ended ws [])) (Seen ended ws b)
        (handle f e.events cb.userdata1 cb.userdata2) (fun _ => Seen ended ws b) :=
      hkeeps.weaken rfl (fun _ h => h.between) id
    exact hcall w ans h hA
  collect w l h hl := Seen.lax w l w.own h (.collect hl) (.refl _)

/-! ## From the last fork to the exit -/

/-- The spawned workers, and a log of nothing but forks. -/
def Spawned (ws : List Worker) (p : Process) : Prop :=
  p.supervisor.workers = ws ∧ ∀ e ∈ p.log, ∃ j, e = .forked j

theorem Spawned.known {more : List Nat} (h : Spawned ws w.own) (hb : Books n more w) :
    Known ended ws w.own := by
  refine ⟨fun i hi => ?_, fun i k o hk h0 ho => ?_⟩
  · obtain ⟨j, hj⟩ := h.2 _ hi
    cases hj
  · exact Option.some.inj (ho.symm.trans (hb.objects i k (h.1 ▸ hk) h0))

theorem openFd_spawned {o : Object} : Keeps A (Beside (Spawned ws)) (openFd fd o) :=
  Keeps.step fun _ _ _ h he => by
    obtain ⟨rfl, -⟩ := Prod.mk.inj (Option.some.inj he)
    exact h

theorem createLoop_spawned {size : Int} : Keeps A (Beside (Spawned ws)) (createLoop size) := by
  refine Keeps.bind Keeps.ask fun x => ?_
  cases x.create with
  | none => cases (sepollCreate _ _ _ _ : Option (Loop Handler Arg)) <;> exact Keeps.pure _
  | some want =>
    cases (sepollCreate _ _ _ _ : Option (Loop Handler Arg)) with
    | none => exact Keeps.pure _
    | some l =>
      exact Keeps.bind openFd_spawned fun _ => Keeps.bind (Keeps.modify fun _ h => h) fun _ =>
        Keeps.bind (Keeps.modify fun _ h => h) fun _ => Keeps.pure _

theorem registerWorkers_spawned : ∀ (i : Nat) (ws' : List Worker),
    Keeps A (Beside (Spawned ws)) (registerWorkers i ws')
  | _, [] => Keeps.pure ()
  | i, _ :: ws' => Keeps.bind (Keeps.when (Keeps.bind (sepollAdd_keeps _ _ _ _ _) fun _ =>
      Keeps.pure _)) fun _ => registerWorkers_spawned (i + 1) ws'

theorem register_spawned : Keeps A (Beside (Spawned ws)) register :=
  Keeps.bind getSupervisor_keeps fun s => Keeps.bind (sepollAdd_keeps _ _ _ _ _) fun _ =>
    registerWorkers_spawned 0 s.workers

/-- When the event loop is entered, its registrations are for the spawned
workers. -/
theorem Watching.seen (h : Watching False n w) (hs : Spawned ws w.own) : Seen ended ws [] w := by
  refine ⟨hs.known h.books, fun fd e cb i he hc hf hu => ?_, nofun, List.nil_prefix⟩
  have hreg : w.loop.reg fd
      = some ⟨e.ptr, e.events, cb.function, cb.userdata1, cb.userdata2⟩ := by
    rw [Loop.reg, he, Option.bind_some, hc]
    rfl
  cases h.books.regs fd _ hreg with
  | signals hf' => rw [hf] at hf'; cases hf'
  | worker j k _ hu' hk hfd h0 =>
    obtain rfl : i = j := Arg.worker.inj (hu.symm.trans hu')
    exact ⟨h0, k, hs.1 ▸ hk, hfd.symm⟩

/-- What the supervisor owes from the last fork on: it has handled no exit
but those of workers that have ended. -/
def wakeContract (ended : Nat → Prop) (ws : List Worker) : Contract Answer World :=
  .keeping (Reported ended ws) (Beside (Known ended ws))

/-- A part of the set-up, by what the books say of it. -/
theorem Spawned.books {α : Type} {m : Program α} {P : World → Prop} {Q : α → World → Prop}
    (hk : Keeps (Reported ended ws) (Beside (Spawned ws)) m) (h : Triple (contract False n) P m Q) :
    Triple (wakeContract ended ws) (fun w => P w ∧ Spawned ws w.own) m
      (fun a w => Q a w ∧ Spawned ws w.own) :=
  (hk.under h fun _ _ hf => hf.elim).weaken rfl (fun _ ⟨⟨_, _, hb⟩, hs⟩ => Spawned.known hs hb) id

theorem launch_spawned : Keeps A (Beside (Spawned ws)) launch := by
  refine Keeps.bind getSupervisor_keeps fun s => Keeps.ite (Keeps.pure _) ?_
  refine Keeps.bind Keeps.ask fun x => Keeps.ite (Keeps.pure _) ?_
  refine Keeps.bind Keeps.ask fun y => ?_
  cases y.signalfd with
  | error e => exact Keeps.pure _
  | ok want =>
    refine Keeps.bind openFd_spawned fun _ => Keeps.bind (Keeps.modify fun _ h => h) fun _ => ?_
    cases loopSize s.numWorkers with
    | none => exact Keeps.step fun _ _ _ _ h => nomatch h
    | some size =>
      refine Keeps.bind createLoop_spawned fun created => Keeps.ite ?_ (Keeps.pure _)
      exact Keeps.bind register_spawned fun _ => Keeps.pure _

theorem supervise_handled :
    Triple (wakeContract ended ws) (fun w => Spawning n i w ∧ Spawned ws w.own) supervise
      (fun _ => Beside (Known ended ws)) := by
  refine Triple.bind (Spawned.books launch_spawned (launch_triple False.elim)) fun ready => ?_
  cases ready with
  | false =>
    refine Triple.pure fun w h => ?_
    have hleaving : Leaving False n .failure w := h.1
    exact h.2.known hleaving.books
  | true =>
    refine Triple.pre (Triple.bind ((seen_enterCarry.sepollEnter_keeps (-1)).weaken rfl
      (fun _ h => h.known) id) fun _ => Triple.pure fun w h => h.known) fun w h => ?_
    exact h.1.1.seen h.2

/-- `main` once its workers are spawned. -/
def finish : Program ExitStatus := do
  let code ← supervise
  supervisorCleanup code
  pure code

theorem finish_handled :
    Triple (wakeContract ended ws) (fun w => Spawning n i w ∧ Spawned ws w.own) finish
      (fun _ => Beside (Known ended ws)) :=
  Triple.bind supervise_handled fun code =>
    Triple.bind (Known.lax.supervisorCleanup code) fun _ => Triple.pure fun _ h => h

/-! ## The forks -/

theorem main_eq (n : UInt32) :
    main n = spawn n >>= fun spawned => if spawned then finish else Pure.pure .failure := by
  unfold main mainUntilExit
  rw [Prog.bind_assoc]
  congr 1
  funext spawned
  cases spawned with
  | false => rfl
  | true =>
    simp only [if_true, Prog.bind_assoc]
    rfl

theorem spawnWorkers_local : ∀ k i : Nat, Local (spawnWorkers k i)
  | 0, _ => .pure ()
  | k + 1, i => by
    refine .bind (.bind .ask fun x => ?_) fun _ => spawnWorkers_local k (i + 1)
    cases x.fork with
    | none => exact .pure ()
    | some p =>
      exact .bind (.step _) fun _ => .bind (.modify _) fun _ => .modify _

theorem spawn_local (n : UInt32) : Local (spawn n) :=
  .bind .ask fun _ => .ite (.pure _) <| .bind .ask fun _ => .ite (.pure _) <|
    .bind (.modify _) fun _ => .bind (spawnWorkers_local _ _) fun _ => .pure _

/-- Nothing but forks is logged. -/
def Forks (p : Process) : Prop := ∀ e ∈ p.log, ∃ j, e = .forked j

theorem spawnWorkers_forks : ∀ k i : Nat, Keeps A (Beside Forks) (spawnWorkers k i)
  | 0, _ => Keeps.pure ()
  | k + 1, i => by
    refine Keeps.bind (Keeps.bind Keeps.ask fun x => ?_) fun _ => spawnWorkers_forks k (i + 1)
    cases x.fork with
    | none => exact Keeps.pure ()
    | some p =>
      refine Keeps.bind (Keeps.step fun w w' _ h he => ?_) fun _ =>
        Keeps.bind (Keeps.modify fun w h e he => ?_) fun _ => Keeps.modify fun _ h => h
      · obtain ⟨rfl, -⟩ := Prod.mk.inj (Option.some.inj he)
        exact h
      · rcases List.mem_append.mp he with he | he
        · exact h e he
        · exact ⟨i, List.mem_singleton.mp he⟩

theorem spawn_forks (n : UInt32) : Keeps A (Beside Forks) (spawn n) :=
  Keeps.bind Keeps.ask fun _ => Keeps.ite (Keeps.pure _) <| Keeps.bind Keeps.ask fun _ =>
    Keeps.ite (Keeps.pure _) <| Keeps.bind (Keeps.modify fun _ h => h) fun _ =>
      Keeps.bind (spawnWorkers_forks _ _) fun _ => Keeps.pure _

/-! ## The whole run -/

/-- What the kernel says in the state the supervisor waits in: it reports
open descriptors only, and a pidfd only when its process has ended. -/
def Reports (ended : Nat → Prop) (w : World) (y : Answer) : Prop :=
  ∀ evs fd bits, y.loop.wait = .ready evs → (fd, bits) ∈ evs →
    ∃ o, w.own.fds.object fd = some o ∧ ∀ i, o = .worker i → ended i

theorem Reports.reported {y : Answer} (h : Reports ended w y) (hk : Known ended ws w.own) :
    Reported ended ws y := by
  rintro evs fd bits i k hev hm h0 hi rfl
  obtain ⟨o, ho, hended⟩ := h evs k.pidfd bits hev hm
  exact hended i (hk.named i k o hi h0 ho)

/-- **Every exit the supervisor handles is that of a worker that has
ended**, wherever its run gets to, if at every call the kernel reports no
pidfd of a process that is still there. -/
theorem main_handled (n : UInt32) {ans : List Answer}
    (hgiven : ∀ zs y ys, ans = zs ++ y :: ys →
      ∃ w, main n started zs = .stopped w ∧ Reports ended w y) :
    (main n started ans).Always fun w => ∀ i, .handled i ∈ w.own.log → ended i := by
  have hstart : Beside Forks started := List.forall_mem_nil _
  have hforks : (spawn n started ans).Always (Beside Forks) :=
    (spawn_forks (A := fun _ => True) n).always hstart fun _ _ => trivial
  have hnone : ∀ w : World, Forks w.own → ∀ i, .handled i ∈ w.own.log → ended i :=
    fun w h i hi => by
      obtain ⟨j, hj⟩ := h _ hi
      cases hj
  rw [main_eq] at hgiven ⊢
  cases hr : spawn n started ans with
  | fault =>
    rw [Prog.bind_run, hr]
    exact ⟨nofun, nofun⟩
  | stopped w =>
    rw [Prog.bind_run, hr]
    refine ⟨?_, nofun⟩
    rintro _ ⟨⟩
    exact hnone w (hforks.stopped w hr)
  | done spawned w₀ rest =>
    have hw := hforks.done spawned w₀ rest hr
    have htriple : Triple (contract False n) _ (spawn n) _ := spawn_triple n
    have hspawn := (htriple.done rfl (fun _ _ h => h.elim) hr).1
    rw [Prog.bind_done hr]
    cases spawned with
    | false =>
      refine ⟨nofun, ?_⟩
      rintro _ _ _ ⟨⟩
      exact hnone w₀ hw
    | true =>
      obtain ⟨pre, rfl, hpre⟩ := spawn_local n _ _ _ _ _ hr
      have hfinish : Triple (wakeContract ended w₀.own.supervisor.workers)
          (fun w => Spawning n n.toNat w ∧ Spawned w₀.own.supervisor.workers w.own) finish _ :=
        finish_handled
      have hjust : ∀ y ∈ rest, Reported ended w₀.own.supervisor.workers y := by
        refine hfinish.justified (s := w₀) ⟨hspawn, rfl, hw⟩ fun zs y ys he => ?_
        obtain ⟨w, hstop, hreport⟩ := hgiven (pre ++ zs) y ys (by rw [he, List.append_assoc])
        rw [Prog.bind_done (hpre zs)] at hstop
        exact ⟨w, hstop, fun hk => hreport.reported hk⟩
      exact (hfinish w₀ rest ⟨hspawn, rfl, hw⟩ hjust).always
        (fun w h => h.handled) fun _ w h => h.handled

end Sgopher.Main
