/-
Sgopher.Server.ToldTheorems — a worker stops only when it is told to.

From its first call to its exit a worker process keeps what its parts keep,
if it is not about the settings, which are made on the way (`Lifelong`).
One such property is that nothing but `server_signal` notes that the worker
was told to stop, and that only where it has read a SIGTERM (`Untold`). And
the worker gets to its exit with success only through the end of its event
loop, which ends only then if no wait fails (`serverProcess_told`).

No `sorry`, no `axiom`, no `native_decide`.
-/
import Sgopher.Server.SetupTheorems

namespace Sgopher.Server

open Sgopher.Lib Sgopher.Sepoll Prog

namespace Proc

variable {told : Prop} {A : ProcAnswer → Prop} {J : Worker → Prop} {params : Params}
  {limit : Rlimit} {fd : Int} {α : Type} {m : Program (Option Int)}

/-! ## The properties -/

/-- A property that nothing but the descriptors and the flag matters to,
and that outlasts what a worker does to these. -/
structure Lifelong (A : ProcAnswer → Prop) (J : Worker → Prop) : Prop where
  same : ∀ {k k' : Worker}, J k → k'.fds = k.fds → k'.terminated = k.terminated → J k'
  opened : ∀ {k : Worker} (want : Int) (o : Object), J k →
    J { k with fds := (k.fds.openFd want o).1 }
  closed : ∀ {k : Worker} {fd : Int} {fds : Heap Object}, J k → k.fds.closeFd fd = some fds →
    J { k with fds := fds }
  told : ∀ {k : Worker} {y : ProcAnswer}, A y → y.serve.signal = .ok SIGTERM → J k →
    J { k with terminated := true }

/-- The worker was told to stop only if that may be. -/
def Untold (told : Prop) (k : Worker) : Prop := k.terminated = true → told

theorem Untold.lifelong (hA : ∀ y, A y → y.serve.signal = .ok SIGTERM → told) :
    Lifelong A (Untold told) where
  same h _ hflag ht := h (hflag.symm.trans ht)
  opened _ _ h := h
  closed h _ := h
  told hy hs _ _ := hA _ hy hs

/-- A program of the process that keeps a property of the worker. -/
abbrev KeepsWorker (A : ProcAnswer → Prop) (J : Worker → Prop) (m : Program α) : Prop :=
  Keeps A (fun p => J p.world.own) m

/-- What else is known of such a program, under answers that are more than
it needs. -/
theorem KeepsWorker.known {m : Program α} {X : Contract ProcAnswer Proc} {P : Proc → Prop}
    {Q : α → Proc → Prop} (hk : KeepsWorker A J m) (h : Triple X P m Q)
    (ha : ∀ y, A y → X.answers y) :
    Triple (.keeping A fun _ => True) (fun p => P p ∧ J p.world.own) m
      (fun a p => Q a p ∧ J p.world.own) :=
  (hk.under h ha).weaken rfl (fun _ _ => trivial) id

/-- What an answer gives to the worker. -/
def Served (A : ProcAnswer → Prop) (x : Answer) : Prop := ∃ y, A y ∧ y.serve = x

theorem Lifelong.lasting (hJ : Lifelong A J) : Lasting (Served A) J where
  same h hfds _ hflag := hJ.same h hfds hflag
  opened want o h := hJ.opened want o h
  closed h hc := hJ.closed h hc
  told := by
    rintro k _ ⟨y, hy, rfl⟩ hs h
    exact hJ.told hy hs h

/-! ## Calls -/

theorem serve_lifelong {m : Server.Program α} (h : Keeps (Served A) (Beside J) m) :
    KeepsWorker A J (serve m) := by
  have hone : Triple (.keeping A fun p => J p.world.own)
      (fun p => J (part.get p).own ∧ True) (serve m) (fun _ p => J (part.get p).own ∧ True) :=
    h.embed (fun _ _ h => h) (fun y hy => ⟨y, hy, rfl⟩) (fun _ _ hw => hw) id
  exact hone.conseq (fun _ h => ⟨h, trivial⟩) fun _ _ h => h.1

theorem check_lifelong : KeepsWorker A J check := Keeps.bind Keeps.ask fun _ => Keeps.pure _

theorem alloc_lifelong {want : Nat} {b : Block} : KeepsWorker A J (alloc want b) :=
  Keeps.step fun _ _ _ h he => by
    obtain ⟨rfl, -⟩ := Prod.mk.inj (Option.some.inj he)
    exact h

theorem free_lifelong {a : Nat} : KeepsWorker A J (free a) := Keeps.step_map fun _ _ h _ => h

variable (hJ : Lifelong A J)

include hJ

theorem closeFd_lifelong : KeepsWorker A J (serve (closeFd fd)) :=
  serve_lifelong (closeFd_lasts hJ.lasting)

theorem closeIf_lifelong : KeepsWorker A J (serve (Prog.when (0 ≤ fd) (closeFd fd))) :=
  serve_lifelong (closeIf_lasts hJ.lasting)

theorem openNew_lifelong : KeepsWorker A J openNew := by
  refine Keeps.bind Keeps.ask fun x => ?_
  cases x.descriptor with
  | error e => exact Keeps.pure _
  | ok want => exact Keeps.bind (serve_lifelong (openFd_lasts hJ.lasting)) fun _ => Keeps.pure _

/-- A change of the worker that touches neither its descriptors nor the
flag. -/
theorem modifyWorker_lifelong {f : World → World} (hf : ∀ w, (f w).own.fds = w.own.fds ∧
      (f w).own.terminated = w.own.terminated) :
    KeepsWorker A J (serve (Prog.modify f)) :=
  serve_lifelong (Keeps.modify fun w h => hJ.same h (hf w).1 (hf w).2)

theorem setServer_lifelong {f : ServerState → ServerState} : KeepsWorker A J (setServer f) :=
  modifyWorker_lifelong hJ fun _ => ⟨rfl, rfl⟩

/-! ## The set-up -/

omit hJ in
theorem setupsignals_lifelong : KeepsWorker A J setupsignals := by
  refine Keeps.bind check_lifelong fun _ => Keeps.ite ?_ (Keeps.pure _)
  refine Keeps.bind (Keeps.modify fun _ h => h) fun _ => Keeps.bind check_lifelong fun _ =>
    Keeps.ite ?_ (Keeps.pure _)
  refine Keeps.bind (Keeps.modify fun _ h => h) fun _ => Keeps.bind check_lifelong fun _ =>
    Keeps.ite ?_ (Keeps.pure _)
  exact Keeps.bind (Keeps.modify fun _ h => h) fun _ => Keeps.pure _

omit hJ in
theorem increasefdlimit_lifelong {inc : UInt64} : KeepsWorker A J (increasefdlimit inc) :=
  Keeps.bind Keeps.ask fun _ => Keeps.bind Keeps.get fun _ =>
    Keeps.bind (Keeps.modify fun _ h => h) fun _ => Keeps.pure _

theorem orClose_lifelong (h : KeepsWorker A J m) : KeepsWorker A J (orClose fd m) :=
  Keeps.bind check_lifelong fun _ => Keeps.ite h <|
    Keeps.bind (closeFd_lifelong hJ) fun _ => Keeps.pure _

theorem openSocket_lifelong {port : UInt16} : KeepsWorker A J (openSocket port) := by
  refine Keeps.bind (openNew_lifelong hJ) fun r => ?_
  cases r with
  | none => exact Keeps.pure _
  | some fd =>
    refine orClose_lifelong hJ (orClose_lifelong hJ (orClose_lifelong hJ (orClose_lifelong hJ ?_)))
    exact Keeps.bind (Keeps.modify fun _ h => h) fun _ => Keeps.pure _

theorem openSigfd_lifelong : KeepsWorker A J openSigfd :=
  Keeps.bind check_lifelong fun _ => Keeps.ite
    (Keeps.bind (Keeps.modify fun _ h => h) fun _ => openNew_lifelong hJ) (Keeps.pure _)

theorem openTimerfd_lifelong {interval : UInt32} : KeepsWorker A J (openTimerfd interval) := by
  refine Keeps.bind (openNew_lifelong hJ) fun r => ?_
  cases r with
  | none => exact Keeps.pure _
  | some fd =>
    exact Keeps.bind Keeps.ask fun x => Keeps.ite (Keeps.pure _) <|
      Keeps.bind (Keeps.modify fun _ h => h) fun _ => Keeps.pure _

theorem createLoop_lifelong {size : Int} : KeepsWorker A J (createLoop size) := by
  have hfree : ∀ a, KeepsWorker A J (do free a; Pure.pure false) := fun a =>
    Keeps.bind free_lifelong fun _ => Keeps.pure _
  refine Keeps.bind Keeps.ask fun x => ?_
  cases x.memory with
  | none => exact Keeps.pure _
  | some want =>
    refine Keeps.bind alloc_lifelong fun loop => Keeps.bind Keeps.ask fun y => ?_
    cases y.memory with
    | none => exact hfree loop
    | some want =>
      cases decide (0 ≤ size) with
      | false => exact hfree loop
      | true =>
        refine Keeps.bind alloc_lifelong fun events => Keeps.bind (openNew_lifelong hJ) fun r => ?_
        cases r with
        | none => exact Keeps.bind free_lifelong fun _ => hfree loop
        | some fd =>
          exact Keeps.bind (modifyWorker_lifelong hJ fun _ => ⟨rfl, rfl⟩) fun _ =>
            Keeps.bind (setServer_lifelong hJ) fun _ =>
              Keeps.bind (Keeps.modify fun _ h => h) fun _ => Keeps.pure _

theorem keep_lifelong {set : ServerState → Int → ServerState} {next : Program Bool}
    (hm : KeepsWorker A J m) (hnext : KeepsWorker A J next) :
    KeepsWorker A J (keep m set next) := by
  refine Keeps.bind hm fun r => ?_
  cases r with
  | none => exact Keeps.pure _
  | some fd => exact Keeps.bind (setServer_lifelong hJ) fun _ => hnext

theorem openAll_lifelong : KeepsWorker A J (openAll params) := by
  refine keep_lifelong hJ (openNew_lifelong hJ) (keep_lifelong hJ (openSigfd_lifelong hJ)
    (keep_lifelong hJ (openTimerfd_lifelong hJ) (keep_lifelong hJ (openSocket_lifelong hJ) ?_)))
  cases eventLoopSize params.maxClients with
  | none => exact serve_lifelong fault_lasts
  | some size => exact createLoop_lifelong hJ

theorem prepare_lifelong : KeepsWorker A J (prepare params) := by
  refine Keeps.bind setupsignals_lifelong fun _ => Keeps.ite ?_ (Keeps.pure _)
  refine Keeps.bind increasefdlimit_lifelong fun _ => Keeps.ite ?_ (Keeps.pure _)
  refine Keeps.bind Keeps.ask fun x => ?_
  cases x.memory with
  | none => exact Keeps.pure _
  | some want =>
    exact Keeps.bind alloc_lifelong fun _ => Keeps.bind (Keeps.modify fun _ h => h) fun _ =>
      Keeps.bind (openAll_lifelong hJ) fun _ => Keeps.ite (Keeps.pure _) (Keeps.pure _)

/-! ## The run -/

theorem enterLoop_lifelong : KeepsWorker A J enterLoop :=
  Keeps.bind (serve_lifelong register_lasts) fun _ =>
    Keeps.bind (serve_lifelong (sepollEnter_lasts hJ.lasting)) fun _ => Keeps.pure _

theorem serverCleanup_lifelong : KeepsWorker A J serverCleanup := by
  refine Keeps.bind Keeps.get fun p => ?_
  refine Keeps.bind (Keeps.when (Keeps.bind Keeps.get fun q => ?_)) fun _ => ?_
  · refine Keeps.bind (serve_lifelong sepollDestroy_keeps) fun _ => ?_
    exact Keeps.bind (closeFd_lifelong hJ) fun _ => Keeps.bind free_lifelong fun _ => free_lifelong
  · refine Keeps.bind (serve_lifelong (cleanupClients_lasts hJ.lasting _)) fun _ => ?_
    exact Keeps.bind (closeIf_lifelong hJ) fun _ => Keeps.bind (closeIf_lifelong hJ) fun _ =>
      Keeps.bind (closeIf_lifelong hJ) fun _ => Keeps.bind (closeIf_lifelong hJ) fun _ =>
        free_lifelong

/-- **From the first call of the process to its exit** the property is
kept. -/
theorem serverProcess_lifelong : KeepsWorker A J (serverProcess params) := by
  refine Keeps.bind (prepare_lifelong hJ) fun r => ?_
  cases r with
  | unregistered => exact Keeps.pure _
  | failed => exact Keeps.bind (serverCleanup_lifelong hJ) fun _ => Keeps.pure _
  | ready =>
    exact Keeps.bind (enterLoop_lifelong hJ) fun _ =>
      Keeps.bind (serverCleanup_lifelong hJ) fun _ => Keeps.pure _

/-! ## The end of the event loop -/

omit hJ

section Told

variable (hA : ∀ y, A y → y.serve.signal = .ok SIGTERM → told)

include hA

/-- The event loop of a worker that no wait fails of ends because it was
told to. -/
theorem enterLoop_told (hwaits : ∀ y, A y → ∀ e, y.serve.loop.wait ≠ .error e) :
    Triple (.keeping A fun _ => True)
      (fun p => Starts .waits p.world ∧ Untold told p.world.own) enterLoop (fun _ _ => told) := by
  have hserve : ∀ {α : Type} {P : World → Prop} {m : Server.Program α} {Q : α → World → Prop},
      Triple (Server.contract .waits) P m Q → KeepsWorker A (Untold told) (serve m) →
      Triple (.keeping A fun _ => True) (fun p => P p.world ∧ Untold told p.world.own) (serve m)
        (fun a p => Q a p.world ∧ Untold told p.world.own) := fun h hk => by
    have hone : Triple (.keeping A fun _ => True) _ (serve _) _ :=
      h.embed (v := part) (T := fun _ => True) (fun _ _ h => h)
        (fun y hy => ⟨False.elim, fun _ => hwaits y hy⟩) (fun _ _ _ => trivial) fun _ => trivial
    exact (KeepsWorker.known hk hone fun _ h => h).conseq
      (fun p hp => ⟨⟨hp.1, trivial⟩, hp.2⟩) fun a p hp => ⟨hp.1.1, hp.2⟩
  have hJ := Untold.lifelong hA
  refine Triple.bind (hserve (register_rest .waits) (serve_lifelong register_lasts)) fun _ => ?_
  refine Triple.bind (hserve (worker_enterInv .waits).sepollEnter_triple
    (serve_lifelong (sepollEnter_lasts hJ.lasting))) fun _ => Triple.pure fun p h => ?_
  obtain ⟨⟨⟨x, hx, hrest⟩, -, hrun⟩, huntold⟩ := h
  exact huntold (hrest.parts.told (by rw [hx]; trivial) hrun)

/-- **A worker exits with success only if it was told to**, where no wait
fails and its event loop has room for an event. -/
theorem serverProcess_told (hwaits : ∀ y, A y → ∀ e, y.serve.loop.wait ≠ .error e)
    (hroom : eventLoopSize params.maxClients ≠ some 0) :
    Triple (.keeping A fun _ => True)
      (fun p => Early params limit ⟨none, [], []⟩ p ∧ Untold told p.world.own)
      (serverProcess params) (fun code _ => code = .success → told) := by
  have hJ := Untold.lifelong hA
  have hopen : Triple (contract params limit False False) _ (prepare params) _ := prepare_triple
  have hcleanup : Triple (.keeping A fun _ => True) (fun p => Untold told p.world.own)
      serverCleanup (fun _ p => Untold told p.world.own) :=
    (serverCleanup_lifelong hJ).weaken rfl (fun _ _ => trivial) id
  refine Triple.bind (KeepsWorker.known (prepare_lifelong hJ) hopen
    fun _ _ => ⟨False.elim, False.elim⟩) fun r => ?_
  cases r with
  | unregistered => exact Triple.pure fun _ _ hcode => nomatch hcode
  | failed =>
    exact Triple.bind (hcleanup.pre fun _ h => h.2) fun _ =>
      Triple.pure fun _ _ hcode => nomatch hcode
  | ready =>
    refine Triple.bind (R := fun _ p => told ∧ Untold told p.world.own) ?_ fun _ =>
      Triple.assume fun htold => Triple.bind hcleanup fun _ => Triple.pure fun _ _ _ => htold
    rintro p ans ⟨⟨-, size, d, g, t, s, e, hsize, h0, hw⟩, huntold⟩ hans
    have hstarts : Starts .waits p.world := by
      refine ⟨size, params, d, g, t, s, e, fun _ => lt_of_le_of_ne h0 ?_, hw⟩
      rintro rfl
      exact hroom hsize
    exact ((enterLoop_told hA hwaits).post fun _ _ h => ⟨h, fun _ => h⟩) p ans
      ⟨hstarts, huntold⟩ hans

end Told

end Proc

end Sgopher.Server
