/-
Sgopher.Tester.ReportTheorems — the rates are never quotients by 0.

Three runs meet here. A worker whose timer is disarmed never sees it tick,
so it never leaves its loop, and does not exit successfully
(`EndsTimed.armed`). `main` gets to the rates only if a worker has exited
with status 0 (`Reported.worker`). And how each worker ended is what the
kernel said when it was waited for (`testerMain_ended`).

What `main` prints of its arguments before all this are options for the
same test (`report_repeats`).

No `sorry`, no `axiom`, no `native_decide`.
-/
import Sgopher.Lib.Keeps
import Sgopher.Tester.MainTheorems

namespace Sgopher.Tester

open Sgopher.Lib Prog

variable {args : Args} {s : MainState args} {duration : UInt32}

/-! ## A worker whose timer is disarmed -/

/-- The worker goes on. -/
def Running (w : WorkerState) : Prop := w.running = true

/-- What a disarmed timer answers. -/
abbrev Disarmed : WorkerAnswer → Prop := Ticks 0

theorem pollFds_running : Triple (.keeping Disarmed Running) Running (pollFds args)
    (fun r w => Running w ∧ ∀ timer socket, r = .ready timer socket →
      hasEvent timer POLLIN = false) := by
  refine Triple.iterate (I := fun _ => Running) (fun _ _ h => h) (fun _ => ?_) ()
  refine Triple.bind (R := fun x w => Running w ∧ Disarmed x)
    (Triple.ask (fun _ h => h) fun _ _ h hx => ⟨h, hx⟩) fun x => ?_
  cases hpoll : x.poll with
  | timedOut =>
    exact Triple.ite (fun _ => Triple.pure fun _ h => h.1) fun _ =>
      Triple.pure fun _ h => ⟨h.1, nofun⟩
  | failed e => exact Triple.pure fun _ h => ⟨h.1, nofun⟩
  | ready timer socket =>
    refine Triple.pure fun w h => ⟨h.1, fun timer' socket' he => ?_⟩
    obtain ⟨rfl, rfl⟩ := PollAnswer.ready.inj he
    by_contra htick
    exact h.2 timer socket hpoll (by simpa using htick) rfl

theorem readAll_running : Keeps Disarmed Running (readAll args) := by
  refine Keeps.iterate (fun _ => Keeps.bind Keeps.ask fun x => ?_) ()
  cases x.read with
  | error e => exact Keeps.pure _
  | ok available =>
    exact Keeps.ite (Keeps.bind Keeps.get fun w => Keeps.bind (Keeps.modify fun _ h => h)
      fun _ => Keeps.pure _) (Keeps.bind (Keeps.modify fun _ h => h) fun _ => Keeps.pure _)

theorem socketReady_running (revents : UInt32) :
    Keeps Disarmed Running (socketReady args revents) := by
  refine Keeps.ite (Keeps.bind Keeps.ask fun x => ?_) (Keeps.ite readAll_running (Keeps.pure _))
  cases x.write with
  | error e => exact Keeps.pure _
  | ok n =>
    exact Keeps.ite (Keeps.pure _) (Keeps.bind (Keeps.modify fun _ h => h) fun _ => Keeps.pure _)

/-- The worker goes on, and if it exits it is with a failure. -/
def Failing (r : Option ExitCode) (w : WorkerState) : Prop := Running w ∧ r ≠ some .success

theorem connectionTurn_running (connected : Bool) :
    Triple (.keeping Disarmed Running) Running (connectionTurn args connected)
      (fun r w => r.elim (fun _ => Running w) (fun r => Failing r w)) := by
  refine Triple.ite (fun _ => Triple.bind pollFds_running fun r => ?_) fun _ =>
    Triple.pure fun _ h => ⟨h, nofun⟩
  cases r with
  | failed e => exact Triple.pure fun _ h => ⟨h.1, nofun⟩
  | timedOut =>
    exact Triple.bind (R := fun _ => Running) (Triple.modify fun _ h => h.1) fun _ =>
      Triple.pure fun _ h => ⟨h, nofun⟩
  | ready timer socket =>
    refine Triple.bind (R := fun _ w => Running w ∧ hasEvent timer POLLIN = false)
      (Triple.get.post fun w₀ w h => ⟨h.1.1, h.1.2 timer socket rfl⟩) fun w₀ => ?_
    -- the timer does not tick, so `running` stays as it is
    refine Triple.bind (R := fun _ => Running) ?_ fun _ =>
      Triple.bind (socketReady_running _) fun r => ?_
    · rintro w ans ⟨hw, htick⟩ hA
      have hwhen : ∀ m : WorkerProgram Unit, Prog.when (w₀.timerPolled = true ∧
          hasEvent timer POLLIN = true) m = Pure.pure () := fun m => if_neg (by simp [htick])
      rw [hwhen]
      exact ⟨hw, hA⟩
    · cases r with
      | none => exact Triple.pure fun _ h => ⟨h, nofun⟩
      | some connected => exact Triple.pure fun _ h => h

theorem attempt_running :
    Triple (.keeping Disarmed Running) Running (attempt args) Failing := by
  have hask : Triple (.keeping Disarmed Running) Running Prog.ask (fun _ => Running) := Keeps.ask
  refine Triple.bind hask fun x => Triple.ite (fun _ => Triple.pure fun _ h => ⟨h, nofun⟩) fun _ =>
    Triple.bind hask fun y => Triple.ite (fun _ => Triple.pure fun _ h => ⟨h, nofun⟩) fun _ => ?_
  exact Triple.bind (R := fun _ => Running) (Triple.modify fun _ h => h) fun _ =>
    Triple.iterate (I := fun _ => Running) (fun _ _ h => h) connectionTurn_running true

/-- Without a tick no attempt is the last one. -/
theorem workerProcess_running :
    Triple (.keeping Disarmed Running) Running (workerProcess args)
      (fun code _ => code = .failure) := by
  have hask : Triple (.keeping Disarmed Running) Running Prog.ask (fun _ => Running) := Keeps.ask
  refine Triple.bind hask fun x => Triple.ite (fun _ => Triple.pure fun _ _ => rfl) fun _ => ?_
  refine Triple.bind hask fun y => Triple.ite (fun _ => Triple.pure fun _ _ => rfl) fun _ => ?_
  refine Triple.iterate (I := fun _ => Running) (fun _ _ h => h) (fun _ => ?_) ()
  refine Triple.bind (R := fun w₀ w => Running w₀ ∧ Running w)
    (Triple.get.post fun _ _ h => ⟨h.2 ▸ h.1, h.1⟩) fun w₀ => Triple.assume fun hrunning => ?_
  refine Triple.ite (fun _ => ?_) fun hstop => absurd hrunning hstop
  refine Triple.bind (R := fun _ => Running) (Triple.modify fun _ h => h) fun _ =>
    Triple.bind attempt_running fun r => ?_
  cases r with
  | none => exact Triple.pure fun _ h => h.1
  | some code =>
    refine Triple.pure fun w h => ?_
    cases code with
    | success => exact absurd rfl h.2
    | failure => rfl

/-- A worker that exits with status 0 had a timer that could tick. -/
theorem EndsTimed.armed {r : Results} (h : EndsTimed args duration r 0) : duration ≠ 0 := by
  generalize hstatus : (0 : Int) = status at h
  cases h with
  | exited ans rest code w hrun htimer =>
    rintro rfl
    have hstart : Running .start := rfl
    obtain rfl := (workerProcess_running.done hstart htimer hrun).1
    cases hstatus
  | killed _ _ h => exact absurd hstatus.symm h

/-! ## The workers that were waited for -/

/-- Every worker that was waited for ended as the kernel said. -/
def EndedAs (R : ChildEnd args → Prop) (s : MainState args) : Prop :=
  ∀ i x, s.ended i = some x → R x

variable {R : ChildEnd args → Prop}

/-- An answer says that the worker ended so. -/
abbrev Says (R : ChildEnd args → Prop) (y : MainAnswer args) : Prop := R y.ending

theorem wait_ended : Keeps (Says R) (EndedAs R) wait := by
  refine Keeps.bind_ask fun x hx => Keeps.bind Keeps.get fun s => ?_
  dsimp only
  cases s.children[x.child % s.children.length]? with
  | none => exact Keeps.pure _
  | some c =>
    obtain ⟨i, pid⟩ := c
    refine Keeps.bind (Keeps.modify fun s h j y hy => ?_) fun _ => Keeps.pure _
    simp only [MainState.reap, Function.update_apply] at hy
    split at hy
    · exact Option.some.inj hy ▸ hx
    · exact h j y hy

theorem waitAll_ended : Keeps (Says R) (EndedAs R) waitAll := by
  refine Keeps.iterate (fun _ => Keeps.bind wait_ended fun r => ?_) ()
  obtain ⟨pid, status⟩ := r
  exact Keeps.ite (Keeps.bind (Keeps.modify fun _ h => h) fun _ => Keeps.pure _) (Keeps.pure _)

theorem spawnTesters_ended : ∀ k i : Nat, Keeps (Says R) (EndedAs R) (spawnTesters k i)
  | 0, _ => Keeps.pure ()
  | k + 1, i => by
    refine Keeps.bind (Keeps.bind Keeps.ask fun x => ?_) fun _ => spawnTesters_ended k (i + 1)
    cases x.fork with
    | none => exact Keeps.pure ()
    | some want => exact Keeps.modify fun _ h => h

/-- What `main` reports is the sum over at least one worker. -/
theorem testerMain_ended :
    Triple (.keeping (Says R) (EndedAs R)) (EndedAs R) testerMain
      (fun r s => EndedAs R s ∧ ∀ report, r = some report → report.successes ≠ 0) := by
  have hnone : ∀ {P : MainState args → Prop}, (∀ s, P s → EndedAs R s) →
      Triple (.keeping (Says R) (EndedAs R)) P (Pure.pure none : MainProgram args (Option Report))
        (fun r s => EndedAs R s ∧ ∀ report, r = some report → report.successes ≠ 0) :=
    fun hP => Triple.pure fun s h => ⟨hP s h, nofun⟩
  refine Triple.bind (R := fun _ => EndedAs R) (Keeps.bind Keeps.ask fun x => ?_) fun ok =>
    Triple.ite (fun _ => ?_) fun _ => hnone fun _ h => h
  · cases (scalloc args.numWorkers.toUInt64 SIZEOF_WORKER_T x.mmap ⟨[], fun _ => 0⟩).2 with
    | error e => exact Keeps.pure _
    | ok p => exact Keeps.bind (Keeps.modify fun _ h => h) fun _ => Keeps.pure _
  refine Triple.bind (spawnTesters_ended _ _) fun _ => Triple.bind (R := fun _ => EndedAs R)
    Keeps.get fun s => Triple.ite (fun _ => hnone fun _ h => h) fun _ => ?_
  refine Triple.bind waitAll_ended fun _ => Triple.bind (R := fun _ => EndedAs R) Keeps.get
    fun s => Triple.ite (fun _ => hnone fun _ h => h) fun hsuccesses => ?_
  exact Triple.pure fun _ h => ⟨h, fun report hr => Option.some.inj hr ▸ hsuccesses⟩

/-! ## The rates -/

/-- There is a report only if a worker exited with status 0. -/
theorem Reported.worker {report : Report} (h : Reported report s) (hne : report.successes ≠ 0) :
    ∃ i x, s.ended i = some x ∧ x.status = 0 := by
  have hnonempty : s.successful ≠ [] := fun hnil => hne (by rw [h.successes, hnil]; rfl)
  obtain ⟨r, hr⟩ := List.exists_mem_of_ne_nil _ hnonempty
  obtain ⟨i, -, hi⟩ := List.mem_filterMap.mp hr
  obtain ⟨x, hx, hcounted⟩ := Option.bind_eq_some_iff.mp hi
  refine ⟨i, x, hx, ?_⟩
  unfold ChildEnd.counted at hcounted
  split at hcounted
  · assumption
  · cases hcounted

/-- A quotient in whole numbers. -/
theorem perSecond_run {total : UInt64} (hduration : duration ≠ 0) (s : MainState args)
    (ans : List (MainAnswer args)) :
    perSecond total duration s ans = .done (total / duration.toUInt64) s ans :=
  Prog.step_done (f := fun s => if duration = 0 then none else some (s, total / duration.toUInt64))
    (if_neg hduration) ans

/-- **No rate is a quotient by 0.** However the workers end whose timers
are set to the duration, `main` does not divide by 0, and returns with or
without a report; if it reports, the duration is not 0, the totals are
those of the workers that exited successfully, and the rates are the
totals divided by the duration, rounded down. -/
theorem rates_defined (duration : UInt32) {ans : List (MainAnswer args)}
    (htimers : ∀ y ∈ ans, y.ending.Timed duration) :
    benchmark duration (.start args) ans ≠ .fault ∧
    ∀ printed s rest, benchmark duration (.start args) ans = .done (some printed) s rest →
      duration ≠ 0 ∧ Reported printed.report s ∧ printed.report.successes ≠ 0 ∧
      printed.attemptRate.toNat = printed.report.results.total.toNat / duration.toNat ∧
      printed.successRate.toNat = printed.report.results.successful.toNat / duration.toNat := by
  let R : ChildEnd args → Prop := ChildEnd.Timed duration
  have hkeeps : Triple (.keeping (Says R) (EndedAs R)) (EndedAs R) testerMain _ := testerMain_ended
  have hstart : EndedAs R (.start args) := nofun
  have hmain := testerMain_triple (.start args) ans (⟨rfl, rfl⟩ : Bare (.start args))
    fun _ _ => trivial
  cases hrun : testerMain (.start args) ans with
  | fault => rw [hrun] at hmain; exact hmain.elim
  | stopped s =>
    have hstop : benchmark duration (.start args) ans = .stopped s := by
      rw [benchmark, Prog.bind_run, hrun]
    rw [hstop]
    exact ⟨nofun, nofun⟩
  | done r s rest =>
    cases r with
    | none =>
      have hnone : benchmark duration (.start args) ans = .done none s rest := by
        rw [benchmark, Prog.bind_run, hrun]
        rfl
      rw [hnone]
      exact ⟨nofun, nofun⟩
    | some report =>
      rw [hrun] at hmain
      have hreported := hmain.1 report rfl
      obtain ⟨⟨hended, hsuccesses⟩, -⟩ := hkeeps.done hstart htimers hrun
      obtain ⟨i, x, hx, hstatus⟩ := hreported.worker (hsuccesses report rfl)
      have hends : EndsTimed args duration x.results x.status := hended i x hx
      have harmed : duration ≠ 0 := EndsTimed.armed (hstatus ▸ hends)
      have hdone : benchmark duration (.start args) ans = .done (some ⟨report,
          report.results.total / duration.toUInt64,
          report.results.successful / duration.toUInt64⟩) s rest := by
        rw [benchmark, Prog.bind_done hrun]
        simp only [Prog.bind_run, perSecond_run harmed]
        rfl
      rw [hdone]
      refine ⟨nofun, ?_⟩
      rintro _ _ _ ⟨⟩
      exact ⟨harmed, hreported, hsuccesses report rfl, by simp, by simp⟩

/-- A worker makes one attempt while the timer ticks, in a test of two
seconds. -/
theorem rates_defined_once : ∃ s rest,
    benchmark 2 (.start twoWorkers) oneOfTwo = .done (some ⟨⟨⟨1, 1, 0, 0⟩, 1⟩, 0, 0⟩) s rest ∧
      Reported ⟨⟨1, 1, 0, 0⟩, 1⟩ s := by
  have hends : EndsTimed twoWorkers 2 attemptedOnce.results (exitStatus .success) :=
    .exited _ _ _ _ oneAttempt_run fun _ _ _ _ _ _ => by decide
  have htimers : ∀ y ∈ oneOfTwo, y.ending.Timed 2 := by
    simp [oneOfTwo, ChildEnd.Timed, hends]
  have hrun : ∃ s rest, benchmark 2 (.start twoWorkers) oneOfTwo
      = .done (some ⟨⟨⟨1, 1, 0, 0⟩, 1⟩, 0, 0⟩) s rest := ⟨_, _, rfl⟩
  obtain ⟨s, rest, hrun⟩ := hrun
  exact ⟨s, rest, hrun, ((rates_defined 2 htimers).2 _ s rest hrun).2.1⟩

/-! ## The arguments -/

/-- Each option sets a field of its own and looks at no other, and the
report has every option once. -/
theorem argpParseOptions_restores : Restores argpParseOptions Options.report where
  apart := by
    intro k k' hne v v' o
    cases k <;> cases k' <;> first | rfl | exact absurd rfl hne
  once o := by simp [Options.report]
  back o o' := by
    simp only [Options.report, runCalls_cons, runCalls_nil, argpParseOptions, scanInto_decimal,
      storeUInt_toNat, storeUShort_toNat, storeInt_toUInt32]

/-- What gophertester reports of its arguments are options for the same
test, in any order. A negative timeout is among them: it is printed as if
it had no sign, and `%i` brings the sign back. -/
theorem report_repeats (o : Options) {options : List (ArgKey × Bytes)}
    (hp : options.Perm o.report) : argpParse options = o :=
  argpParseOptions_restores.run_eq hp .default

/-- A test that waits for as long as it takes. -/
theorem report_repeats_unlimited :
    argpParse ({ Options.default with timeout := -1 }).report.reverse
      = { Options.default with timeout := -1 } :=
  report_repeats _ (List.reverse_perm _)

end Sgopher.Tester
