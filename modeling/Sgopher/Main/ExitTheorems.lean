/-
Sgopher.Main.ExitTheorems — how the supervisor leaves its workers.

On a failure `supervisor_cleanup` kills every worker whose exit was not
handled, and it kills no other: a descriptor it sends SIGKILL to is that
of the worker in whose record it found it (`killWorkers_logged`). On
success it kills nobody. `main_ends` reads the ledger of the whole run
with what the clean-up adds to it.

No `sorry`, no `axiom`, no `native_decide`.
-/
import Sgopher.Main.StopTheorems
import Sgopher.Main.WakeTheorems

namespace Sgopher.Main

open Sgopher.Lib Sgopher.Sepoll Prog

variable {w : World} {s : Supervisor} {i j : Nat} {log lg : List Event} {L : List Nat}
  {woken : Prop} {n : UInt32} {A : Answer → Prop}

/-! ## The signals -/

/-- The signals workers are killed by. -/
def killed (L : List Nat) : List Event := L.map fun i => .signal i SIGKILL

/-- A process with that log. -/
abbrev Logs (lg : List Event) : World → Prop := Beside fun p => p.log = lg

/-- A SIGTERM is sent to a worker only when one was received. -/
def TermFirst (lg : List Event) : Prop := ∀ i, .signal i SIGTERM ∈ lg → .term ∈ lg

theorem Logged.termFirst (h : Logged L lg) : TermFirst lg := by
  induction h with
  | nil => exact nofun
  | forked j h hj ih => exact fun i hi => List.mem_append_left _ (ih i (by simpa using hi))
  | term h ih => exact fun i hi => List.mem_append_right _ List.mem_cons_self
  | @handled L lg j h hj ih =>
    refine fun i hi => List.mem_append_left _ (ih i ?_)
    have hnone : .signal i SIGTERM ∉ exitCall (L.erase j) := by
      unfold exitCall
      split <;> simp
    simpa [hnone] using hi

theorem Books.termFirst {more : List Nat} (h : Books n more w) : TermFirst w.own.log := fun i hi =>
  (List.mem_append.mp (h.log.termFirst i (List.mem_append_left _ hi))).resolve_right
    (by simp [passedOn])

theorem TermFirst.kill (h : TermFirst lg) (i : Nat) : TermFirst (lg ++ [.signal i SIGKILL]) :=
  fun j hj => List.mem_append_left _ (h j (by simpa [SIGKILL, SIGTERM] using hj))

/-- The contract under which the log is read; that the clean-up does not
fault is shown elsewhere. -/
def logContract (A : Answer → Prop) : Contract Answer World :=
  .keeping A (Beside fun p => TermFirst p.log)

/-- What is logged, and that the descriptors in the records from number
`i` on stand for the workers of those numbers. -/
def Doomed (i : Nat) (ws : List Worker) (lg : List Event) (w : World) : Prop :=
  Logs lg w ∧ ∀ j k o, ws[j]? = some k → 0 ≤ k.pidfd → w.own.fds.object k.pidfd = some o →
    o = .worker (i + j)

theorem Doomed.tail {k : Worker} {ws : List Worker} (h : Doomed i (k :: ws) lg w) :
    Doomed (i + 1) ws lg w :=
  ⟨h.1, fun j k' o hk h0 ho => (h.2 (j + 1) k' o hk h0 ho).trans (by congr 1; omega)⟩

theorem killWorkers_logged : ∀ (i : Nat) (ws : List Worker) (lg : List Event), TermFirst lg →
    Triple (logContract A) (Doomed i ws lg) (signalWorkers SIGKILL true ws)
      (fun _ => Logs (lg ++ killed (actives i ws)))
  | i, [], lg, _ => Triple.pure fun w h => h.1.trans (List.append_nil lg).symm
  | i, k :: ws, lg, hlg => by
    by_cases h0 : 0 ≤ k.pidfd
    · have hkilled : lg ++ killed (actives i (k :: ws)) =
          (lg ++ [.signal i SIGKILL]) ++ killed (actives (i + 1) ws) := by
        rw [actives, if_pos h0, List.append_assoc]
        rfl
      rw [hkilled, signalWorkers, signalWorker, Prog.when, if_pos h0]
      refine Triple.bind (R := fun _ => Doomed (i + 1) ws (lg ++ [.signal i SIGKILL])) ?_ fun _ =>
        killWorkers_logged (i + 1) ws _ (hlg.kill i)
      refine Triple.bind (R := fun _ => Doomed (i + 1) ws (lg ++ [.signal i SIGKILL])) ?_
        fun _ => ?_
      · refine Triple.bind (R := fun o w => o = .worker i ∧ Doomed (i + 1) ws lg w)
          (Triple.step_map trivial fun w o h ho => ⟨h.2 0 k o rfl h0 ho, h.tail⟩) fun o =>
          Triple.assume fun ho => ?_
        subst ho
        refine Triple.bind (R := fun _ => Doomed (i + 1) ws (lg ++ [.signal i SIGKILL]))
          (Triple.modify fun w h => ⟨congrArg (· ++ [Event.signal i SIGKILL]) h.1, h.2⟩) fun _ => ?_
        have hwaits : ∀ w, Doomed (i + 1) ws (lg ++ [.signal i SIGKILL]) w →
            TermFirst w.own.log := fun w h => by
          rw [h.1]
          exact hlg.kill i
        exact Triple.bind (Triple.ask hwaits fun _ _ h _ => h) fun _ => Triple.pure fun _ h => h
      · refine Triple.when (fun _ => Triple.step_map trivial fun w fds h hc => ?_) fun _ _ h => h
        exact ⟨h.1, fun j k' o hk h0' ho => h.2 j k' o hk h0' (Heap.closeFd_object hc ho)⟩
    · rw [actives, if_neg h0, signalWorkers, signalWorker, Prog.when, if_neg h0]
      exact Triple.bind (Triple.pure fun _ h => h.tail) fun _ =>
        killWorkers_logged (i + 1) ws lg hlg

/-! ## The clean-up -/

theorem supervisorCleanup_logged (code : ExitStatus) (ws : List Worker) (hlg : TermFirst lg) :
    Triple (logContract A)
      (fun w => Doomed 0 ws lg w ∧ w.own.supervisor.workers = ws) (supervisorCleanup code)
      (fun _ => Logs (lg ++ if code = .failure then killed (actives 0 ws) else [])) := by
  refine Triple.bind (R := fun _ => Logs (lg ++ if code = .failure then killed (actives 0 ws)
    else [])) (Triple.when (fun hcode => ?_) fun hcode w h => ?_) fun _ => ?_
  · rw [if_pos hcode]
    refine Triple.bind (R := fun s w => s.workers = ws ∧ Doomed 0 ws lg w)
      (Triple.bind Triple.get fun _ => Triple.pure fun w h => ⟨h.2 ▸ h.1.2, h.1.1⟩) fun s =>
      Triple.assume fun hs => ?_
    rw [hs]
    exact killWorkers_logged 0 ws lg hlg
  · rw [if_neg hcode, List.append_nil]
    exact h.1.1
  generalize (lg ++ if code = .failure then killed (actives 0 ws) else []) = lg'
  have hclose : ∀ fd, Triple (logContract A) (Logs lg') (closeFd fd)
      (fun _ => Logs lg') := fun fd => Triple.step_map trivial fun _ _ h _ => h
  refine Triple.bind (R := fun _ => Logs lg') (Triple.modify fun _ h => h) fun _ => ?_
  refine Triple.bind (R := fun _ => Logs lg')
    (Triple.bind Triple.get fun _ => Triple.pure fun _ h => h.1) fun s => ?_
  refine Triple.bind (Triple.when (fun _ => hclose _) fun _ _ h => h) fun _ => ?_
  cases s.loop with
  | none => exact Triple.pure fun _ h => h
  | some epollfd => exact Triple.bind (Triple.step_map trivial fun _ _ h _ => h) fun _ => hclose _

/-- The ledger of the whole run: what is logged by the rule leaves the
workers `L`, and on a failure these are killed. -/
def Closed (code : ExitStatus) (L : List Nat) (log : List Event) : Prop :=
  ∃ lg, Logged L lg ∧ log = lg ++ if code = .failure then killed L else []

theorem main_logged (hroom : woken → loopSize n ≠ some 0) :
    Triple (logContract (contract woken n).answers) (fun w => w = started) (main n)
      (fun code w => ∃ L, Closed code L w.own.log ∧ (code = .success → woken → L = [])) := by
  refine Triple.bind ((mainUntilExit_triple hroom).weaken rfl (fun _ ⟨_, _, h⟩ => h.termFirst)
    fun _ => trivial) fun exit => ?_
  refine Triple.bind (R := fun _ w => ∃ L, Closed exit.code L w.own.log ∧
    (exit.code = .success → woken → L = [])) (Triple.when (fun hexit => ?_) fun hexit w h => ?_)
    fun _ => Triple.pure fun w h => h
  · rintro w ans h hA
    rw [if_pos hexit] at h
    have hlog := h.books.log
    rw [passedOn, List.map_nil, List.append_nil] at hlog
    refine ((supervisorCleanup_logged exit.code w.own.supervisor.workers
      h.books.termFirst).post fun _ w' h' =>
      ⟨_, ⟨_, hlog, h'⟩, fun hs hw => h.books.none_iff.mp (h.success hs hw)⟩) w ans
      ⟨⟨rfl, fun j k o hk h0 ho => ?_⟩, rfl⟩ hA
    rw [Nat.zero_add]
    exact Option.some.inj (ho.symm.trans (h.books.objects j k hk h0))
  · rw [if_neg hexit] at h
    obtain ⟨hcode, rfl⟩ := h
    refine ⟨[], ⟨[], .nil, ?_⟩, fun hs => ?_⟩
    · rw [hcode]
      rfl
    · rw [hcode] at hs
      cases hs

theorem Closed.termFirst {code : ExitStatus} (h : Closed code L log) : TermFirst log := by
  obtain ⟨lg, hlogged, rfl⟩ := h
  intro i hi
  refine List.mem_append_left _ (hlogged.termFirst i ((List.mem_append.mp hi).resolve_right ?_))
  split <;> simp [killed, SIGKILL, SIGTERM]

/-- Wherever the supervisor gets to, it has sent no SIGTERM unless it has
read one. -/
theorem main_termFirst (n : UInt32) (ans : List Answer) :
    (main n started ans).Always fun w => TermFirst w.own.log := by
  have htriple : Triple (logContract (contract False n).answers) _ (main n) _ :=
    main_logged False.elim
  exact (htriple started ans rfl fun _ _ h => h.elim).always (fun w h => h)
    fun code w ⟨L, h, _⟩ => h.termFirst

/-! ## Reading the ledger -/

theorem Logged.no_kill (h : Logged L lg) (i : Nat) : lg.count (.signal i SIGKILL) = 0 := by
  induction h with
  | nil => rfl
  | forked j h hj ih => simp [ih]
  | @term L lg h ih =>
    have hnone : .signal i SIGKILL ∉ passedOn L := by simp [passedOn, SIGKILL, SIGTERM]
    simp [ih, List.count_eq_zero.mpr hnone]
  | @handled L lg j h hj ih =>
    have hnone : .signal i SIGKILL ∉ exitCall (L.erase j) := by
      unfold exitCall
      split <;> simp
    simp [ih, List.count_eq_zero.mpr hnone]

theorem count_killed (L : List Nat) (i : Nat) :
    (killed L).count (.signal i SIGKILL) = L.count i := by
  induction L with
  | nil => rfl
  | cons j L ih =>
    have hne : (Event.signal j SIGKILL == .signal i SIGKILL) = (j == i) := by
      rw [Bool.eq_iff_iff]
      simp
    rw [killed, List.map_cons, List.count_cons, List.count_cons, hne]
    exact congrArg (· + _) ih

theorem count_killed_of_ne {e : Event} (he : ∀ i, e ≠ .signal i SIGKILL) (L : List Nat) :
    (killed L).count e = 0 :=
  List.count_eq_zero.mpr fun hm => by
    obtain ⟨i, -, hi⟩ := List.mem_map.mp hm
    exact he i hi.symm

/-- Every worker that was forked was handled, or is killed if the
supervisor fails, or is left. -/
theorem Closed.account {code : ExitStatus} (h : Closed code L log) (i : Nat) :
    log.count (.forked i) = log.count (.handled i) + L.count i ∧
      log.count (.signal i SIGKILL) = if code = .failure then L.count i else 0 := by
  obtain ⟨lg, hlogged, rfl⟩ := h
  have haccount := hlogged.account i
  have hkill := hlogged.no_kill i
  split
  · simp only [List.count_append, count_killed_of_ne (e := .forked i) nofun,
      count_killed_of_ne (e := .handled i) nofun, count_killed, hkill]
    omega
  · simp only [List.append_nil]
    exact ⟨haccount, hkill⟩

/-- What the supervisor did for its workers by the time it exits. -/
theorem main_accounts {n : UInt32} {ans : List Answer} {code : ExitStatus} {w : World}
    {rest : List Answer} (hrun : main n started ans = .done code w rest) :
    (code = .failure → ∀ i, w.own.log.count (.forked i) =
      w.own.log.count (.handled i) + w.own.log.count (.signal i SIGKILL)) ∧
    (code = .success → ∀ i, .signal i SIGKILL ∉ w.own.log) ∧
    (code = .success → loopSize n ≠ some 0 → WaitsSucceed ans →
      ∀ i, w.own.log.count (.forked i) = w.own.log.count (.handled i)) := by
  have hfree : Triple (logContract (contract False n).answers) _ (main n) _ :=
    main_logged False.elim
  obtain ⟨L, hclosed, -⟩ := (hfree.done rfl (fun _ _ h => h.elim) hrun).1
  refine ⟨?_, ?_, ?_⟩
  · rintro rfl i
    obtain ⟨hforked, hkilled⟩ := hclosed.account i
    rw [if_pos rfl] at hkilled
    omega
  · rintro rfl i
    exact List.count_eq_zero.mp (hclosed.account i).2
  · rintro rfl hroom hwaits i
    have hanswers : ∀ y ∈ ans, (contract True n).answers y := fun y hy _ => hwaits y hy
    obtain ⟨L, hclosed, hnone⟩ := ((main_logged fun _ => hroom).done rfl hanswers hrun).1
    obtain ⟨hforked, -⟩ := hclosed.account i
    rw [hnone rfl trivial, List.count_nil] at hforked
    exact hforked

/-- **How the supervisor ends.** The only run that faults is the one in
which the size of the event loop overflows. If it fails, nothing is left
open, and each worker it forked was handled or was sent one SIGKILL, not
both. If it succeeds it killed nobody; and if besides no wait failed and
the event loop has room, every worker was handled, and nothing is left
open. -/
theorem main_ends (n : UInt32) (ans : List Answer) :
    (main n started ans ≠ .fault ∨ loopSize n = none) ∧
    ∀ code w rest, main n started ans = .done code w rest →
      (code = .failure → w.own.fds.openFds = [] ∧ ∀ i, w.own.log.count (.forked i) =
        w.own.log.count (.handled i) + w.own.log.count (.signal i SIGKILL)) ∧
      (code = .success → ∀ i, .signal i SIGKILL ∉ w.own.log) ∧
      (code = .success → loopSize n ≠ some 0 → WaitsSucceed ans → w.own.fds.openFds = [] ∧
        ∀ i, w.own.log.count (.forked i) = w.own.log.count (.handled i)) := by
  have hfree : Triple (runContract False n) _ (main n) _ := main_triple False.elim
  have hanswers : ∀ y ∈ ans, (contract False n).answers y := fun _ _ h => h.elim
  refine ⟨?_, fun code w rest hrun => ?_⟩
  · by_cases hsize : loopSize n = none
    · exact Or.inr hsize
    · exact Or.inl (hfree.not_fault rfl hanswers hsize)
  obtain ⟨hfailed, hnobody, hsucceeded⟩ := main_accounts hrun
  refine ⟨fun hcode => ⟨?_, hfailed hcode⟩, hnobody, fun hcode hroom hwaits =>
    ⟨?_, hsucceeded hcode hroom hwaits⟩⟩
  · exact (hfree.done rfl hanswers hrun).1.2 (Or.inl hcode)
  · have hanswers' : ∀ y ∈ ans, (contract True n).answers y := fun y hy _ => hwaits y hy
    exact ((main_triple fun _ => hroom).done rfl hanswers' hrun).1.2 (Or.inr trivial)

/-- The one worker of a supervisor exits, and nothing is left. -/
theorem main_ends_exited :
    ∃ w rest, main 1 started exitedOne = .done .success w rest ∧ w.own.fds.openFds = [] ∧
      w.own.log.count (.forked 0) = w.own.log.count (.handled 0) := by
  have h : (main 1 started exitedOne).Returns fun code _ => code = .success := by decide +kernel
  obtain ⟨code, w, rest, hrun, rfl⟩ := h.state
  have hwaits : WaitsSucceed exitedOne := by
    simp [WaitsSucceed, exitedOne, spawnedOne, succeeds, LoopAnswers.answer]
  obtain ⟨-, -, hsucceeded⟩ := (main_ends 1 exitedOne).2 _ w rest hrun
  obtain ⟨hclosed, hcount⟩ := hsucceeded rfl (by decide) hwaits
  exact ⟨w, rest, hrun, hclosed, hcount 0⟩

end Sgopher.Main
