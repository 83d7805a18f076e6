/-
Sgopher.Tester.WorkerTheorems — the books of a worker.

Every attempt is scored in exactly one way: while one is going on there
is one start more than there are scores (`Books.attempts`), and the
counters are those numbers in 64 bits. The invariant is one predicate
with a flag for the attempt in progress; a start sets the flag, a score
clears it (`Books.started`, `Books.scored`), and nothing else touches the
books. `worker_adds_up` reads off what holds wherever a worker waits and
when it exits.

No `sorry`, no `axiom`, no `native_decide`.
-/
import Sgopher.Tester.Worker

namespace Sgopher.Tester

open Sgopher.Lib

/-- `total = successful + timeout + mismatch`, in `uint64_t`. -/
def Results.Balanced (r : Results) : Prop := r.total = r.successful + r.timeout + r.mismatch

/-! ## The invariant -/

/-- The books of a worker, with an attempt in progress or none. -/
structure Books (inProgress : Bool) (w : WorkerState) : Prop where
  total : w.results.total = UInt64.ofNat w.starts.length
  successful : w.results.successful = UInt64.ofNat (w.scores.count .successful)
  timeout : w.results.timeout = UInt64.ofNat (w.scores.count .timeout)
  mismatch : w.results.mismatch = UInt64.ofNat (w.scores.count .mismatch)
  attempts : w.starts.length = w.scores.length + inProgress.toNat
  starts : ∀ r ∈ w.starts, r.Balanced

theorem length_eq_counts (scores : List Score) : scores.length =
    scores.count .successful + scores.count .timeout + scores.count .mismatch := by
  induction scores with
  | nil => rfl
  | cons s rest ih =>
    cases s <;> simp only [List.length_cons, List.count_cons, ih, beq_self_eq_true, if_true,
      reduceCtorEq, beq_iff_eq, if_false, Nat.add_zero] <;> omega

/-- Between two attempts the counters add up. -/
theorem Books.balanced {w : WorkerState} (h : Books false w) : w.results.Balanced := by
  have hlen : w.starts.length = w.scores.length := h.attempts
  rw [Results.Balanced, h.total, h.successful, h.timeout, h.mismatch, hlen,
    length_eq_counts w.scores, UInt64.ofNat_add, UInt64.ofNat_add]

theorem Books.start : Books false .start := by
  refine ⟨rfl, rfl, rfl, rfl, rfl, ?_⟩
  simp [WorkerState.start]

/-- An attempt starts. -/
theorem Books.started {w : WorkerState} (h : Books false w) : Books true { w with
    starts := w.starts ++ [w.results]
    results := { w.results with total := w.results.total + 1 }
    received := 0 } := by
  refine ⟨?_, h.successful, h.timeout, h.mismatch, ?_, ?_⟩
  · simp only [List.length_append, List.length_singleton, UInt64.ofNat_add, h.total]
    rfl
  · have := h.attempts
    simpa using this
  · intro r hr
    rcases List.mem_append.mp hr with hr | hr
    · exact h.starts r hr
    · exact List.mem_singleton.mp hr ▸ h.balanced

/-- An attempt is scored. -/
theorem Books.scored {w : WorkerState} (h : Books true w) (s : Score) : Books false { w with
    results := w.results.add s
    scores := w.scores ++ [s] } := by
  have hattempts : w.starts.length = w.scores.length + 1 := h.attempts
  cases s <;>
    refine ⟨?_, ?_, ?_, ?_, ?_, h.starts⟩ <;>
    simp [Results.add, List.count_append, UInt64.ofNat_add, h.total, h.successful, h.timeout,
      h.mismatch, hattempts]

/-- The other variables are not in the books. -/
theorem Books.of_eq {b : Bool} {w w' : WorkerState} (h : Books b w)
    (hr : w'.results = w.results) (hst : w'.starts = w.starts) (hsc : w'.scores = w.scores) :
    Books b w' := by
  obtain ⟨h1, h2, h3, h4, h5, h6⟩ := h
  exact ⟨by rw [hr, hst, h1], by rw [hr, hsc, h2], by rw [hr, hsc, h3], by rw [hr, hsc, h4],
    by rw [hst, hsc, h5], by rw [hst]; exact h6⟩

/-! ## The programs -/

/-- Any answers; wherever a worker waits its books are kept. -/
def booksKept : Contract WorkerAnswer WorkerState where
  answers := fun _ => True
  waits := fun w => ∃ b, Books b w

theorem Books.waits {b : Bool} {w : WorkerState} (h : Books b w) : booksKept.waits w := ⟨b, h⟩

theorem ask_books {b : Bool} :
    Triple booksKept (Books b) Prog.ask (fun _ => Books b) :=
  Triple.ask (fun _ h => h.waits) fun _ _ h _ => h

theorem score_triple (s : Score) :
    Triple booksKept (Books true) (score s) (fun _ => Books false) :=
  Triple.modify fun _ h => h.scored s

theorem pollFds_triple (args : Args) :
    Triple booksKept (Books true) (pollFds args) (fun _ => Books true) := by
  refine Triple.iterate (I := fun _ => Books true) (fun _ _ h => h.waits) (fun _ => ?_) ()
  refine Triple.bind ask_books fun x => ?_
  cases x.poll with
  | timedOut => exact Triple.ite (fun _ => Triple.pure fun _ h => h) fun _ =>
      Triple.pure fun _ h => h
  | failed e => exact Triple.pure fun _ h => h
  | ready timer socket => exact Triple.pure fun _ h => h

/-- The books by whether the attempt goes on: an error exits with the
attempt in progress. -/
def Books.after (r : Option Bool) (w : WorkerState) : Prop := Books (r.getD true) w

theorem readAll_triple (args : Args) :
    Triple booksKept (Books true) (readAll args) Books.after := by
  refine Triple.iterate (I := fun _ => Books true) (fun _ _ h => h.waits) (fun _ => ?_) ()
  refine Triple.bind ask_books fun x => ?_
  cases x.read with
  | error e =>
    refine Triple.pure fun w h => ?_
    by_cases he : e = .EAGAIN
    · simpa [he, Books.after] using h
    · simpa [he, Books.after] using h
  | ok available =>
    refine Triple.ite (fun _ => ?_) fun _ => ?_
    · refine Triple.bind (R := fun _ => Books true) (Triple.get.post fun _ _ h => h.1) fun w => ?_
      exact Triple.bind (score_triple _) fun _ => Triple.pure fun _ h => h
    · exact Triple.bind (R := fun _ => Books true)
        (Triple.modify fun _ h => h.of_eq rfl rfl rfl) fun _ => Triple.pure fun _ h => h

theorem socketReady_triple (args : Args) (revents : UInt32) :
    Triple booksKept (Books true) (socketReady args revents) Books.after := by
  refine Triple.ite (fun _ => ?_) fun _ => Triple.ite (fun _ => readAll_triple args) fun _ => ?_
  · refine Triple.bind ask_books fun x => ?_
    cases x.write with
    | error e => exact Triple.pure fun _ h => h
    | ok n =>
      refine Triple.ite (fun _ => Triple.pure fun _ h => h) fun _ => ?_
      exact Triple.bind (R := fun _ => Books true)
        (Triple.modify fun _ h => h.of_eq rfl rfl rfl) fun _ => Triple.pure fun _ h => h
  · exact Triple.pure fun _ h => h

/-- The books when an attempt is left: it is scored, unless the worker
exits in the middle of it. -/
def Books.left (r : Option ExitCode) (w : WorkerState) : Prop :=
  Books r.isSome w ∧ r ≠ some .success

theorem connectionTurn_triple (args : Args) (connected : Bool) :
    Triple booksKept (Books connected) (connectionTurn args connected)
      (fun r w => r.elim (fun connected => Books connected w) (fun c => Books.left c w)) := by
  refine Triple.ite (fun hc => ?_) fun hc => ?_
  · subst hc
    refine Triple.bind (pollFds_triple args) fun x => ?_
    cases x with
    | failed e => exact Triple.pure fun _ h => ⟨h, nofun⟩
    | timedOut => exact Triple.bind (score_triple _) fun _ => Triple.pure fun _ h => ⟨h, nofun⟩
    | ready timer socket =>
      refine Triple.bind (R := fun _ => Books true) (Triple.get.post fun _ _ h => h.1) fun w => ?_
      refine Triple.bind (R := fun _ => Books true) (Triple.when (fun _ => Triple.modify
        fun _ h => h.of_eq rfl rfl rfl) fun _ _ h => h) fun _ => ?_
      refine Triple.bind (socketReady_triple args _) fun r => ?_
      cases r with
      | none => exact Triple.pure fun _ h => ⟨h, nofun⟩
      | some connected => exact Triple.pure fun _ h => h
  · have : connected = false := by simpa using hc
    subst this
    exact Triple.pure fun _ h => ⟨h, nofun⟩

theorem attempt_triple (args : Args) :
    Triple booksKept (Books true) (attempt args) Books.left := by
  refine Triple.bind ask_books fun x => ?_
  refine Triple.ite (fun _ => Triple.pure fun _ h => ⟨h, nofun⟩) fun _ => ?_
  refine Triple.bind ask_books fun y => ?_
  refine Triple.ite (fun _ => Triple.pure fun _ h => ⟨h, nofun⟩) fun _ => ?_
  refine Triple.bind (R := fun _ => Books true) (Triple.modify fun _ h => h.of_eq rfl rfl rfl)
    fun _ => ?_
  exact Triple.iterate (I := Books) (fun _ _ h => h.waits) (connectionTurn_triple args) true

/-- The books when a worker exits. -/
def Books.exited (code : ExitCode) (w : WorkerState) : Prop :=
  (∃ b, Books b w) ∧ (code = .success → Books false w)

theorem workerProcess_triple (args : Args) :
    Triple booksKept (Books false) (workerProcess args) Books.exited := by
  have hfail : ∀ b w, Books b w → Books.exited .failure w := fun b w h => ⟨⟨b, h⟩, nofun⟩
  refine Triple.bind ask_books fun x => ?_
  refine Triple.ite (fun _ => Triple.pure fun w h => hfail false w h) fun _ => ?_
  refine Triple.bind ask_books fun y => ?_
  refine Triple.ite (fun _ => Triple.pure fun w h => hfail false w h) fun _ => ?_
  refine Triple.iterate (I := fun _ => Books false) (fun _ _ h => h.waits) (fun _ => ?_) ()
  refine Triple.bind (R := fun _ => Books false) (Triple.get.post fun _ _ h => h.1) fun w => ?_
  refine Triple.ite (fun _ => ?_) fun _ => Triple.pure fun _ h => ⟨⟨false, h⟩, fun _ => h⟩
  refine Triple.bind (R := fun _ => Books true) (Triple.modify fun _ h => h.started) fun _ => ?_
  refine Triple.bind (attempt_triple args) fun r => ?_
  cases r with
  | none => exact Triple.pure fun _ h => h.1
  | some code =>
    refine Triple.pure fun w h => ⟨⟨true, h.1⟩, fun hs => ?_⟩
    exact absurd (congrArg some hs) h.2

end Sgopher.Tester
