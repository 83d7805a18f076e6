/-
Sgopher.Main.LedgerTheorems — the supervisor keeps its books.

`BooksKept` puts the supervisor's books in the terms of its own fields:
the counter, the workers' slots, the descriptors in them, and the log,
which is one that the rule of `Sgopher.Main.Ledger` allows. `supervisor_kept`
says that this holds wherever the supervisor calls the system, so after
each fork and between any two callbacks, whichever forks fail and in
whatever order exits and signals arrive.

No `sorry`, no `axiom`, no `native_decide`.
-/
import Sgopher.Main.MainTheorems

namespace Sgopher.Main

open Sgopher.Lib Sgopher.Sepoll

/-- The supervisor's books: the counter counts the slots that hold a
descriptor, each of which is open and stands for the worker of the slot;
the log is one that the rule allows and leaves exactly these workers, but
for signals that are still to be sent; no exit is handled twice; and
`sepoll_exit` was called if no worker is left of those there were. -/
structure BooksKept (w : World) : Prop where
  active : w.own.supervisor.activeWorkers.toNat =
    w.own.supervisor.workers.countP (fun k => k.pidfd ≠ -1)
  objects : ∀ i k, w.own.supervisor.workers[i]? = some k → k.pidfd ≠ -1 →
    w.own.fds.object k.pidfd = some (.worker i)
  log : ∃ A more, Logged A (w.own.log ++ passedOn more) ∧
    ∀ i, i ∈ A ↔ ∃ k, w.own.supervisor.workers[i]? = some k ∧ k.pidfd ≠ -1
  once : ∀ i, w.own.log.count (.handled i) ≤ 1
  exit : .exitLoop ∈ w.own.log ↔
    w.own.supervisor.activeWorkers = 0 ∧ ∃ i, .forked i ∈ w.own.log

variable {w : World} {n : UInt32} {more : List Nat}

/-- A slot is empty, or holds a descriptor. -/
theorem Books.slot_iff (h : Books n more w) {k : Worker} (hk : k ∈ w.own.supervisor.workers) :
    k.pidfd ≠ -1 ↔ 0 ≤ k.pidfd := by
  have := h.slots k hk
  omega

theorem pidfds_length_eq : ∀ ws : List Worker, (∀ k ∈ ws, k.pidfd ≠ -1 ↔ 0 ≤ k.pidfd) →
    (pidfds ws).length = ws.countP (fun k => k.pidfd ≠ -1)
  | [], _ => rfl
  | k :: ws, h => by
    have hk := h k List.mem_cons_self
    rw [pidfds_cons, List.length_append, List.countP_cons, held,
      pidfds_length_eq ws fun k' hk' => h k' (List.mem_cons_of_mem _ hk'), Nat.add_comm]
    by_cases h0 : 0 ≤ k.pidfd
    · simp [h0, hk.mpr h0]
    · have hnone : k.pidfd = -1 := by
        by_contra hne
        exact h0 (hk.mp hne)
      simp [hnone]

/-- The books of the supervisor's run, in these terms. -/
theorem Books.kept (h : Books n more w) : BooksKept w := by
  refine ⟨?_, ?_, ⟨_, more, h.log, ?_⟩, ?_, ?_⟩
  · rw [h.active]
    exact pidfds_length_eq _ fun k hk => h.slot_iff hk
  · intro i k hk hfd
    exact h.objects i k hk ((h.slot_iff (List.mem_of_getElem? hk)).mp hfd)
  · intro i
    have hmem := mem_actives_iff 0 i w.own.supervisor.workers
    rw [Nat.zero_add] at hmem
    rw [hmem]
    refine exists_congr fun k => and_congr_right fun hk => ?_
    exact (h.slot_iff (List.mem_of_getElem? hk)).symm
  · intro i
    have := h.log.handled_once i
    rwa [List.count_append, count_passedOn_handled, Nat.add_zero] at this
  · have hexit := h.log.exited_iff
    rw [h.none_iff]
    simpa [passedOn] using hexit

/-- **The supervisor keeps its books**, wherever it calls the system. The
only run that faults is the one in which the size of the event loop
overflows, so no signal is sent to a descriptor that is closed, and no exit
is waited for twice. -/
theorem supervisor_kept (n : UInt32) (ans : List Answer) :
    (mainUntilExit n started ans).Always BooksKept ∧
      (mainUntilExit n started ans ≠ .fault ∨ loopSize n = none) := by
  have htriple : Triple (contract False n) _ (mainUntilExit n) _ := mainUntilExit_triple False.elim
  have hrun := htriple started ans rfl fun _ _ h => h.elim
  constructor
  · refine hrun.always (fun w h => ?_) fun exit w h => ?_
    · obtain ⟨m, more, h⟩ := h
      exact h.kept
    · split at h
      · exact h.books.kept
      · rw [h.2]
        exact (started_spawning 0).books.kept
  · by_cases hsize : loopSize n = none
    · exact Or.inr hsize
    · exact Or.inl (htriple.not_fault rfl (fun _ _ h => h.elim) hsize)

end Sgopher.Main
