/-
Sgopher.Main.Ledger — what the supervisor is for, as a rule for its log.

The supervisor is there to fork workers, to pass every SIGTERM on to those
that are still there, and to end once they are gone. `Logged A log` says
that of a log: the forks come first; a worker is handled only while it is
one of `A`, the workers that are left; each SIGTERM is followed by one
signal for each of them, in their order; and the call of `sepoll_exit`
comes directly behind the exit that leaves none.

`actives` reads the workers that are left off the supervisor's array. The
theorems on the supervisor's run keep the two in step.

No `sorry`, no `axiom`, no `native_decide`.
-/
import Sgopher.Main.Supervisor

namespace Sgopher.Main

open Sgopher.Lib

/-! ## The rule -/

/-- The signals a SIGTERM is passed on by. -/
def passedOn (A : List Nat) : List Event := A.map fun i => .signal i SIGTERM

/-- What is logged behind an exit that leaves the workers `A`. -/
def exitCall (A : List Nat) : List Event := if A = [] then [.exitLoop] else []

/-- A log as it ought to be, and the workers it leaves. -/
inductive Logged : List Nat → List Event → Prop
  | nil : Logged [] []
  | forked {A : List Nat} {log : List Event} (i : Nat) (h : Logged A log)
      (hi : ∀ e ∈ log, ∃ j < i, e = .forked j) : Logged (A ++ [i]) (log ++ [.forked i])
  | term {A : List Nat} {log : List Event} (h : Logged A log) :
      Logged A (log ++ .term :: passedOn A)
  | handled {A : List Nat} {log : List Event} (i : Nat) (h : Logged A log) (hi : i ∈ A) :
      Logged (A.erase i) (log ++ .handled i :: exitCall (A.erase i))

variable {A : List Nat} {log : List Event} {i j : Nat} {ws : List Worker} {k k' : Worker}

theorem count_passedOn_forked : (passedOn A).count (.forked i) = 0 :=
  List.count_eq_zero.mpr (by simp [passedOn])

theorem count_passedOn_handled : (passedOn A).count (.handled i) = 0 :=
  List.count_eq_zero.mpr (by simp [passedOn])

theorem count_exitCall_forked : (exitCall A).count (.forked i) = 0 :=
  List.count_eq_zero.mpr (by unfold exitCall; split <;> simp)

theorem count_exitCall_handled : (exitCall A).count (.handled i) = 0 :=
  List.count_eq_zero.mpr (by unfold exitCall; split <;> simp)

/-- Every worker that was forked was handled or is left. -/
theorem Logged.account (h : Logged A log) (j : Nat) :
    log.count (.forked j) = log.count (.handled j) + A.count j := by
  induction h with
  | nil => rfl
  | forked i h hi ih =>
    simp only [List.count_append, List.count_singleton, ih]
    have hne : ((Event.forked i == .forked j) = (i == j)) := by
      rw [Bool.eq_iff_iff]
      simp
    have hno : (Event.forked i == .handled j) = false := by simp
    simp only [hne, hno, Bool.false_eq_true, if_false]
    omega
  | term h ih => simpa [count_passedOn_forked, count_passedOn_handled] using ih
  | handled i h hi ih =>
    simp only [List.count_append, List.count_cons, count_exitCall_forked,
      count_exitCall_handled, ih]
    have hne : ((Event.handled i == .handled j) = (i == j)) := by
      rw [Bool.eq_iff_iff]
      simp
    have hno : (Event.handled i == .forked j) = false := by simp
    simp only [hne, hno, List.count_erase, Bool.false_eq_true, if_false]
    by_cases hij : i = j
    · subst hij
      have := List.one_le_count_iff.mpr hi
      simp only [beq_self_eq_true, if_true]
      omega
    · have hij' : (i == j) = false := beq_false_of_ne hij
      simp [hij']

/-- No worker is forked twice. -/
theorem Logged.forked_once (h : Logged A log) (j : Nat) : log.count (.forked j) ≤ 1 := by
  induction h with
  | nil => simp
  | @forked A log i h hi ih =>
    simp only [List.count_append, List.count_singleton]
    by_cases hij : i = j
    · subst hij
      have hno : log.count (.forked i) = 0 := by
        refine List.count_eq_zero.mpr fun hm => ?_
        obtain ⟨j, hj, he⟩ := hi _ hm
        cases he
        exact Nat.lt_irrefl _ hj
      rw [hno]
      split <;> simp
    · have hno : (Event.forked i == .forked j) = false := by simp [hij]
      simpa [hno] using ih
  | term h ih => simpa [count_passedOn_forked] using ih
  | handled i h hi ih => simpa [count_exitCall_forked] using ih

/-- No worker is handled twice. -/
theorem Logged.handled_once (h : Logged A log) (j : Nat) : log.count (.handled j) ≤ 1 := by
  have := h.account j
  have := h.forked_once j
  omega

/-- `sepoll_exit` was called where no worker is left of those there
were. -/
theorem Logged.exited_iff (h : Logged A log) :
    .exitLoop ∈ log ↔ A = [] ∧ ∃ i, .forked i ∈ log := by
  induction h with
  | nil => simp
  | @forked A log i h hi ih =>
    have hno : Event.exitLoop ∉ log := fun hm => by
      obtain ⟨j, -, he⟩ := hi _ hm
      cases he
    simp [hno]
  | term h ih => simpa [passedOn] using ih
  | @handled A log i h hi ih =>
    have hno : .exitLoop ∉ log := fun hm => by
      rw [(ih.mp hm).1] at hi
      cases hi
    have hforked : .forked i ∈ log := by
      have := h.account i
      have := List.one_le_count_iff.mpr hi
      exact List.one_le_count_iff.mp (by omega)
    have hsome : ∃ j, .forked j ∈ log ++ .handled i :: exitCall (A.erase i) :=
      ⟨i, List.mem_append_left _ hforked⟩
    simp only [hsome, and_true]
    by_cases hnone : A.erase i = []
    · simp [exitCall, hnone]
    · simp [exitCall, hnone, hno]

/-! ## The workers that are left -/

/-- The numbers of the workers whose exit is not handled yet; `i` is that
of the first. -/
def actives : Nat → List Worker → List Nat
  | _, [] => []
  | i, k :: ws => if 0 ≤ k.pidfd then i :: actives (i + 1) ws else actives (i + 1) ws

theorem actives_eq_nil (h : ∀ k ∈ ws, ¬ 0 ≤ k.pidfd) (i : Nat) : actives i ws = [] := by
  induction ws generalizing i with
  | nil => rfl
  | cons k ws ih =>
    rw [actives, if_neg (h k List.mem_cons_self)]
    exact ih (fun k' hk' => h k' (List.mem_cons_of_mem _ hk')) (i + 1)

theorem le_of_mem_actives (h : j ∈ actives i ws) : i ≤ j := by
  induction ws generalizing i with
  | nil => cases h
  | cons k ws ih =>
    rw [actives] at h
    split at h
    · rcases List.mem_cons.mp h with rfl | h
      · exact Nat.le_refl _
      · exact Nat.le_of_succ_le (ih h)
    · exact Nat.le_of_succ_le (ih h)

theorem mem_actives (hk : ws[j]? = some k) (h0 : 0 ≤ k.pidfd) (i : Nat) : i + j ∈ actives i ws := by
  induction ws generalizing i j with
  | nil => cases hk
  | cons k₀ ws ih =>
    rw [actives]
    cases j with
    | zero =>
      cases hk
      rw [if_pos h0]
      exact List.mem_cons_self
    | succ j =>
      have hmem := ih (by simpa using hk) (i + 1)
      rw [Nat.add_right_comm] at hmem
      split
      · exact List.mem_cons_of_mem _ hmem
      · exact hmem

theorem mem_actives_iff (i j : Nat) (ws : List Worker) :
    i + j ∈ actives i ws ↔ ∃ k, ws[j]? = some k ∧ 0 ≤ k.pidfd := by
  refine ⟨fun h => ?_, fun ⟨k, hk, h0⟩ => mem_actives hk h0 i⟩
  induction ws generalizing i j with
  | nil => cases h
  | cons k₀ ws ih =>
    rw [actives] at h
    cases j with
    | zero =>
      split at h
      · rename_i h0
        exact ⟨k₀, rfl, h0⟩
      · have := le_of_mem_actives h
        omega
    | succ j =>
      have hrest : (i + 1) + j ∈ actives (i + 1) ws := by
        rw [Nat.add_right_comm]
        split at h
        · refine (List.mem_cons.mp h).resolve_left ?_
          omega
        · exact h
      simpa using ih (i + 1) j hrest

/-- A worker is counted off. -/
theorem actives_handled (k' : Worker) (hk : ws[j]? = some k) (h0 : 0 ≤ k.pidfd)
    (hk' : ¬ 0 ≤ k'.pidfd) (i : Nat) :
    actives i (ws.set j k') = (actives i ws).erase (i + j) := by
  induction ws generalizing i j with
  | nil => cases hk
  | cons k₀ ws ih =>
    cases j with
    | zero =>
      cases hk
      simp [actives, h0, hk']
    | succ j =>
      have hrest := ih (by simpa using hk) (i + 1)
      rw [Nat.add_right_comm] at hrest
      rw [List.set_cons_succ, actives, actives, hrest]
      split
      · rw [List.erase_cons_tail (by simp)]
        rfl
      · rfl

/-- A worker is entered behind all others. -/
theorem actives_forked (k' : Worker) (hj : j < ws.length) (hlater : ∀ k ∈ ws.drop j, ¬ 0 ≤ k.pidfd)
    (hk' : 0 ≤ k'.pidfd) (i : Nat) : actives i (ws.set j k') = actives i ws ++ [i + j] := by
  induction ws generalizing i j with
  | nil => cases hj
  | cons k₀ ws ih =>
    cases j with
    | zero =>
      have hnone : actives i (k₀ :: ws) = [] := actives_eq_nil hlater i
      rw [hnone, List.set_cons_zero, actives, if_pos hk',
        actives_eq_nil fun k hk => hlater k (List.mem_cons_of_mem _ hk)]
      rfl
    | succ j =>
      have hrest := ih (Nat.lt_of_succ_lt_succ hj) hlater (i + 1)
      rw [Nat.add_right_comm] at hrest
      rw [List.set_cons_succ, actives, actives, hrest]
      split <;> rfl

end Sgopher.Main
