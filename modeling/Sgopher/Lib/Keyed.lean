/-
Sgopher.Lib.Keyed — runs of calls that each concern one key.

Where calls of different keys commute, a run of calls comes to what it
comes to whatever the order in which the keys took turns: it is a matter
of what each key was given, in order (`Apart.run_congr`).

Where moreover a state can be told as one call for each key, the calls
give that state back in every order, and from every other state
(`Restores.run_eq`).

No `sorry`, no `axiom`, no `native_decide`.
-/
import Mathlib.Data.List.Basic

namespace Sgopher.Lib

variable {κ ν σ : Type}

/-- The calls one after the other. -/
def runCalls (act : κ → ν → σ → σ) (calls : List (κ × ν)) (s : σ) : σ :=
  calls.foldl (fun s c => act c.1 c.2 s) s

/-- Calls of different keys commute. -/
def Apart (act : κ → ν → σ → σ) : Prop :=
  ∀ k k', k ≠ k' → ∀ v v' s, act k' v' (act k v s) = act k v (act k' v' s)

variable {act : κ → ν → σ → σ} {c : κ × ν} {calls calls' : List (κ × ν)}

@[simp] theorem runCalls_nil (s : σ) : runCalls act [] s = s := rfl

@[simp] theorem runCalls_cons (s : σ) :
    runCalls act (c :: calls) s = runCalls act calls (act c.1 c.2 s) := rfl

/-- A call goes in front of calls of other keys. -/
theorem Apart.front (h : Apart act) (hother : ∀ c' ∈ calls, c'.1 ≠ c.1) (s : σ) :
    runCalls act (calls ++ c :: calls') s = runCalls act (c :: (calls ++ calls')) s := by
  induction calls generalizing s with
  | nil => rfl
  | cons c' calls ih =>
    have hcomm := h c'.1 c.1 (hother c' (List.mem_cons_self ..)) c'.2 c.2 s
    rw [List.cons_append, runCalls_cons, ih fun c'' hc => hother c'' (List.mem_cons_of_mem _ hc),
      runCalls_cons, hcomm]
    rfl

/-- What each key was given decides what the run comes to. -/
theorem Apart.run_congr [DecidableEq κ] (h : Apart act)
    (hsame : ∀ k, (calls.filter fun c => c.1 = k) = calls'.filter fun c => c.1 = k) (s : σ) :
    runCalls act calls s = runCalls act calls' s := by
  induction calls generalizing calls' s with
  | nil =>
    cases calls' with
    | nil => rfl
    | cons c calls' => simpa using hsame c.1
  | cons c calls ih =>
    have hfirst := hsame c.1
    rw [List.filter_cons_of_pos (by simp)] at hfirst
    obtain ⟨before, behind, rfl, hbefore, -, hbehind⟩ := List.filter_eq_cons_iff.mp hfirst.symm
    have hother : ∀ c' ∈ before, c'.1 ≠ c.1 := fun c' hc => by simpa using hbefore c' hc
    rw [h.front hother, runCalls_cons, runCalls_cons]
    refine ih (fun k => ?_) _
    have hk := hsame k
    rw [List.filter_append] at hk ⊢
    by_cases he : c.1 = k
    · rw [List.filter_cons_of_pos (by simpa), List.filter_cons_of_pos (by simpa)] at hk
      have hnone : (before.filter fun c => c.1 = k) = [] :=
        List.filter_eq_nil_iff.mpr fun c' hc => by simpa [← he] using hother c' hc
      rw [hnone] at hk ⊢
      exact List.tail_eq_of_cons_eq hk
    · rwa [List.filter_cons_of_neg (by simpa), List.filter_cons_of_neg (by simpa)] at hk

/-- Where each key has one call their order does not matter. -/
theorem Apart.run_perm (h : Apart act) (hp : calls.Perm calls')
    (hnd : (calls.map Prod.fst).Nodup) (s : σ) : runCalls act calls s = runCalls act calls' s := by
  induction hp generalizing s with
  | nil => rfl
  | cons c _ ih => exact ih (List.nodup_cons.mp hnd).2 _
  | swap c c' calls =>
    have hother : ∀ c'' ∈ [c'], c''.1 ≠ c.1 := by
      intro c'' hc he
      obtain rfl := List.mem_singleton.mp hc
      exact (List.nodup_cons.mp hnd).1 (by simp [he])
    exact h.front hother s
  | trans hp _ ih ih' => rw [ih hnd, ih' ((hp.map _).nodup_iff.mp hnd)]

/-- `report` tells a state as one call for each of some keys, and these
calls give the state back. -/
structure Restores (act : κ → ν → σ → σ) (report : σ → List (κ × ν)) : Prop where
  apart : Apart act
  once : ∀ s, ((report s).map Prod.fst).Nodup
  back : ∀ s s', runCalls act (report s) s' = s

variable {report : σ → List (κ × ν)}

/-- The calls that a state is told as can be made in any order. -/
theorem Restores.run_eq (h : Restores act report) {s : σ} (hp : calls.Perm (report s)) (s' : σ) :
    runCalls act calls s' = s := by
  rw [← h.apart.run_perm hp.symm (h.once s)]
  exact h.back s s'

end Sgopher.Lib
