/-
Sgopher.Lib.System — processes that run side by side.

A `System` is a family of programs, each with the state it starts in. How
far its processes got is told by the answers each was given so far
(`Config`), since a run is determined by them; a process that was killed
gets no more. What can happen is that a call one of them waits in returns,
or that one of them is killed. Which answers the environment may give is a
relation over the configuration (`allowed`), so it can depend on what the
OTHER processes are at: that a descriptor is ready because another process
ended, that a signal is read because another process sent it.

The contract of a program constrains each answer for itself.
`Triple.justified` leads from one to the other: if every answer, at the
moment it was given, was one the contract allows, by what the contract
says of the state the program waited in, then what the triple says of the
program holds of the process. `Steps.given` supplies these moments: behind
each answer lies the configuration in which it was given.

No `sorry`, no `axiom`, no `native_decide`.
-/
import Mathlib.Data.List.Induction
import Mathlib.Logic.Relation
import Sgopher.Lib.Program

namespace Sgopher.Lib

/-! ## One process -/

section Justified

variable {ω σ α : Type} {X : Contract ω σ} {P : σ → Prop} {m : Prog ω σ α} {Q : α → σ → Prop}

/-- Answers that were allowed by what was known of the state each was given
in are allowed. -/
theorem Triple.justified (h : Triple X P m Q) {s : σ} (hs : P s) {ans : List ω}
    (hgiven : ∀ zs y ys, ans = zs ++ y :: ys →
      ∃ w, m s zs = .stopped w ∧ (X.waits w → X.answers y)) : ∀ y ∈ ans, X.answers y := by
  induction ans using List.reverseRecOn with
  | nil => simp
  | append_singleton zs y ih =>
    have hzs := ih fun zs' y' ys' he => hgiven zs' y' (ys' ++ [y]) (by simp [he])
    intro y' hy'
    rcases List.mem_append.mp hy' with hy' | hy'
    · exact hzs y' hy'
    · obtain ⟨w, hw, hallow⟩ := hgiven zs y [] rfl
      rw [List.mem_singleton.mp hy']
      exact hallow (h.stopped hs hzs hw)

/-- A run goes on where an earlier one stopped: what it reads first leads
to the same place. -/
def Prog.Local (m : Prog ω σ α) : Prop :=
  ∀ s ans a s' rest, m s ans = .done a s' rest →
    ∃ pre, ans = pre ++ rest ∧ ∀ ys, m s (pre ++ ys) = .done a s' ys

end Justified

namespace Prog.Local

variable {ω σ α β : Type} {m m' : Prog ω σ α}

theorem pure (a : α) : Local (Pure.pure a : Prog ω σ α) := by
  intro s ans b s' rest hrun
  obtain ⟨rfl, rfl, rfl⟩ := Outcome.done.inj hrun
  exact ⟨[], rfl, fun _ => rfl⟩

theorem bind {f : α → Prog ω σ β} (hm : Local m) (hf : ∀ a, Local (f a)) : Local (m >>= f) := by
  intro s ans b s' rest hrun
  rw [bind_run] at hrun
  cases hr : m s ans with
  | done a w mid =>
    rw [hr] at hrun
    obtain ⟨pre, rfl, hpre⟩ := hm s ans a w mid hr
    obtain ⟨pre', rfl, hpre'⟩ := hf a w mid b s' rest hrun
    refine ⟨pre ++ pre', (List.append_assoc ..).symm, fun ys => ?_⟩
    rw [List.append_assoc, bind_done (hpre (pre' ++ ys)), hpre' ys]
  | stopped w => rw [hr] at hrun; cases hrun
  | fault => rw [hr] at hrun; cases hrun

theorem ask : Local (Prog.ask : Prog ω σ ω) := by
  intro s ans y s' rest hrun
  cases ans with
  | nil => cases hrun
  | cons x ans =>
    obtain ⟨rfl, rfl, rfl⟩ := Outcome.done.inj hrun
    exact ⟨[x], rfl, fun _ => rfl⟩

theorem get : Local (Prog.get : Prog ω σ σ) := by
  intro s ans b s' rest hrun
  obtain ⟨rfl, rfl, rfl⟩ := Outcome.done.inj hrun
  exact ⟨[], rfl, fun _ => rfl⟩

theorem step (f : σ → Option (σ × α)) : Local (Prog.step f : Prog ω σ α) := by
  intro s ans b s' rest hrun
  unfold Prog.step at hrun ⊢
  cases hf : f s with
  | none => rw [hf] at hrun; cases hrun
  | some p =>
    rw [hf] at hrun
    obtain ⟨rfl, rfl, rfl⟩ := Outcome.done.inj hrun
    exact ⟨[], rfl, fun _ => rfl⟩

theorem modify (f : σ → σ) : Local (Prog.modify f : Prog ω σ Unit) := by
  intro s ans b s' rest hrun
  obtain ⟨rfl, rfl, rfl⟩ := Outcome.done.inj hrun
  exact ⟨[], rfl, fun _ => rfl⟩

theorem ite {φ : Prop} [Decidable φ] (ht : Local m) (he : Local m') :
    Local (if φ then m else m') := by
  split
  · exact ht
  · exact he

end Prog.Local

/-! ## Many processes -/

/-- Processes, each with its program and the state it starts in. -/
structure System (ι : Type) where
  Answer : ι → Type
  State : ι → Type
  Result : ι → Type
  program : ∀ i, Prog (Answer i) (State i) (Result i)
  start : ∀ i, State i

namespace System

variable {ι : Type} {S : System ι} {i : ι}

/-- How far the processes got. -/
structure Config (S : System ι) where
  given : ∀ i, List (S.Answer i)
  killed : ι → Prop

/-- Before anything happened. -/
def Config.initial (S : System ι) : S.Config := ⟨fun _ => [], fun _ => False⟩

/-- How the run of a process ends on what it was given. -/
def Config.outcome (c : S.Config) (i : ι) : Outcome (S.Answer i) (S.State i) (S.Result i) :=
  S.program i (S.start i) (c.given i)

/-- The process waits for a call to return, in that state. -/
def Config.Waits (c : S.Config) (i : ι) (s : S.State i) : Prop :=
  c.outcome i = .stopped s ∧ ¬ c.killed i

/-- The process is gone: it returned, it faulted or it was killed. -/
def Config.Ended (c : S.Config) (i : ι) : Prop := ∀ s, ¬ c.Waits i s

/-- The process got to a state with the property, and is there. -/
def Config.At (c : S.Config) (i : ι) (R : S.State i → Prop) : Prop :=
  ∃ s, R s ∧ (c.outcome i = .stopped s ∨ ∃ a rest, c.outcome i = .done a s rest)

/-- What can happen: a call returns, or a process is killed. -/
inductive Move (S : System ι) where
  | answer (i : ι) (y : S.Answer i)
  | kill (i : ι)

section Steps

variable [DecidableEq ι]

def Config.answer (c : S.Config) (i : ι) (y : S.Answer i) : S.Config :=
  { c with given := Function.update c.given i (c.given i ++ [y]) }

def Config.kill (c : S.Config) (i : ι) : S.Config :=
  { c with killed := fun j => j = i ∨ c.killed j }

/-- A move the environment may make. -/
inductive Step (allowed : S.Config → S.Move → Prop) (c : S.Config) : S.Config → Prop
  | answer {i : ι} {s : S.State i} (y : S.Answer i) (h : c.Waits i s)
      (ha : allowed c (.answer i y)) : Step allowed c (c.answer i y)
  | kill {i : ι} {s : S.State i} (h : c.Waits i s) (ha : allowed c (.kill i)) :
      Step allowed c (c.kill i)

variable {allowed : S.Config → S.Move → Prop} {c c' : S.Config}

/-- Any number of moves. -/
abbrev Steps (allowed : S.Config → S.Move → Prop) : S.Config → S.Config → Prop :=
  Relation.ReflTransGen (Step allowed)

/-- What a system can get to. -/
def Reachable (allowed : S.Config → S.Move → Prop) (c : S.Config) : Prop :=
  Steps allowed (.initial S) c

theorem answer_given_self (c : S.Config) (y : S.Answer i) :
    (c.answer i y).given i = c.given i ++ [y] := Function.update_self ..

theorem answer_given_ne {j : ι} (hj : j ≠ i) (c : S.Config) (y : S.Answer i) :
    (c.answer i y).given j = c.given j := Function.update_of_ne hj ..

theorem answer_outcome_ne {j : ι} (hj : j ≠ i) (y : S.Answer i) :
    (c.answer i y).outcome j = c.outcome j := by
  unfold Config.outcome
  rw [answer_given_ne hj]

/-- A process that is gone does not come back. -/
theorem Step.ended {j : ι} (h : Step allowed c c') (he : c.Ended j) : c'.Ended j := by
  cases h with
  | @answer i s y hw ha =>
    have hj : j ≠ i := by
      rintro rfl
      exact he s hw
    rintro s' ⟨hs, hk⟩
    exact he s' ⟨(answer_outcome_ne hj y).symm.trans hs, hk⟩
  | kill hw ha => exact fun s' hs => he s' ⟨hs.1, fun hk => hs.2 (Or.inr hk)⟩

theorem Steps.ended {j : ι} (h : Steps allowed c c') (he : c.Ended j) : c'.Ended j := by
  induction h with
  | refl => exact he
  | tail _ hstep ih => exact hstep.ended ih

/-- Behind each answer of a process lies the configuration in which it was
given. -/
theorem Steps.given {c₀ : S.Config} (h : Steps allowed c₀ c) (h₀ : c₀.given i = []) :
    ∀ zs y ys, c.given i = zs ++ y :: ys → ∃ c₁ s, Steps allowed c₀ c₁ ∧ Steps allowed c₁ c ∧
      c₁.given i = zs ∧ c₁.Waits i s ∧ allowed c₁ (.answer i y) := by
  induction h with
  | refl => simp [h₀]
  | @tail c c' hsteps hstep ih =>
    have hold : ∀ zs y ys, c.given i = zs ++ y :: ys → ∃ c₁ s, Steps allowed c₀ c₁ ∧
        Steps allowed c₁ c' ∧ c₁.given i = zs ∧ c₁.Waits i s ∧ allowed c₁ (.answer i y) :=
      fun zs y ys he => by
        obtain ⟨c₁, s, h₁, h₂, hrest⟩ := ih zs y ys he
        exact ⟨c₁, s, h₁, h₂.tail hstep, hrest⟩
    intro zs y ys he
    cases hstep with
    | @answer j s x hw ha =>
      by_cases hj : i = j
      · subst hj
        rw [answer_given_self] at he
        rcases List.eq_nil_or_concat ys with rfl | ⟨ys, y', rfl⟩
        · obtain ⟨rfl, hlast⟩ := List.append_inj' he rfl
          obtain rfl := List.head_eq_of_cons_eq hlast
          exact ⟨c, s, hsteps, .single (.answer x hw ha), rfl, hw, ha⟩
        · rw [List.concat_eq_append, ← List.cons_append, ← List.append_assoc] at he
          exact hold zs y ys (List.append_inj_left' he rfl)
      · rw [answer_given_ne hj] at he
        exact hold zs y ys he
    | kill hw ha => exact hold zs y ys he

/-- One process runs for a while. -/
def Config.feed (c : S.Config) (i : ι) (ys : List (S.Answer i)) : S.Config :=
  { c with given := Function.update c.given i (c.given i ++ ys) }

theorem feed_given_self (c : S.Config) (ys : List (S.Answer i)) :
    (c.feed i ys).given i = c.given i ++ ys := Function.update_self ..

theorem feed_outcome_ne {j : ι} (hj : j ≠ i) (ys : List (S.Answer i)) :
    (c.feed i ys).outcome j = c.outcome j := by
  unfold Config.outcome
  rw [show (c.feed i ys).given j = c.given j from Function.update_of_ne hj ..]

theorem At.feed_ne {j : ι} {R : S.State j → Prop} (h : c.At j R) (hj : j ≠ i)
    (ys : List (S.Answer i)) : (c.feed i ys).At j R := by
  obtain ⟨s, hs, hstate⟩ := h
  refine ⟨s, hs, ?_⟩
  rwa [feed_outcome_ne hj]

theorem Steps.feed (c : S.Config) (ys : List (S.Answer i))
    (h : ∀ zs y rest, ys = zs ++ y :: rest →
      ∃ s, (c.feed i zs).Waits i s ∧ allowed (c.feed i zs) (.answer i y)) :
    Steps allowed c (c.feed i ys) := by
  induction ys using List.reverseRecOn with
  | nil =>
    have hnone : c.feed i [] = c := by
      unfold Config.feed
      rw [List.append_nil, Function.update_eq_self]
    rw [hnone]
  | append_singleton zs y ih =>
    obtain ⟨s, hw, ha⟩ := h zs y [] rfl
    have hmore : c.feed i (zs ++ [y]) = (c.feed i zs).answer i y := by
      unfold Config.answer
      rw [feed_given_self]
      unfold Config.feed
      rw [Function.update_idem, List.append_assoc]
    rw [hmore]
    exact (ih fun zs' y' rest he => h zs' y' (rest ++ [y]) (by simp [he])).tail (.answer y hw ha)

end Steps

end System

end Sgopher.Lib
