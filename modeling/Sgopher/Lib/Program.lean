/-
Sgopher.Lib.Program — programs that wait on their environment, and a
Hoare logic for them.

A `Prog ω σ α` transforms a state `σ` and reads the answers its
environment gives, one `ω` for each call it makes (`ask`). A run has
one of three ends:

* `done` — the program returned a value and left the unread answers;
* `stopped` — the answers ran out at a call, so the state is the one in
  which the program waits for that call to return;
* `fault` — the program did something no contract covers (it read a
  freed record, it closed a descriptor it does not own).

Since a run may stop at every call, a statement about ALL answer lists
is a statement about every point at which the environment can look at
the program, not only about the points where it returns.

`Triple X P m Q` is the judgement. The contract `X` says what may be
assumed of every answer, what must hold in every state the program waits
in, and whether a fault is excused; then from a state in `P` the program
keeps the contract, and if it returns, `Q` holds. The rules below are
those of a sequential language with one loop, `iterate`.

No `sorry`, no `axiom`, no `native_decide`.
-/
import Mathlib.Data.List.Basic

namespace Sgopher.Lib

/-! ## Outcomes and programs -/

/-- How a run ends: with a value, waiting in a call, or in a fault. -/
inductive Outcome (ω σ α : Type) where
  | done (a : α) (s : σ) (rest : List ω)
  | stopped (s : σ)
  | fault

/-- A program over the state `σ` whose calls are answered by `ω`. -/
def Prog (ω σ α : Type) : Type := σ → List ω → Outcome ω σ α

namespace Prog

variable {ω σ α β γ : Type}

/-- Return a value without a call. -/
protected def pure (a : α) : Prog ω σ α := fun s ans => .done a s ans

/-- Sequencing: a stopped or faulted run stays so. -/
protected def bind (m : Prog ω σ α) (f : α → Prog ω σ β) : Prog ω σ β := fun s ans =>
  match m s ans with
  | .done a s' rest => f a s' rest
  | .stopped s' => .stopped s'
  | .fault => .fault

instance : Monad (Prog ω σ) where
  pure := Prog.pure
  bind := Prog.bind

/-- One call of the environment: the next answer, or the run stops. -/
def ask : Prog ω σ ω := fun s ans =>
  match ans with
  | [] => .stopped s
  | a :: rest => .done a s rest

/-- The current state. -/
def get : Prog ω σ σ := fun s ans => .done s s ans

/-- Update the state, without a call. -/
def modify (f : σ → σ) : Prog ω σ Unit := fun s ans => .done () (f s) ans

/-- A step that may be undefined; where it is, the run faults. -/
def step (f : σ → Option (σ × α)) : Prog ω σ α := fun s ans =>
  match f s with
  | some (s', a) => .done a s' ans
  | none => .fault

/-- Run a program only if a condition holds. -/
def when (φ : Prop) [Decidable φ] (m : Prog ω σ Unit) : Prog ω σ Unit :=
  if φ then m else Prog.pure ()

/-- Repeat a body at most `n` times, until it leaves with `inr`. -/
def iterateN (body : β → Prog ω σ (β ⊕ γ)) : Nat → β → Prog ω σ γ
  | 0, _ => fun s _ => .stopped s
  | n + 1, b => Prog.bind (body b) fun
      | .inl b' => iterateN body n b'
      | .inr c => Prog.pure c

/-- A loop. Every turn of the loops modelled here makes a call, so the
answers run out before the bound does. -/
def iterate (body : β → Prog ω σ (β ⊕ γ)) (b : β) : Prog ω σ γ := fun s ans =>
  iterateN body (ans.length + 1) b s ans

/-- On a finite part of an endless sequence of answers the program
returns. -/
def Ends (m : Prog ω σ α) (s : σ) (xs : ℕ → ω) : Prop :=
  ∃ n a s' rest, m s ((List.range n).map xs) = .done a s' rest

/-! ### How the operations run -/

@[simp] theorem pure_run (a : α) (s : σ) (ans : List ω) :
    (pure a : Prog ω σ α) s ans = .done a s ans := rfl

theorem bind_run (m : Prog ω σ α) (f : α → Prog ω σ β) (s : σ) (ans : List ω) :
    (m >>= f) s ans = match m s ans with
      | .done a s' rest => f a s' rest
      | .stopped s' => .stopped s'
      | .fault => .fault := rfl

@[simp] theorem ask_nil (s : σ) : (ask : Prog ω σ ω) s [] = .stopped s := rfl

@[simp] theorem ask_cons (s : σ) (a : ω) (rest : List ω) :
    (ask : Prog ω σ ω) s (a :: rest) = .done a s rest := rfl

@[simp] theorem get_run (s : σ) (ans : List ω) :
    (get : Prog ω σ σ) s ans = .done s s ans := rfl

@[simp] theorem modify_run (f : σ → σ) (s : σ) (ans : List ω) :
    (modify f : Prog ω σ Unit) s ans = .done () (f s) ans := rfl

/-- A sequence whose first part returned goes on with the second. -/
theorem bind_done {m : Prog ω σ α} {f : α → Prog ω σ β} {s s' : σ} {ans rest : List ω} {a : α}
    (h : m s ans = .done a s' rest) : (m >>= f) s ans = f a s' rest := by
  rw [bind_run, h]

theorem bind_assoc (m : Prog ω σ α) (f : α → Prog ω σ β) (g : β → Prog ω σ γ) :
    (m >>= f) >>= g = m >>= fun a => f a >>= g := by
  funext s ans
  simp only [bind_run]
  cases m s ans <;> rfl

theorem step_done {f : σ → Option (σ × α)} {s s' : σ} {a : α} (h : f s = some (s', a))
    (ans : List ω) : (step f : Prog ω σ α) s ans = .done a s' ans := by
  simp only [step, h]

/-- The first turn of a loop. -/
theorem iterateN_succ (body : β → Prog ω σ (β ⊕ γ)) (n : Nat) (b : β) (s : σ) (ans : List ω) :
    iterateN body (n + 1) b s ans = match body b s ans with
      | .done (.inl b') s' rest => iterateN body n b' s' rest
      | .done (.inr c) s' rest => .done c s' rest
      | .stopped s' => .stopped s'
      | .fault => .fault := by
  rw [iterateN, Prog.bind]
  cases body b s ans with
  | done r s' rest => cases r <;> rfl
  | stopped s' => rfl
  | fault => rfl

end Prog

/-! ## The Hoare logic -/

/-- What a program may rely on and what it owes while it runs. -/
structure Contract (ω σ : Type) where
  answers : ω → Prop
  waits : σ → Prop
  mayFault : Prop := False

section Logic

variable {ω σ α β γ : Type} {X : Contract ω σ}

/-- What contract and postcondition say of a run's end. -/
def Outcome.Meets (X : Contract ω σ) (Q : α → σ → Prop) : Outcome ω σ α → Prop
  | .done a s rest => Q a s ∧ ∀ x ∈ rest, X.answers x
  | .stopped s => X.waits s
  | .fault => X.mayFault

/-- From `P`, under answers the contract allows, the program keeps the
contract and returns only with `Q`. -/
def Triple (X : Contract ω σ) (P : σ → Prop) (m : Prog ω σ α) (Q : α → σ → Prop) : Prop :=
  ∀ s ans, P s → (∀ x ∈ ans, X.answers x) → (m s ans).Meets X Q

/-- A property of every state a run gets to, as far as it gets. -/
structure Outcome.Always (R : σ → Prop) (o : Outcome ω σ α) : Prop where
  stopped : ∀ s, o = .stopped s → R s
  done : ∀ a s rest, o = .done a s rest → R s

theorem Outcome.Always.imp {R R' : σ → Prop} {o : Outcome ω σ α} (h : o.Always R)
    (hi : ∀ s, R s → R' s) : o.Always R' where
  stopped s hs := hi s (h.stopped s hs)
  done a s rest hs := hi s (h.done a s rest hs)

/-- The run waits, in a state with the property. -/
inductive Outcome.Stops (R : σ → Prop) : Outcome ω σ α → Prop
  | intro (s : σ) (h : R s) : Stops R (.stopped s)

instance (R : σ → Prop) [DecidablePred R] (o : Outcome ω σ α) : Decidable (o.Stops R) :=
  match o with
  | .stopped s =>
    if h : R s then isTrue (.intro s h) else isFalse fun ⟨_, h'⟩ => h h'
  | .done .. => isFalse nofun
  | .fault => isFalse nofun

theorem Outcome.Stops.state {R : σ → Prop} {o : Outcome ω σ α} (h : o.Stops R) :
    ∃ s, o = .stopped s ∧ R s := by
  obtain ⟨s, h⟩ := h
  exact ⟨s, rfl, h⟩

/-- The run returns, with a value and a state that have the property. -/
inductive Outcome.Returns (R : α → σ → Prop) : Outcome ω σ α → Prop
  | intro (a : α) (s : σ) (rest : List ω) (h : R a s) : Returns R (.done a s rest)

instance (R : α → σ → Prop) [∀ a, DecidablePred (R a)] (o : Outcome ω σ α) :
    Decidable (o.Returns R) :=
  match o with
  | .done a s rest =>
    if h : R a s then isTrue (.intro a s rest h) else isFalse fun ⟨_, _, _, h'⟩ => h h'
  | .stopped _ => isFalse nofun
  | .fault => isFalse nofun

theorem Outcome.Returns.state {R : α → σ → Prop} {o : Outcome ω σ α} (h : o.Returns R) :
    ∃ a s rest, o = .done a s rest ∧ R a s := by
  obtain ⟨a, s, rest, h⟩ := h
  exact ⟨a, s, rest, rfl, h⟩

/-- Whether the run faults. -/
def Outcome.faults : Outcome ω σ α → Bool
  | .fault => true
  | _ => false

theorem Outcome.eq_fault {o : Outcome ω σ α} (h : o.faults = true) : o = .fault := by
  cases o with
  | done a s rest => cases h
  | stopped s => cases h
  | fault => rfl

theorem Outcome.Meets.always {Q : α → σ → Prop} {R : σ → Prop} {o : Outcome ω σ α}
    (h : o.Meets X Q) (hw : ∀ s, X.waits s → R s) (hq : ∀ a s, Q a s → R s) : o.Always R where
  stopped := by
    rintro s rfl
    exact hw s h
  done := by
    rintro a s rest rfl
    exact hq a s h.1

/-- A triple applied to one run that returned. -/
theorem Triple.done {P : σ → Prop} {m : Prog ω σ α} {Q : α → σ → Prop}
    (h : Triple X P m Q) {s s' : σ} {ans rest : List ω} {a : α} (hP : P s)
    (hA : ∀ x ∈ ans, X.answers x) (hr : m s ans = .done a s' rest) :
    Q a s' ∧ ∀ x ∈ rest, X.answers x := by
  have := h s ans hP hA
  rwa [hr] at this

/-- A triple applied to one run that waits. -/
theorem Triple.stopped {P : σ → Prop} {m : Prog ω σ α} {Q : α → σ → Prop}
    (h : Triple X P m Q) {s s' : σ} {ans : List ω} (hP : P s)
    (hA : ∀ x ∈ ans, X.answers x) (hr : m s ans = .stopped s') : X.waits s' := by
  have := h s ans hP hA
  rwa [hr] at this

theorem Triple.not_fault {P : σ → Prop} {m : Prog ω σ α} {Q : α → σ → Prop}
    (h : Triple X P m Q) {s : σ} {ans : List ω} (hP : P s)
    (hA : ∀ x ∈ ans, X.answers x) (hX : ¬ X.mayFault) : m s ans ≠ .fault := by
  intro hr
  have := h s ans hP hA
  rw [hr] at this
  exact hX this

/-- A step that may not fault returns, and reads no answer. -/
theorem Triple.step_run {P : σ → Prop} {f : σ → Option (σ × α)} {Q : α → σ → Prop}
    (h : Triple X P (Prog.step f) Q) (hX : ¬ X.mayFault) {s : σ} (hP : P s) (ans : List ω)
    (hA : ∀ x ∈ ans, X.answers x) : ∃ a s', Prog.step f s ans = .done a s' ans ∧ Q a s' := by
  have hrun := h s ans hP hA
  unfold Prog.step at hrun ⊢
  cases hf : f s with
  | none => rw [hf] at hrun; exact absurd hrun hX
  | some p => rw [hf] at hrun; exact ⟨p.2, p.1, rfl, hrun.1⟩

/-- Consequence. -/
theorem Triple.conseq {P P' : σ → Prop} {m : Prog ω σ α} {Q Q' : α → σ → Prop}
    (h : Triple X P m Q) (hP : ∀ s, P' s → P s) (hQ : ∀ a s, Q a s → Q' a s) :
    Triple X P' m Q' := by
  intro s ans hs hA
  have := h s ans (hP s hs) hA
  revert this
  cases m s ans with
  | done a s' rest => exact fun hq => ⟨hQ a s' hq.1, hq.2⟩
  | stopped s' => exact id
  | fault => exact id

theorem Triple.pre {P P' : σ → Prop} {m : Prog ω σ α} {Q : α → σ → Prop}
    (h : Triple X P m Q) (hP : ∀ s, P' s → P s) : Triple X P' m Q :=
  h.conseq hP fun _ _ h => h

theorem Triple.post {P : σ → Prop} {m : Prog ω σ α} {Q Q' : α → σ → Prop}
    (h : Triple X P m Q) (hQ : ∀ a s, Q a s → Q' a s) : Triple X P m Q' :=
  h.conseq (fun _ h => h) hQ

/-- A triple under another contract, that owes less and relies on the same. -/
theorem Triple.weaken {Y : Contract ω σ} {P : σ → Prop} {m : Prog ω σ α} {Q : α → σ → Prop}
    (h : Triple X P m Q) (ha : Y.answers = X.answers) (hw : ∀ s, X.waits s → Y.waits s)
    (hf : X.mayFault → Y.mayFault) : Triple Y P m Q := by
  intro s ans hs hA
  rw [ha] at hA
  have := h s ans hs hA
  revert this
  cases m s ans with
  | done a s' rest => exact fun hq => ⟨hq.1, ha ▸ hq.2⟩
  | stopped s' => exact hw s'
  | fault => exact hf

theorem Triple.pure {P : σ → Prop} {Q : α → σ → Prop} {a : α} (h : ∀ s, P s → Q a s) :
    Triple X P (pure a : Prog ω σ α) Q :=
  fun s _ hs hA => ⟨h s hs, hA⟩

theorem Triple.bind {P : σ → Prop} {m : Prog ω σ α} {R : α → σ → Prop}
    {f : α → Prog ω σ β} {Q : β → σ → Prop}
    (hm : Triple X P m R) (hf : ∀ a, Triple X (R a) (f a) Q) :
    Triple X P (m >>= f) Q := by
  intro s ans hs hA
  have := hm s ans hs hA
  rw [Prog.bind_run]
  revert this
  cases m s ans with
  | done a s' rest => exact fun hq => hf a s' rest hq.1 hq.2
  | stopped s' => exact id
  | fault => exact id

/-- Sequencing after a part whose value is known. -/
theorem Triple.bind_eq {P R : σ → Prop} {m : Prog ω σ α} {v : α} {f : α → Prog ω σ β}
    {Q : β → σ → Prop} (hm : Triple X P m (fun a s => a = v ∧ R s)) (hf : Triple X R (f v) Q) :
    Triple X P (m >>= f) Q :=
  hm.bind fun _ s ans hs hA => hs.1 ▸ hf s ans hs.2 hA

/-- A call: the state must be one to wait in, then any answer may come. -/
theorem Triple.ask {P : σ → Prop} {Q : ω → σ → Prop} (hC : ∀ s, P s → X.waits s)
    (h : ∀ s x, P s → X.answers x → Q x s) : Triple X P Prog.ask Q := by
  intro s ans hs hA
  cases ans with
  | nil => exact hC s hs
  | cons x rest =>
    exact ⟨h s x hs (hA x (by simp)), fun y hy => hA y (by simp [hy])⟩

theorem Triple.get {P : σ → Prop} : Triple X P Prog.get (fun a s => P s ∧ a = s) :=
  fun _ _ hs hA => ⟨⟨hs, rfl⟩, hA⟩

theorem Triple.modify {P : σ → Prop} {f : σ → σ} {Q : Unit → σ → Prop}
    (h : ∀ s, P s → Q () (f s)) : Triple X P (Prog.modify f) Q :=
  fun s _ hs hA => ⟨h s hs, hA⟩

theorem Triple.step {P : σ → Prop} {f : σ → Option (σ × α)} {Q : α → σ → Prop}
    (h : ∀ s, P s → ∃ s' a, f s = some (s', a) ∧ Q a s') :
    Triple X P (Prog.step f) Q := by
  intro s ans hs hA
  obtain ⟨s', a, hf, hq⟩ := h s hs
  rw [Prog.step_done hf]
  exact ⟨hq, hA⟩

/-- A step that may be undefined, where a fault is excused. -/
theorem Triple.step_partial {P : σ → Prop} {f : σ → Option (σ × α)} {Q : α → σ → Prop}
    (hX : X.mayFault) (h : ∀ s s' a, P s → f s = some (s', a) → Q a s') :
    Triple X P (Prog.step f) Q := by
  intro s ans hs hA
  cases hf : f s with
  | none =>
    simp only [Prog.step, hf]
    exact hX
  | some p =>
    rw [Prog.step_done hf]
    exact ⟨h s p.1 p.2 hs hf, hA⟩

/-- A step that looks something up, where a fault is excused if nothing is
there. -/
theorem Triple.step_map {P : σ → Prop} {look : σ → Option β} {k : σ → β → σ × α}
    {Q : α → σ → Prop} (hX : X.mayFault)
    (h : ∀ s b, P s → look s = some b → Q (k s b).2 (k s b).1) :
    Triple X P (Prog.step fun s => (look s).map (k s)) Q := by
  refine Triple.step_partial hX fun s s' a hs hf => ?_
  obtain ⟨b, hb, he⟩ := Option.map_eq_some_iff.mp hf
  have hq := h s b hs hb
  rw [he] at hq
  exact hq

/-- The loop rule: `I` holds at the head of every turn. -/
theorem Triple.iterate {I : β → σ → Prop} {body : β → Prog ω σ (β ⊕ γ)} {Q : γ → σ → Prop}
    (hC : ∀ b s, I b s → X.waits s)
    (hbody : ∀ b, Triple X (I b) (body b) (fun r s => r.elim (fun b' => I b' s) (fun c => Q c s)))
    (b : β) : Triple X (I b) (Prog.iterate body b) Q := by
  have key : ∀ n b, Triple X (I b) (Prog.iterateN body n b) Q := by
    intro n
    induction n with
    | zero => exact fun b s _ hs _ => hC b s hs
    | succ n ih =>
      intro b
      refine Triple.bind (hbody b) ?_
      rintro (b' | c)
      · exact ih b'
      · exact Triple.pure fun _ h => h
  exact fun s ans hs hA => key (ans.length + 1) b s ans hs hA

/-- A pure fact of the precondition may be assumed once and for all. -/
theorem Triple.assume {φ : Prop} {P : σ → Prop} {m : Prog ω σ α} {Q : α → σ → Prop}
    (h : φ → Triple X P m Q) : Triple X (fun s => φ ∧ P s) m Q :=
  fun s ans hs hA => h hs.1 s ans hs.2 hA

theorem Triple.exists_pre {ι : Type} {P : ι → σ → Prop} {m : Prog ω σ α} {Q : α → σ → Prop}
    (h : ∀ i, Triple X (P i) m Q) : Triple X (fun s => ∃ i, P i s) m Q :=
  fun s ans ⟨i, hi⟩ hA => h i s ans hi hA

/-- What a function of the state is at the start may be given a name. -/
theorem Triple.ghost {ι : Type} {P : σ → Prop} {m : Prog ω σ α} {Q : α → σ → Prop} (g : σ → ι)
    (h : ∀ i, Triple X (fun s => P s ∧ g s = i) m Q) : Triple X P m Q :=
  fun s ans hs hA => h (g s) s ans ⟨hs, rfl⟩ hA

theorem Triple.ite {φ : Prop} [Decidable φ] {P : σ → Prop} {m m' : Prog ω σ α}
    {Q : α → σ → Prop} (ht : φ → Triple X P m Q) (he : ¬ φ → Triple X P m' Q) :
    Triple X P (if φ then m else m') Q := by
  by_cases h : φ
  · rw [if_pos h]; exact ht h
  · rw [if_neg h]; exact he h

theorem Triple.when {φ : Prop} [Decidable φ] {P : σ → Prop} {m : Prog ω σ Unit}
    {Q : Unit → σ → Prop} (ht : φ → Triple X P m Q) (he : ¬ φ → ∀ s, P s → Q () s) :
    Triple X P (Prog.when φ m) Q :=
  Triple.ite ht fun h => Triple.pure (he h)

/-! ## How many answers are read -/

/-- The program makes `k` calls, whatever they are answered. -/
def Prog.Asks (k : ℕ) (m : Prog ω σ α) : Prop :=
  ∀ s ans, match m s ans with
    | .done _ _ rest => k ≤ ans.length ∧ rest = ans.drop k
    | .stopped _ => ans.length < k
    | .fault => True

theorem Prog.Asks.pure {a : α} : Prog.Asks 0 (pure a : Prog ω σ α) :=
  fun _ _ => ⟨Nat.zero_le _, rfl⟩

theorem Prog.Asks.get : Prog.Asks 0 (Prog.get : Prog ω σ σ) := fun _ _ => ⟨Nat.zero_le _, rfl⟩

theorem Prog.Asks.modify {f : σ → σ} : Prog.Asks 0 (Prog.modify f : Prog ω σ Unit) :=
  fun _ _ => ⟨Nat.zero_le _, rfl⟩

theorem Prog.Asks.step {f : σ → Option (σ × α)} : Prog.Asks 0 (Prog.step f : Prog ω σ α) := by
  intro s ans
  unfold Prog.step
  cases f s with
  | none => trivial
  | some p => exact ⟨Nat.zero_le _, rfl⟩

theorem Prog.Asks.ask : Prog.Asks 1 (Prog.ask : Prog ω σ ω) := by
  intro s ans
  cases ans with
  | nil => exact Nat.zero_lt_one
  | cons x rest => exact ⟨Nat.succ_le_succ (Nat.zero_le _), rfl⟩

theorem Prog.Asks.bind {j k : ℕ} {m : Prog ω σ α} {f : α → Prog ω σ β} (hm : Prog.Asks j m)
    (hf : ∀ a, Prog.Asks k (f a)) : Prog.Asks (j + k) (m >>= f) := by
  intro s ans
  have h := hm s ans
  rw [Prog.bind_run]
  cases hr : m s ans with
  | fault => trivial
  | stopped s' =>
    rw [hr] at h
    show ans.length < j + k
    exact Nat.lt_add_right k h
  | done a s' rest =>
    rw [hr] at h
    obtain ⟨hle, rfl⟩ := h
    have h' := hf a s' (ans.drop j)
    dsimp only
    cases hr' : f a s' (ans.drop j) with
    | fault => trivial
    | stopped s'' =>
      rw [hr', List.length_drop] at h'
      show ans.length < j + k
      omega
    | done b s'' rest' =>
      rw [hr', List.length_drop, List.drop_drop] at h'
      exact ⟨by omega, h'.2⟩

/-- Behind a part that makes no call. -/
theorem Prog.Asks.after {k : ℕ} {m : Prog ω σ α} {f : α → Prog ω σ β} (hm : Prog.Asks 0 m)
    (hf : ∀ a, Prog.Asks k (f a)) : Prog.Asks k (m >>= f) := by
  have h := Prog.Asks.bind hm hf
  rwa [Nat.zero_add] at h

theorem Prog.Asks.when {φ : Prop} [Decidable φ] {m : Prog ω σ Unit} (h : Prog.Asks 0 m) :
    Prog.Asks 0 (Prog.when φ m) := by
  unfold Prog.when
  split
  · exact h
  · exact Prog.Asks.pure

/-- A program that may not fault returns if there are answers enough, and
waits for the next one otherwise. -/
theorem Triple.run_asks {k : ℕ} {P : σ → Prop} {m : Prog ω σ α} {Q : α → σ → Prop}
    (h : Triple X P m Q) (hX : ¬ X.mayFault) (hm : Prog.Asks k m) {s : σ} (hP : P s)
    (ans : List ω) (hA : ∀ x ∈ ans, X.answers x) :
    if k ≤ ans.length then ∃ a s', m s ans = .done a s' (ans.drop k) ∧ Q a s'
    else ∃ s', m s ans = .stopped s' := by
  have hrun := h s ans hP hA
  have hasks := hm s ans
  cases hr : m s ans with
  | fault =>
    rw [hr] at hrun
    exact absurd hrun hX
  | stopped s' =>
    rw [hr] at hasks
    rw [if_neg (Nat.not_le.mpr hasks)]
    exact ⟨s', rfl⟩
  | done a s' rest =>
    rw [hr] at hasks hrun
    obtain ⟨hle, rfl⟩ := hasks
    rw [if_pos hle]
    exact ⟨a, s', rfl, hrun.1⟩

/-- The program makes at most `k` calls, whatever they are answered. -/
def Prog.AtMost (k : ℕ) (m : Prog ω σ α) : Prop :=
  ∀ s ans, match m s ans with
    | .done _ _ rest => ans.length ≤ rest.length + k
    | .stopped _ => ans.length < k
    | .fault => True

theorem Prog.Asks.atMost {k : ℕ} {m : Prog ω σ α} (h : Prog.Asks k m) : Prog.AtMost k m := by
  intro s ans
  have hasks := h s ans
  cases hr : m s ans with
  | fault => trivial
  | stopped s' =>
    rw [hr] at hasks
    exact hasks
  | done a s' rest =>
    rw [hr] at hasks
    obtain ⟨_, rfl⟩ := hasks
    show ans.length ≤ (ans.drop k).length + k
    rw [List.length_drop]
    omega

theorem Prog.AtMost.mono {j k : ℕ} {m : Prog ω σ α} (h : Prog.AtMost j m) (hjk : j ≤ k) :
    Prog.AtMost k m := by
  intro s ans
  have hmost := h s ans
  cases hr : m s ans with
  | fault => trivial
  | stopped s' =>
    rw [hr] at hmost
    exact Nat.lt_of_lt_of_le hmost hjk
  | done a s' rest =>
    rw [hr] at hmost
    exact Nat.le_trans hmost (Nat.add_le_add_left hjk _)

theorem Prog.AtMost.bind {j k : ℕ} {m : Prog ω σ α} {f : α → Prog ω σ β} (hm : Prog.AtMost j m)
    (hf : ∀ a, Prog.AtMost k (f a)) : Prog.AtMost (j + k) (m >>= f) := by
  intro s ans
  have h := hm s ans
  rw [Prog.bind_run]
  cases hr : m s ans with
  | fault => trivial
  | stopped s' =>
    rw [hr] at h
    exact Nat.lt_add_right k h
  | done a s' rest =>
    rw [hr] at h
    have h' := hf a s' rest
    dsimp only at h ⊢
    cases hr' : f a s' rest with
    | fault => trivial
    | stopped s'' =>
      rw [hr'] at h'
      show ans.length < j + k
      exact Nat.lt_of_le_of_lt h (by dsimp only at h'; omega)
    | done b s'' rest' =>
      rw [hr'] at h'
      show ans.length ≤ rest'.length + (j + k)
      dsimp only at h'
      omega

theorem Prog.AtMost.ite {φ : Prop} [Decidable φ] {k : ℕ} {m m' : Prog ω σ α}
    (ht : Prog.AtMost k m) (he : Prog.AtMost k m') : Prog.AtMost k (if φ then m else m') := by
  split
  · exact ht
  · exact he

/-- With that many answers a program that may not fault returns. -/
theorem Triple.returns {k : ℕ} {P : σ → Prop} {m : Prog ω σ α} {Q : α → σ → Prop}
    (h : Triple X P m Q) (hX : ¬ X.mayFault) (hm : Prog.AtMost k m) {s : σ} (hP : P s)
    {ans : List ω} (hA : ∀ x ∈ ans, X.answers x) (hlen : k ≤ ans.length) :
    (m s ans).Returns Q := by
  have hrun := h s ans hP hA
  have hmost := hm s ans
  cases hr : m s ans with
  | fault =>
    rw [hr] at hrun
    exact absurd hrun hX
  | stopped s' =>
    rw [hr] at hmost
    exact absurd hmost (Nat.not_lt.mpr hlen)
  | done a s' rest =>
    rw [hr] at hrun
    exact ⟨a, s', rest, hrun.1⟩

end Logic

end Sgopher.Lib
