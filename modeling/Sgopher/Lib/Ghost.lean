/-
Sgopher.Lib.Ghost — programs that keep an account of themselves.

A program over a larger state may do more than one over a part of it, as
long as the part does not notice: `Prog.Erases` says that each run of the
one is a run of the other, as far as the part can see. `Prog.within` runs
a program on the part, so that an account has to be kept only where there
is something to write down, and everything else is taken over as it is,
with its triples (`Triple.within`).

A program over one kind of answers runs in a program over a larger kind if
it reads only a part of each (`Prog.via`). What a triple says of it holds
there as well: the contract is the same one, read through that part.

No `sorry`, no `axiom`, no `native_decide`.
-/
import Sgopher.Lib.Program

namespace Sgopher.Lib

variable {ω σ τ α β γ : Type}

/-! ## A part of the state -/

/-- A part of a state that can be read and replaced. -/
structure Part (τ σ : Type) where
  get : τ → σ
  set : τ → σ → τ
  get_set : ∀ t s, get (set t s) = s

/-- The end of a run, as a function of the state sees it. -/
def Outcome.map (f : τ → σ) : Outcome ω τ α → Outcome ω σ α
  | .done a t rest => .done a (f t) rest
  | .stopped t => .stopped (f t)
  | .fault => .fault

/-- Run a program on a part of the state. -/
def Prog.within (v : Part τ σ) (m : Prog ω σ α) : Prog ω τ α := fun t ans =>
  (m (v.get t) ans).map (v.set t)

/-- Of every run of the one program the part sees the run of the other. -/
def Prog.Erases (v : Part τ σ) (m : Prog ω τ α) (m' : Prog ω σ α) : Prop :=
  ∀ t ans, (m t ans).map v.get = m' (v.get t) ans

variable {v : Part τ σ}

theorem Prog.within_done {m : Prog ω σ α} {t : τ} {s : σ} {ans rest : List ω} {a : α}
    (h : m (v.get t) ans = .done a s rest) :
    Prog.within v m t ans = .done a (v.set t s) rest := by
  rw [Prog.within, h]
  rfl

theorem Prog.AtMost.within {k : ℕ} {m : Prog ω σ α} (h : Prog.AtMost k m) :
    Prog.AtMost k (Prog.within v m) := by
  intro t ans
  have hmost := h (v.get t) ans
  unfold Prog.within
  cases hr : m (v.get t) ans with
  | done a s rest => rw [hr] at hmost; exact hmost
  | stopped s => rw [hr] at hmost; exact hmost
  | fault => trivial

/-! ## The rules -/

namespace Prog.Erases

theorem within (m : Prog ω σ α) : Erases v (Prog.within v m) m := by
  intro t ans
  unfold Prog.within
  cases m (v.get t) ans with
  | done a s rest => exact congrArg (Outcome.done a · rest) (v.get_set t s)
  | stopped s => exact congrArg Outcome.stopped (v.get_set t s)
  | fault => rfl

theorem pure (a : α) : Erases v (Pure.pure a : Prog ω τ α) (Pure.pure a) := fun _ _ => rfl

theorem bind {m : Prog ω τ α} {m' : Prog ω σ α} {f : α → Prog ω τ β} {f' : α → Prog ω σ β}
    (hm : Erases v m m') (hf : ∀ a, Erases v (f a) (f' a)) : Erases v (m >>= f) (m' >>= f') := by
  intro t ans
  rw [Prog.bind_run, Prog.bind_run, ← hm t ans]
  cases m t ans with
  | done a t' rest => exact hf a t' rest
  | stopped t' => rfl
  | fault => rfl

theorem ask : Erases v (Prog.ask : Prog ω τ ω) Prog.ask := by
  intro t ans
  cases ans <;> rfl

theorem step {f : τ → Option (τ × α)} {f' : σ → Option (σ × α)}
    (h : ∀ t, (f t).map (fun p => (v.get p.1, p.2)) = f' (v.get t)) :
    Erases v (Prog.step f : Prog ω τ α) (Prog.step f') := by
  intro t ans
  unfold Prog.step
  rw [← h t]
  cases f t <;> rfl

theorem modify {f : τ → τ} {f' : σ → σ} (h : ∀ t, v.get (f t) = f' (v.get t)) :
    Erases v (Prog.modify f : Prog ω τ Unit) (Prog.modify f') :=
  fun t ans => congrArg (Outcome.done () · ans) (h t)

/-- What the part does not notice may be left out. -/
theorem noting {f : τ → τ} {m : Prog ω τ α} {m' : Prog ω σ α} (hf : ∀ t, v.get (f t) = v.get t)
    (hm : Erases v m m') :
    Erases v
      (do
        Prog.modify f
        m) m' := by
  intro t ans
  show (m (f t) ans).map v.get = _
  rw [hm (f t) ans, hf]

theorem ite {φ : Prop} [Decidable φ] {m n : Prog ω τ α} {m' n' : Prog ω σ α}
    (ht : Erases v m m') (he : Erases v n n') :
    Erases v (if φ then m else n) (if φ then m' else n') := by
  split
  · exact ht
  · exact he

theorem when {φ : Prop} [Decidable φ] {m : Prog ω τ Unit} {m' : Prog ω σ Unit}
    (h : Erases v m m') : Erases v (Prog.when φ m) (Prog.when φ m') :=
  ite h (pure ())

theorem iterate {body : β → Prog ω τ (β ⊕ γ)} {body' : β → Prog ω σ (β ⊕ γ)}
    (h : ∀ b, Erases v (body b) (body' b)) (b : β) :
    Erases v (Prog.iterate body b) (Prog.iterate body' b) := by
  have key : ∀ n b, Erases v (Prog.iterateN body n b) (Prog.iterateN body' n b) := by
    intro n
    induction n with
    | zero => exact fun _ _ _ => rfl
    | succ n ih =>
      intro b
      refine bind (h b) ?_
      rintro (b' | c)
      · exact ih b'
      · exact pure c
  exact fun t ans => key (ans.length + 1) b t ans

end Prog.Erases

/-! ## Triples -/

/-- The answers one contract relies on are those another one does. -/
theorem Triple.within {X : Contract ω σ} {Y : Contract ω τ} {P : σ → Prop} {m : Prog ω σ α}
    {Q : α → σ → Prop} {T : τ → Prop} (h : Triple X P m Q) (ha : Y.answers = X.answers)
    (hw : ∀ t s, T t → X.waits s → Y.waits (v.set t s)) (hf : X.mayFault → Y.mayFault) :
    Triple Y (fun t => P (v.get t) ∧ T t) (Prog.within v m)
      (fun a t' => ∃ t s, t' = v.set t s ∧ T t ∧ Q a s) := by
  intro t ans ⟨hP, hT⟩ hA
  rw [ha] at hA
  have hrun := h (v.get t) ans hP hA
  unfold Prog.within
  cases hr : m (v.get t) ans with
  | done a s rest =>
    rw [hr] at hrun
    exact ⟨⟨t, s, rfl, hT, hrun.1⟩, ha ▸ hrun.2⟩
  | stopped s =>
    rw [hr] at hrun
    exact hw t s hT hrun
  | fault =>
    rw [hr] at hrun
    exact hf hrun

/-- What a contract says of a part. -/
def Contract.over (v : Part τ σ) (X : Contract ω σ) : Contract ω τ where
  answers := X.answers
  waits := fun t => X.waits (v.get t)
  mayFault := X.mayFault

/-- What holds of a program holds of one that keeps an account besides. -/
theorem Triple.over {X : Contract ω σ} {P : σ → Prop} {m : Prog ω τ α} {m' : Prog ω σ α}
    {Q : α → σ → Prop} (he : Prog.Erases v m m') (h : Triple X P m' Q) :
    Triple (X.over v) (fun t => P (v.get t)) m (fun a t => Q a (v.get t)) := by
  intro t ans hP hA
  have hrun := h (v.get t) ans hP hA
  rw [← he t ans] at hrun
  cases hr : m t ans with
  | done a t' rest => rw [hr] at hrun; exact hrun
  | stopped t' => rw [hr] at hrun; exact hrun
  | fault => rw [hr] at hrun; exact hrun

/-- Two contracts at once. -/
def Contract.both (X Y : Contract ω σ) : Contract ω σ where
  answers := X.answers
  waits := fun s => X.waits s ∧ Y.waits s
  mayFault := X.mayFault ∧ Y.mayFault

/-- What two triples say of one program holds together. -/
theorem Triple.both {X Y : Contract ω σ} {P P' : σ → Prop} {m : Prog ω σ α}
    {Q Q' : α → σ → Prop} (h : Triple X P m Q) (h' : Triple Y P' m Q')
    (ha : ∀ x, X.answers x → Y.answers x) :
    Triple (X.both Y) (fun s => P s ∧ P' s) m (fun a s => Q a s ∧ Q' a s) := by
  intro s ans ⟨hP, hP'⟩ hA
  have hrun := h s ans hP hA
  have hrun' := h' s ans hP' fun x hx => ha x (hA x hx)
  cases hr : m s ans with
  | done a s' rest =>
    rw [hr] at hrun hrun'
    exact ⟨⟨hrun.1, hrun'.1⟩, hrun.2⟩
  | stopped s' =>
    rw [hr] at hrun hrun'
    exact ⟨hrun, hrun'⟩
  | fault =>
    rw [hr] at hrun hrun'
    exact ⟨hrun, hrun'⟩

/-! ## A part of the answers -/

section Answers

variable {ω' : Type} {f : ω' → ω}

/-- Run a program that reads a part of each answer. -/
def Prog.via (f : ω' → ω) (m : Prog ω σ α) : Prog ω' σ α := fun s ans =>
  match m s (ans.map f) with
  | .done a s' rest => .done a s' (ans.drop (ans.length - rest.length))
  | .stopped s' => .stopped s'
  | .fault => .fault

/-- A contract, for a program that reads a part of each answer. -/
def Contract.via (f : ω' → ω) (X : Contract ω σ) : Contract ω' σ where
  answers := fun y => X.answers (f y)
  waits := X.waits
  mayFault := X.mayFault

theorem Triple.via {X : Contract ω σ} {P : σ → Prop} {m : Prog ω σ α} {Q : α → σ → Prop}
    (h : Triple X P m Q) : Triple (X.via f) P (Prog.via f m) Q := by
  intro s ans hP hA
  have hrun := h s (ans.map f) hP fun x hx => by
    obtain ⟨y, hy, rfl⟩ := List.mem_map.mp hx
    exact hA y hy
  unfold Prog.via
  cases hr : m s (ans.map f) with
  | done a s' rest =>
    rw [hr] at hrun
    exact ⟨hrun.1, fun y hy => hA y (List.mem_of_mem_drop hy)⟩
  | stopped s' =>
    rw [hr] at hrun
    exact hrun
  | fault =>
    rw [hr] at hrun
    exact hrun

/-- A part of the state and a part of each answer: what a triple says of
that part, and whatever else holds and does not look at it. -/
theorem Triple.embed {X : Contract ω σ} {Y : Contract ω' τ} {P : σ → Prop}
    {m : Prog ω σ α} {Q : α → σ → Prop} {T : τ → Prop} (h : Triple X P m Q)
    (hT : ∀ t s, T t → T (v.set t s)) (ha : ∀ y, Y.answers y → X.answers (f y))
    (hw : ∀ t, T t → X.waits (v.get t) → Y.waits t) (hf : X.mayFault → Y.mayFault) :
    Triple Y (fun t => P (v.get t) ∧ T t) (Prog.within v (Prog.via f m))
      (fun a t => Q a (v.get t) ∧ T t) := by
  intro t ans ⟨hP, ht⟩ hA
  have hrun := h.via (f := f) (v.get t) ans hP fun y hy => ha y (hA y hy)
  unfold Prog.within
  cases hr : Prog.via f m (v.get t) ans with
  | done a s rest =>
    rw [hr] at hrun
    refine ⟨⟨?_, hT t s ht⟩, fun y hy => ?_⟩
    · rw [v.get_set]
      exact hrun.1
    · -- what is left of the answers was there before
      unfold Prog.via at hr
      cases hm : m (v.get t) (ans.map f) with
      | done a' s' rest' =>
        rw [hm] at hr
        obtain ⟨-, -, rfl⟩ := Outcome.done.inj hr
        exact hA y (List.mem_of_mem_drop hy)
      | stopped s' => rw [hm] at hr; cases hr
      | fault => rw [hm] at hr; cases hr
  | stopped s =>
    rw [hr] at hrun
    exact hw _ (hT t s ht) (by rw [v.get_set]; exact hrun)
  | fault =>
    rw [hr] at hrun
    exact hf hrun

end Answers

end Sgopher.Lib
