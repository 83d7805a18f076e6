/-
Sgopher.Lib.Simulation — two programs run side by side under the same
answers.

`Sim R K m m' S` says that from related states, whatever the environment
answers, the two programs end the same way: both return, with the same
answers left and results and states in `S`; or both wait, in states that
`K` relates. Neither faults. It is the relational counterpart of
`Triple`, with the same rules, and it is how a program is shown to
refine a simpler one that serves as its specification.

No `sorry`, no `axiom`, no `native_decide`.
-/
import Sgopher.Lib.Program

namespace Sgopher.Lib

variable {ω σ τ α β γ δ : Type} {K : σ → τ → Prop}

/-- Two runs end alike. -/
def Outcome.Alike (K : σ → τ → Prop) (S : α → β → σ → τ → Prop) :
    Outcome ω σ α → Outcome ω τ β → Prop
  | .done a s rest, .done b t rest' => rest = rest' ∧ S a b s t
  | .stopped s, .stopped t => K s t
  | _, _ => False

/-- The two programs simulate each other from states in `R`. -/
def Sim (R K : σ → τ → Prop) (m : Prog ω σ α) (m' : Prog ω τ β)
    (S : α → β → σ → τ → Prop) : Prop :=
  ∀ s t ans, R s t → (m s ans).Alike K S (m' t ans)

theorem Sim.conseq {R R' : σ → τ → Prop} {m : Prog ω σ α} {m' : Prog ω τ β}
    {S S' : α → β → σ → τ → Prop} (h : Sim R K m m' S) (hR : ∀ s t, R' s t → R s t)
    (hS : ∀ a b s t, S a b s t → S' a b s t) : Sim R' K m m' S' := by
  intro s t ans hr
  have := h s t ans (hR s t hr)
  revert this
  cases m s ans with
  | done a s' rest =>
    cases m' t ans with
    | done b t' rest' => exact fun ⟨he, hs⟩ => ⟨he, hS a b s' t' hs⟩
    | stopped t' => exact False.elim
    | fault => exact False.elim
  | stopped s' =>
    cases m' t ans with
    | done b t' rest' => exact False.elim
    | stopped t' => exact id
    | fault => exact False.elim
  | fault => cases m' t ans <;> exact False.elim

theorem Sim.pure {R : σ → τ → Prop} {S : α → β → σ → τ → Prop} {a : α} {b : β}
    (h : ∀ s t, R s t → S a b s t) : Sim R K (pure a : Prog ω σ α) (pure b : Prog ω τ β) S :=
  fun s t _ hr => ⟨rfl, h s t hr⟩

theorem Sim.bind {R : σ → τ → Prop} {m : Prog ω σ α} {m' : Prog ω τ β}
    {T : α → β → σ → τ → Prop} {f : α → Prog ω σ γ} {f' : β → Prog ω τ δ}
    {S : γ → δ → σ → τ → Prop} (hm : Sim R K m m' T)
    (hf : ∀ a b, Sim (T a b) K (f a) (f' b) S) : Sim R K (m >>= f) (m' >>= f') S := by
  intro s t ans hr
  have := hm s t ans hr
  rw [Prog.bind_run, Prog.bind_run]
  revert this
  cases m s ans with
  | done a s' rest =>
    cases m' t ans with
    | done b t' rest' => rintro ⟨rfl, ht⟩; exact hf a b s' t' rest ht
    | stopped t' => exact False.elim
    | fault => exact False.elim
  | stopped s' =>
    cases m' t ans with
    | done b t' rest' => exact False.elim
    | stopped t' => exact id
    | fault => exact False.elim
  | fault => cases m' t ans <;> exact False.elim

/-- Both programs make a call and get the same answer. -/
theorem Sim.ask {R : σ → τ → Prop} {S : ω → ω → σ → τ → Prop}
    (hK : ∀ s t, R s t → K s t) (h : ∀ x s t, R s t → S x x s t) :
    Sim R K (Prog.ask : Prog ω σ ω) (Prog.ask : Prog ω τ ω) S := by
  intro s t ans hr
  cases ans with
  | nil => exact hK s t hr
  | cons x rest => exact ⟨rfl, h x s t hr⟩

theorem Sim.modify {R : σ → τ → Prop} {f : σ → σ} {g : τ → τ}
    {S : Unit → Unit → σ → τ → Prop} (h : ∀ s t, R s t → S () () (f s) (g t)) :
    Sim R K (Prog.modify f : Prog ω σ Unit) (Prog.modify g : Prog ω τ Unit) S :=
  fun s t _ hr => ⟨rfl, h s t hr⟩

theorem Sim.get {R : σ → τ → Prop} :
    Sim R K (Prog.get : Prog ω σ σ) (Prog.get : Prog ω τ τ)
      (fun a b s t => R s t ∧ a = s ∧ b = t) :=
  fun _ _ _ hr => ⟨rfl, hr, rfl, rfl⟩

/-- Two steps without a call; the concrete one must not fault. -/
theorem Sim.step {R : σ → τ → Prop} {f : σ → Option (σ × α)} {g : τ → Option (τ × β)}
    {S : α → β → σ → τ → Prop}
    (h : ∀ s t, R s t → ∃ s' a t' b, f s = some (s', a) ∧ g t = some (t', b) ∧ S a b s' t') :
    Sim R K (Prog.step f : Prog ω σ α) (Prog.step g : Prog ω τ β) S := by
  intro s t ans hr
  obtain ⟨s', a, t', b, hf, hg, hs⟩ := h s t hr
  rw [Prog.step_done hf, Prog.step_done hg]
  exact ⟨rfl, hs⟩

/-- After a turn both loops go on, in `I`, or both leave, in `S`. -/
def Turns (I : α → β → σ → τ → Prop) (S : γ → δ → σ → τ → Prop) :
    α ⊕ γ → β ⊕ δ → σ → τ → Prop
  | .inl a, .inl b => I a b
  | .inr c, .inr d => S c d
  | _, _ => fun _ _ => False

/-- The loop rule: the heads of the two loops stay related by `I`. -/
theorem Sim.iterate {I : α → β → σ → τ → Prop} {body : α → Prog ω σ (α ⊕ γ)}
    {body' : β → Prog ω τ (β ⊕ δ)} {S : γ → δ → σ → τ → Prop}
    (hK : ∀ a b s t, I a b s t → K s t)
    (hbody : ∀ a b, Sim (I a b) K (body a) (body' b) (Turns I S))
    (a : α) (b : β) : Sim (I a b) K (Prog.iterate body a) (Prog.iterate body' b) S := by
  have key : ∀ n a b, Sim (I a b) K (Prog.iterateN body n a) (Prog.iterateN body' n b) S := by
    intro n
    induction n with
    | zero => exact fun a b s t _ hr => hK a b s t hr
    | succ n ih =>
      intro a b
      refine Sim.bind (hbody a b) ?_
      rintro (a' | c) (b' | d)
      · exact ih a' b'
      · exact fun _ _ _ h => h.elim
      · exact fun _ _ _ h => h.elim
      · exact Sim.pure fun _ _ h => h
  exact fun s t ans hr => key (ans.length + 1) a b s t ans hr

theorem Sim.ite {φ : Prop} [Decidable φ] {R : σ → τ → Prop} {m n : Prog ω σ α}
    {m' n' : Prog ω τ β} {S : α → β → σ → τ → Prop} (ht : φ → Sim R K m m' S)
    (he : ¬ φ → Sim R K n n' S) :
    Sim R K (if φ then m else n) (if φ then m' else n') S := by
  by_cases h : φ
  · simp only [if_pos h]; exact ht h
  · simp only [if_neg h]; exact he h

end Sgopher.Lib
