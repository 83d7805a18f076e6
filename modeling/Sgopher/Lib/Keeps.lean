/-
Sgopher.Lib.Keeps — what a program leaves alone.

`Prog.Keeps A I m` says that under answers in `A` the program keeps `I`,
wherever it gets to; that it may fault is excused. It is the triple with
one and the same predicate at every place, so its rules need no
intermediate conditions, and a program of many parts keeps what each part
does. A frame property is proved once for the calls a program is made of
and handed up.

No `sorry`, no `axiom`, no `native_decide`.
-/
import Sgopher.Lib.Program

namespace Sgopher.Lib

variable {ω σ α β γ : Type}

/-- The contract of a program that is only to keep a property. -/
def Contract.keeping (A : ω → Prop) (I : σ → Prop) : Contract ω σ where
  answers := A
  waits := I
  mayFault := True

/-- From `I`, under answers in `A`, every state the program gets to is in
`I`. -/
def Prog.Keeps (A : ω → Prop) (I : σ → Prop) (m : Prog ω σ α) : Prop :=
  Triple (.keeping A I) I m fun _ => I

namespace Prog.Keeps

variable {A : ω → Prop} {I : σ → Prop} {m m' : Prog ω σ α}

theorem pure (a : α) : Keeps A I (Pure.pure a : Prog ω σ α) := Triple.pure fun _ h => h

theorem bind {f : α → Prog ω σ β} (hm : Keeps A I m) (hf : ∀ a, Keeps A I (f a)) :
    Keeps A I (m >>= f) := Triple.bind hm hf

theorem ask : Keeps A I (Prog.ask : Prog ω σ ω) := Triple.ask (fun _ h => h) fun _ _ h _ => h

/-- A call, of whose answer something is known. -/
theorem bind_ask {f : ω → Prog ω σ β} (hf : ∀ x, A x → Keeps A I (f x)) :
    Keeps A I (Prog.ask >>= f) := by
  refine Triple.bind (R := fun x s => A x ∧ I s)
    (Triple.ask (fun _ h => h) fun _ _ h hx => ⟨hx, h⟩) fun x => ?_
  exact Triple.assume fun hx => hf x hx

theorem get : Keeps A I (Prog.get : Prog ω σ σ) := Triple.get.post fun _ _ h => h.1

theorem modify {f : σ → σ} (h : ∀ s, I s → I (f s)) :
    Keeps A I (Prog.modify f : Prog ω σ Unit) := Triple.modify h

theorem step {f : σ → Option (σ × α)} (h : ∀ s s' a, I s → f s = some (s', a) → I s') :
    Keeps A I (Prog.step f : Prog ω σ α) := Triple.step_partial trivial h

/-- A step that looks something up. -/
theorem step_map {look : σ → Option β} {k : σ → β → σ × α}
    (h : ∀ s b, I s → look s = some b → I (k s b).1) :
    Keeps A I (Prog.step fun s => (look s).map (k s)) := Triple.step_map trivial h

theorem ite {φ : Prop} [Decidable φ] (ht : Keeps A I m) (he : Keeps A I m') :
    Keeps A I (if φ then m else m') := Triple.ite (fun _ => ht) fun _ => he

theorem when {φ : Prop} [Decidable φ] {m : Prog ω σ Unit} (h : Keeps A I m) :
    Keeps A I (Prog.when φ m) := ite h (pure ())

theorem iterate {body : β → Prog ω σ (β ⊕ γ)} (h : ∀ b, Keeps A I (body b)) (b : β) :
    Keeps A I (Prog.iterate body b) := by
  refine Triple.iterate (I := fun _ => I) (fun _ _ h => h) (fun b => ?_) b
  refine (h b).post fun r s hs => ?_
  cases r <;> exact hs

/-- Wherever the program gets to, the property holds. -/
theorem always (h : Keeps A I m) {s : σ} (hs : I s) {ans : List ω} (hA : ∀ x ∈ ans, A x) :
    (m s ans).Always I :=
  (h s ans hs hA).always (fun _ h => h) fun _ _ h => h

/-- A triple under which the property is kept too. -/
theorem triple (h : Keeps A I m) {X : Contract ω σ} {P : σ → Prop} {Q : α → σ → Prop}
    (ht : Triple X P m Q) (ha : ∀ x, X.answers x → A x) :
    Triple { X with waits := fun s => X.waits s ∧ I s } (fun s => P s ∧ I s) m
      (fun a s => Q a s ∧ I s) := by
  intro s ans ⟨hP, hI⟩ hA
  have hrun := ht s ans hP hA
  have hkeep := h s ans hI fun x hx => ha x (hA x hx)
  cases hr : m s ans with
  | done a s' rest =>
    rw [hr] at hrun hkeep
    exact ⟨⟨hrun.1, hkeep.1⟩, hrun.2⟩
  | stopped s' =>
    rw [hr] at hrun hkeep
    exact ⟨hrun, hkeep⟩
  | fault =>
    rw [hr] at hrun
    exact hrun

/-- What a triple says, where the property is kept under answers that are
more than it needs. -/
theorem under (h : Keeps A I m) {X : Contract ω σ} {P : σ → Prop} {Q : α → σ → Prop}
    (ht : Triple X P m Q) (ha : ∀ x, A x → X.answers x) :
    Triple (.keeping A fun s => X.waits s ∧ I s) (fun s => P s ∧ I s) m
      (fun a s => Q a s ∧ I s) := by
  rintro s ans ⟨hP, hI⟩ hA
  have hrun := ht s ans hP fun x hx => ha x (hA x hx)
  have hkeep := h s ans hI hA
  cases hr : m s ans with
  | done a s' rest =>
    rw [hr] at hrun hkeep
    exact ⟨⟨hrun.1, hkeep.1⟩, hkeep.2⟩
  | stopped s' =>
    rw [hr] at hrun hkeep
    exact ⟨hrun, hkeep⟩
  | fault => trivial

end Prog.Keeps

end Sgopher.Lib
