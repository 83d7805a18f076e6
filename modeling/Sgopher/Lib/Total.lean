/-
Sgopher.Lib.Total — programs that return.

A triple says what a run may rely on and what it keeps, wherever it gets
to; it does not say that the run gets to its end. `Total P m Q` does: from
a state and answers in `P` the program returns, in `Q`. Since the answers
are in pre- and postcondition, an assumption may be about their order and
their number, and not only about each of them alone.

The loop rule asks every turn that goes on to read an answer. That no
program gives answers back is part of the judgement, so that a turn has
read one if it did so anywhere.

No `sorry`, no `axiom`, no `native_decide`.
-/
import Sgopher.Lib.Program

namespace Sgopher.Lib

variable {ω σ α β γ : Type}

/-- From `P` the program returns, with `Q`, and with no more answers than
it was given. -/
def Total (P : σ → List ω → Prop) (m : Prog ω σ α) (Q : α → σ → List ω → Prop) : Prop :=
  ∀ s ans, P s ans → ∃ a s' rest, m s ans = .done a s' rest ∧ rest.length ≤ ans.length ∧ Q a s' rest

namespace Total

variable {P : σ → List ω → Prop} {m : Prog ω σ α} {Q : α → σ → List ω → Prop}

theorem pre {P' : σ → List ω → Prop} (h : Total P m Q) (hP : ∀ s ans, P' s ans → P s ans) :
    Total P' m Q :=
  fun s ans hs => h s ans (hP s ans hs)

theorem pure {a : α} (h : ∀ s ans, P s ans → Q a s ans) :
    Total P (Pure.pure a : Prog ω σ α) Q :=
  fun s ans hs => ⟨a, s, ans, rfl, Nat.le_refl _, h s ans hs⟩

theorem bind {R : α → σ → List ω → Prop} {f : α → Prog ω σ β} {S : β → σ → List ω → Prop}
    (hm : Total P m R) (hf : ∀ a, Total (R a) (f a) S) : Total P (m >>= f) S := by
  intro s ans hs
  obtain ⟨a, s', rest, hrun, hlen, hr⟩ := hm s ans hs
  obtain ⟨b, s'', rest', hrun', hlen', hq⟩ := hf a s' rest hr
  exact ⟨b, s'', rest', (Prog.bind_done hrun).trans hrun', Nat.le_trans hlen' hlen, hq⟩

/-- A call, of which the answer is there. -/
theorem ask {Q : ω → σ → List ω → Prop}
    (h : ∀ s ans, P s ans → ∃ x rest, ans = x :: rest ∧ Q x s rest) : Total P Prog.ask Q := by
  intro s ans hs
  obtain ⟨x, rest, rfl, hq⟩ := h s ans hs
  exact ⟨x, s, rest, rfl, Nat.le_succ _, hq⟩

theorem get : Total P (Prog.get : Prog ω σ σ) (fun a s ans => P s ans ∧ a = s) :=
  fun s ans hs => ⟨s, s, ans, rfl, Nat.le_refl _, hs, rfl⟩

theorem modify {f : σ → σ} {Q : Unit → σ → List ω → Prop}
    (h : ∀ s ans, P s ans → Q () (f s) ans) : Total P (Prog.modify f : Prog ω σ Unit) Q :=
  fun s ans hs => ⟨(), f s, ans, rfl, Nat.le_refl _, h s ans hs⟩

theorem ite {φ : Prop} [Decidable φ] {m' : Prog ω σ α} (ht : φ → Total P m Q)
    (he : ¬ φ → Total P m' Q) : Total P (if φ then m else m') Q := by
  by_cases h : φ
  · rw [if_pos h]
    exact ht h
  · rw [if_neg h]
    exact he h

theorem when {φ : Prop} [Decidable φ] {m : Prog ω σ Unit} {Q : Unit → σ → List ω → Prop}
    (ht : φ → Total P m Q) (he : ¬ φ → ∀ s ans, P s ans → Q () s ans) :
    Total P (Prog.when φ m) Q :=
  Total.ite ht fun h => Total.pure (he h)

/-- What is pure in a precondition may be assumed. -/
theorem assume {φ : Prop} (h : φ → Total P m Q) : Total (fun s ans => φ ∧ P s ans) m Q :=
  fun s ans hs => h hs.1 s ans hs.2

/-- The loop rule: `I` holds at the head of every turn, and a turn that
goes on has read an answer. -/
theorem iterate {I : β → σ → List ω → Prop} {body : β → Prog ω σ (β ⊕ γ)}
    {Q : γ → σ → List ω → Prop}
    (hbody : ∀ b n, Total (fun s ans => I b s ans ∧ ans.length = n) (body b)
      (fun r s rest => r.elim (fun b' => I b' s rest ∧ rest.length < n) (fun c => Q c s rest)))
    (b : β) : Total (I b) (Prog.iterate body b) Q := by
  have key : ∀ fuel b s ans, ans.length < fuel → I b s ans → ∃ c s' rest,
      Prog.iterateN body fuel b s ans = .done c s' rest ∧ rest.length ≤ ans.length ∧
        Q c s' rest := by
    intro fuel
    induction fuel with
    | zero => exact fun _ _ _ h _ => absurd h (Nat.not_lt_zero _)
    | succ fuel ih =>
      intro b s ans hlen hI
      obtain ⟨r, s', rest, hrun, hle, hr⟩ := hbody b ans.length s ans ⟨hI, rfl⟩
      rw [Prog.iterateN_succ, hrun]
      cases r with
      | inl b' =>
        obtain ⟨hI', hlt⟩ := hr
        obtain ⟨c, s'', rest', hrun', hle', hq⟩ := ih b' s' rest (by omega) hI'
        exact ⟨c, s'', rest', hrun', by omega, hq⟩
      | inr c => exact ⟨c, s', rest, rfl, hle, hr⟩
  exact fun s ans hI => key (ans.length + 1) b s ans (Nat.lt_succ_self _) hI

end Total

end Sgopher.Lib
