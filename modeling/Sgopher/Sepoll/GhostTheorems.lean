/-
Sgopher.Sepoll.GhostTheorems — an event loop whose callbacks keep an
account of themselves.

The loop does not look at the state of the program that uses it. So if
each callback erases to one that keeps no account, `sepoll_enter` with the
first erases to `sepoll_enter` with the second.

For the same reason an invariant of the event loop without the account is
one with it, and what is said of the account besides has to be looked at
only for the callbacks (`EnterInv.ghost`).

No `sorry`, no `axiom`, no `native_decide`.
-/
import Sgopher.Lib.Ghost
import Sgopher.Sepoll.EnterTheorems

namespace Sgopher.Sepoll

open Sgopher.Lib

variable {F U ω σ τ α : Type} [LoopAnswers ω] {v : Part τ σ}

/-- A part of the program's own state, with the loop. -/
def World.part (v : Part τ σ) : Part (World F U τ) (World F U σ) where
  get w := ⟨w.loop, v.get w.own⟩
  set w s := ⟨s.loop, v.set w.own s.own⟩
  get_set w s := by rw [v.get_set]

omit [LoopAnswers ω] in
theorem onLoop_erases (f : Loop F U → Option (Loop F U × α)) :
    Prog.Erases (World.part v) (onLoop f : Prog ω (World F U τ) α) (onLoop f) := by
  refine Prog.Erases.step fun w => ?_
  show Option.map _ (Option.map _ (f w.loop)) = Option.map _ (f w.loop)
  rw [Option.map_map]
  rfl

theorem epollWait_erases (timeout : Int) :
    Prog.Erases (World.part v) (epollWait timeout : Prog ω (World F U τ) Int)
      (epollWait timeout) :=
  Prog.Erases.iterate (fun _ => Prog.Erases.bind Prog.Erases.ask fun _ => onLoop_erases _) ()

omit [LoopAnswers ω] in
theorem setRun_erases (run : Bool) :
    Prog.Erases (World.part v) (setRun run : Prog ω (World F U τ) Unit) (setRun run) :=
  Prog.Erases.modify fun _ => rfl

variable {call : F → UInt32 → U → U → Prog ω (World F U τ) Unit}
  {call' : F → UInt32 → U → U → Prog ω (World F U σ) Unit}

omit [LoopAnswers ω] in
theorem dispatch_erases
    (h : ∀ f events u1 u2,
      Prog.Erases (World.part v) (call f events u1 u2) (call' f events u1 u2)) :
    ∀ k i, Prog.Erases (World.part v) (dispatch call k i) (dispatch call' k i)
  | 0, _ => Prog.Erases.pure ()
  | k + 1, i => by
    refine Prog.Erases.bind (Prog.Erases.bind (onLoop_erases _) ?_) fun _ =>
      dispatch_erases h k (i + 1)
    rintro ⟨events, callback⟩
    cases hf : callback.function with
    | none =>
      simp only [hf]
      exact Prog.Erases.pure ()
    | some f =>
      simp only [hf]
      exact h f events _ _

theorem enterTurn_erases {timeout : Int}
    (h : ∀ f events u1 u2, Prog.Erases (World.part v) (call f events u1 u2) (call' f events u1 u2))
    (retval : Int) :
    Prog.Erases (World.part v) (enterTurn call timeout none retval)
      (enterTurn call' timeout none retval) := by
  have hafter : ∀ n retval : Int, Prog.Erases (World.part v)
      (afterWait none n retval : Prog ω (World F U τ) Int) (afterWait none n retval) := by
    intro n retval
    refine Prog.Erases.ite ?_ (Prog.Erases.ite ?_ (Prog.Erases.pure _)) <;>
      exact Prog.Erases.bind (setRun_erases false) fun _ => Prog.Erases.pure _
  have hturn : Prog.Erases (World.part v)
      (do
        let n ← epollWait timeout
        dispatch call n.toNat 0
        let retval ← afterWait none n retval
        onLoop fun l => l.collect.map fun l => (l, ())
        pure (.inl retval) : Prog ω (World F U τ) (Int ⊕ Int))
      (do
        let n ← epollWait timeout
        dispatch call' n.toNat 0
        let retval ← afterWait none n retval
        onLoop fun l => l.collect.map fun l => (l, ())
        pure (.inl retval)) :=
    Prog.Erases.bind (epollWait_erases timeout) fun n =>
      Prog.Erases.bind (dispatch_erases h n.toNat 0) fun _ =>
        Prog.Erases.bind (hafter n retval) fun _ =>
          Prog.Erases.bind (onLoop_erases _) fun _ => Prog.Erases.pure _
  intro w ans
  unfold enterTurn
  simp only [Prog.bind_run, Prog.get_run]
  have hloop : ((World.part v).get w).loop = w.loop := rfl
  rw [hloop]
  cases w.loop.run with
  | true => exact hturn w ans
  | false => rfl

/-- **The event loop takes no notice** of what its callbacks write down. -/
theorem sepollEnter_erases {timeout : Int}
    (h : ∀ f events u1 u2,
      Prog.Erases (World.part v) (call f events u1 u2) (call' f events u1 u2)) :
    Prog.Erases (World.part v) (sepollEnter call timeout none) (sepollEnter call' timeout none) :=
  Prog.Erases.bind (setRun_erases true) fun _ =>
    Prog.Erases.iterate (fun retval => enterTurn_erases h retval) 0

/-! ## An invariant and an account -/

/-- A property `T` of the account, which no callback breaks, may be added to
an invariant. -/
theorem EnterInv.ghost {X : Contract ω (World F U σ)} {Y : Contract ω (World F U τ)}
    {I : World F U σ → Prop} {T : World F U τ → Prop} {timeout : Int}
    (h : EnterInv X I call' timeout none)
    (he : ∀ f events u1 u2, Prog.Erases (World.part v) (call f events u1 u2) (call' f events u1 u2))
    (ha : ∀ x, X.answers x → Y.answers x) (hw : ∀ w, T w → Y.waits w)
    (hT : ∀ w l, T w → T (w.withLoop l))
    (hcall : ∀ e rest cb f, cb.function = some f →
      Triple Y
        (fun w' => ∃ w, (I ((World.part v).get w) ∧ T w) ∧ w.loop.pending = e :: rest ∧
          w.loop.heap.cell e.ptr = some cb ∧ w' = w.withLoop w.loop.popped)
        (call f e.events cb.userdata1 cb.userdata2) (fun _ => T)) :
    EnterInv ((X.over (World.part v)).both Y) (fun w => I ((World.part v).get w) ∧ T w) call
      timeout none where
  wf w hI := h.wf _ hI.1
  waits w hI := ⟨h.waits _ hI.1, hw w hI.2⟩
  start w hI := ⟨h.start _ hI.1, hT w _ hI.2⟩
  stop _ w x n hI hp hx h0 hpoll := ⟨h.stop rfl _ x n hI.1 hp hx h0 hpoll, hT w _ hI.2⟩
  batch w evs b hI hp hb hready := ⟨h.batch _ evs b hI.1 hp hb hready, hT w _ hI.2⟩
  skip w e rest cb hI hp hc hf := ⟨h.skip _ e rest cb hI.1 hp hc hf, hT w _ hI.2⟩
  callback e rest cb f arr hf := by
    have hboth := ((h.callback e rest cb f arr hf).over (he f e.events _ _)).both
      (hcall e rest cb f hf) ha
    refine hboth.conseq ?_ fun _ w hw => ⟨⟨hw.1.1, hw.2⟩, hw.1.2⟩
    rintro w' ⟨w, hI, hp, hc, harr, rfl⟩
    exact ⟨⟨_, hI.1, hp, hc, harr, rfl⟩, w, hI, hp, hc, rfl⟩
  after := by simp
  collect w l' hI hp hc := ⟨h.collect _ l' hI.1 hp hc, hT w _ hI.2⟩

end Sgopher.Sepoll
