/-
Sgopher.Sepoll.KeepsTheorems — what an event loop leaves alone.

The loop's own programs change nothing of what the program that uses it
keeps beside it. So a property of that part is kept by `sepoll_enter` if
it is kept by every callback.

No `sorry`, no `axiom`, no `native_decide`.
-/
import Sgopher.Lib.Keeps
import Sgopher.Sepoll.Loop

namespace Sgopher.Sepoll

open Sgopher.Lib Prog

variable {ω F U τ α : Type} {A : ω → Prop} {J : τ → Prop}

/-- A property of what is beside the loop. -/
abbrev Beside (J : τ → Prop) : World F U τ → Prop := fun w => J w.own

theorem onLoop_keeps (f : Loop F U → Option (Loop F U × α)) :
    Keeps A (Beside J) (onLoop f : Prog ω (World F U τ) α) :=
  Keeps.step_map fun _ _ h _ => h

theorem setRun_keeps (run : Bool) :
    Keeps A (Beside J) (setRun run : Prog ω (World F U τ) Unit) :=
  Keeps.modify fun _ h => h

theorem sepollRemove_keeps (fd : Int) :
    Keeps A (Beside J) (sepollRemove fd : Prog ω (World F U τ) Ret) :=
  onLoop_keeps _

theorem sepollDestroy_keeps : Keeps A (Beside J) (sepollDestroy : Prog ω (World F U τ) Unit) :=
  onLoop_keeps _

variable {call : F → UInt32 → U → U → Prog ω (World F U τ) Unit}

/-- The callbacks keep the property. -/
abbrev CallsKeep (A : ω → Prop) (J : τ → Prop)
    (call : F → UInt32 → U → U → Prog ω (World F U τ) Unit) : Prop :=
  ∀ f events u1 u2, Keeps A (Beside J) (call f events u1 u2)

theorem dispatchOne_keeps (h : CallsKeep A J call) (i : Nat) :
    Keeps A (Beside J) (dispatchOne call i) := by
  refine Keeps.bind (onLoop_keeps _) fun r => ?_
  obtain ⟨events, callback⟩ := r
  dsimp only
  cases callback.function with
  | none => exact Keeps.pure ()
  | some f => exact h f events callback.userdata1 callback.userdata2

theorem dispatch_keeps (h : CallsKeep A J call) : ∀ k i : Nat,
    Keeps A (Beside J) (dispatch call k i)
  | 0, _ => Keeps.pure ()
  | k + 1, i => Keeps.bind (dispatchOne_keeps h i) fun _ => dispatch_keeps h k (i + 1)

variable [LoopAnswers ω]

theorem sepollAdd_keeps (fd : Int) (events : UInt32) (function : Option F) (u1 u2 : U) :
    Keeps A (Beside J) (sepollAdd fd events function u1 u2 : Prog ω (World F U τ) Ret) :=
  Keeps.bind Keeps.ask fun _ => onLoop_keeps _

theorem sepollModEvents_keeps (fd : Int) (events : UInt32) :
    Keeps A (Beside J) (sepollModEvents fd events : Prog ω (World F U τ) Ret) :=
  Keeps.bind Keeps.ask fun _ => onLoop_keeps _

theorem epollWait_keeps (timeout : Int) :
    Keeps A (Beside J) (epollWait timeout : Prog ω (World F U τ) Int) :=
  Keeps.iterate (fun _ => Keeps.bind Keeps.ask fun _ => onLoop_keeps _) ()

theorem enterTurn_keeps (h : CallsKeep A J call) (timeout retval : Int) :
    Keeps A (Beside J) (enterTurn call timeout none retval) := by
  refine Keeps.bind Keeps.get fun w => Keeps.ite ?_ (Keeps.pure _)
  refine Keeps.bind (epollWait_keeps timeout) fun n => ?_
  refine Keeps.bind (dispatch_keeps h n.toNat 0) fun _ => ?_
  refine Keeps.bind (Keeps.ite ?_ (Keeps.ite ?_ (Keeps.pure retval))) fun _ => ?_
  · exact Keeps.bind (setRun_keeps false) fun _ => Keeps.pure retval
  · exact Keeps.bind (setRun_keeps false) fun _ => Keeps.pure (-1)
  · exact Keeps.bind (onLoop_keeps _) fun _ => Keeps.pure _

/-- **`sepoll_enter`** keeps what its callbacks keep. -/
theorem sepollEnter_keeps (h : CallsKeep A J call) (timeout : Int) :
    Keeps A (Beside J) (sepollEnter call timeout none) :=
  Keeps.bind (setRun_keeps true) fun _ => Keeps.iterate (enterTurn_keeps h timeout) 0

end Sgopher.Sepoll
