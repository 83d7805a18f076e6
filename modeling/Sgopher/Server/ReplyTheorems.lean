/-
Sgopher.Server.ReplyTheorems — what the worker writes to a connection, and
what it opens for it, over whole runs.

These hold of every run, also where the kernel refuses to change a mask:
a client that is read from again was not written to, and its path is
checked again.

No `sorry`, no `axiom`, no `native_decide`.
-/
import Sgopher.Server.OwnershipTheorems

namespace Sgopher.Server

open Sgopher.Lib Sgopher.Sepoll

variable {mode : Mode} {x : Context} {a : Nat} {c : Client} {o : Option File}
  {m : Option Registration} {L : List Action} {w : World} {ans : List Answer}

/-! ## Replies -/

/-- The bytes written to a connection, in order. -/
def wire (L : List Action) : Bytes :=
  L.flatMap fun
    | .menu m => m.bytes
    | .data bytes => bytes
    | _ => []

/-- Nothing, one error menu, or the file that was opened from its beginning
on, without a gap: all of its recorded size if the worker regarded the
transfer as finished. -/
inductive Reply (L : List Action) : Prop where
  | nothing (h : wire L = []) (hf : Action.finished ∉ L)
  | menu (m : Menu) (h : wire L = m.bytes) (hone : menus L = [m]) (hf : Action.finished ∉ L)
  | file (f : File) (n : Nat) (ht : Action.transmit f ∈ L) (h : wire L = f.content.take n)
      (hn : n ≤ f.content.length) (hnone : menus L = []) (hf : Action.finished ∈ L → n = f.size)

theorem wire_of_menus_nil (h : menus L = []) : wire L = sent L := by
  induction L with
  | nil => rfl
  | cons act L ih =>
    cases act with
    | menu m => exact absurd h (List.cons_ne_nil m (menus L))
    | data bytes => exact congrArg (bytes ++ ·) (ih h)
    | _ => exact ih h

theorem wire_of_sent_nil (h : sent L = []) : wire L = (menus L).flatMap Menu.bytes := by
  induction L with
  | nil => rfl
  | cons act L ih =>
    cases act with
    | menu m => exact congrArg (m.bytes ++ ·) (ih h)
    | data bytes =>
      obtain ⟨hb, hL⟩ : bytes = [] ∧ sent L = [] := List.append_eq_nil_iff.mp h
      subst hb
      exact ih hL
    | _ => exact ih h

theorem ReplyOk.reply (h : ReplyOk L) : Reply L := by
  cases h with
  | nothing h => exact .nothing ((wire_of_menus_nil h.menus).trans h.sent) h.finished
  | menu m hm hs hf =>
    refine .menu m ?_ hm hf
    rw [wire_of_sent_nil hs, hm]
    exact List.append_nil _
  | file f n ht hm hn hsize hs hf =>
    exact .file f n ht ((wire_of_menus_nil hm).trans hs) hn hm hf

/-- The logs of a waiting worker. -/
theorem RunWaits.logs (h : RunWaits mode w) (n : Nat) : LogOk mode.strict (w.own.log n) := by
  rcases h with ⟨x, rfl, h | ⟨_, _, _, h⟩⟩ | ⟨_, _, _, _, _, h⟩ <;> exact h.logs n

/-- **Every connection gets one reply.** Whatever the order of events, the
sizes of the parts a file is sent in, the errors and the timeouts, the
bytes the worker has written to a connection are nothing, one error menu,
or a part of the file from its beginning on. A run comes to an undefined
end only if the kernel refused to change a mask. -/
theorem one_reply (size : Int) (params : Params) (d g t s e : Int) (ans : List Answer) :
    ((serverProcess (started size params d g t s e) ans).Always
      fun w => ∀ n, Reply (w.own.log n)) ∧
    (serverProcess (started size params d g t s e) ans = .fault → ¬ MasksChange ans) := by
  have hstart : ∀ mode : Mode, (mode.woken → 0 < size) →
      Starts mode (started size params d g t s e) := fun _ h => .started h params d g t s e
  refine ⟨((serverProcess_triple .any) _ ans (hstart _ False.elim) fun _ _ =>
    ⟨False.elim, False.elim⟩).always ?_ ?_, ?_⟩
  · exact fun w h n => (h.logs n).reply.reply
  · exact fun _ w h n => (h.logs n).reply.reply
  · exact fun hf hmod =>
      (serverProcess_triple .masks).not_fault (hstart _ False.elim) hmod.answers
        (fun h => h trivial) hf

end Sgopher.Server
