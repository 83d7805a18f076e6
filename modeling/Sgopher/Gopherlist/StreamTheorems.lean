/-
Sgopher.Gopherlist.StreamTheorems — the write buffer over any sequence of
calls.

`stream_law` is about every length of the buffer, every sequence of calls
and every way `write` and `poll` may answer. It says of `written` what a
`size_t` can say: it counts the bytes modulo 2^64. A run that writes 2^64
bytes ends with 0 in it.

No `sorry`, no `axiom`, no `native_decide`.
-/
import Sgopher.Gopherlist.SbufferTheorems

namespace Sgopher.Gopherlist

open Sgopher.Lib

variable {len : UInt64} {w w' : World}

/-- What a run owes that only calls the three functions. -/
def lawful (len : UInt64) : Contract Answer World where
  answers _ := True
  waits := Law len

theorem AfterPush.law {f : Formatted} {r : Pushed} (h : AfterPush len w f r w') : Law len w' := by
  cases h with
  | refused mem r hr hunfit hkeep law => exact law
  | accepted mem t hf ht hroom law => exact law

theorem execCalls_append (cs ds : List Call) :
    execCalls (cs ++ ds) = execCalls cs >>= fun _ => execCalls ds := by
  induction cs with
  | nil => rfl
  | cons c cs ih => rw [List.cons_append, execCalls, execCalls, ih, Prog.bind_assoc]

theorem FlushEnd.law {w₀ : World} {r : Ret} (h : FlushEnd len w₀ r w) : Law len w := by
  rcases h with ⟨_, h⟩ | ⟨_, _, h⟩
  · exact h.law
  · exact h.law

theorem exec_triple (c : Call) : Triple (lawful len) (Law len) c.exec (fun _ => Law len) := by
  cases c with
  | push f =>
    refine Triple.bind (R := fun _ => Law len) (fun w ans h hA => ?_) fun _ =>
      Triple.pure fun _ h => h
    obtain ⟨r, w', hrun, hw'⟩ := h.sbufferPush_run f ans
    rw [hrun]
    exact ⟨hw'.law, hA⟩
  | flush =>
    refine Triple.bind (R := fun _ => Law len) (fun w ans h hA => ?_) fun _ =>
      Triple.pure fun _ h => h
    exact ((sbufferFlush_triple fun w h => h.law).post fun r w' h' => h'.law) w ans h.flushing hA
  | checkflush leftover =>
    refine Triple.bind (R := fun _ => Law len) (fun w ans h hA => ?_) fun _ =>
      Triple.pure fun _ h => h
    refine ((sbufferCheckflush_triple leftover fun w h => h.law).post fun r w' h' => ?_)
      w ans ⟨rfl, h⟩ hA
    rcases h' with ⟨_, rfl, _⟩ | ⟨_, h'⟩
    · exact h
    · exact h'.law

/-- Any sequence of calls keeps the law. -/
theorem execCalls_triple (cs : List Call) :
    Triple (lawful len) (Law len) (execCalls cs) (fun _ => Law len) := by
  induction cs with
  | nil => exact Triple.pure fun _ h => h
  | cons c cs ih => exact Triple.bind (exec_triple c) fun _ => ih

/-- **The stream law of the write buffer.** In every state a sequence of
calls comes to, the law holds; and from there a push is accepted with its
whole text or moves nothing, and a flush writes everything or stops
halfway, with nothing lost or repeated. -/
theorem stream_law (len : UInt64) (cs : List Call) (ans : List Answer) :
    (execCalls cs (created len) ans).Always
        (fun w => Law len w ∧ w.sbuffer.pos ≤ len.toNat ∧
          w.sbuffer.written.toNat = w.out.length % 2 ^ 64) ∧
      execCalls cs (created len) ans ≠ .fault ∧
      ∀ w rest, execCalls cs (created len) ans = .done () w rest → ∀ ans',
        (∀ f, ∃ r w', sbufferPush f w ans' = .done r w' ans' ∧ AfterPush len w f r w') ∧
        (∀ w', sbufferFlush w ans' = .stopped w' → Flushing len w [] w') ∧
        ∀ r w' rest', sbufferFlush w ans' = .done r w' rest' → FlushEnd len w r w' := by
  have hrun := execCalls_triple cs (created len) ans (created_law len) fun _ _ => trivial
  have hlaw : ∀ w, Law len w → Law len w ∧ w.sbuffer.pos ≤ len.toNat ∧
      w.sbuffer.written.toNat = w.out.length % 2 ^ 64 := fun w h =>
    ⟨h, h.pos_le, by rw [h.written, UInt64.toNat_ofNat']⟩
  refine ⟨hrun.always hlaw fun _ => hlaw, ?_, fun w rest hdone ans' => ?_⟩
  · exact (execCalls_triple cs).not_fault (created_law len) (fun _ _ => trivial) id
  have h : Law len w := by
    rw [hdone] at hrun
    exact hrun.1
  have hflush : Triple { answers := fun _ => True, waits := Flushing len w [] }
      (Flushing len w []) sbufferFlush (FlushEnd len w) := sbufferFlush_triple fun _ h => h
  refine ⟨fun f => h.sbufferPush_run f ans', fun w' hr => ?_, fun r w' rest' hr => ?_⟩
  · exact hflush.stopped h.flushing (fun _ _ => trivial) hr
  · exact (hflush.done h.flushing (fun _ _ => trivial) hr).1

/-! ## A counter that wraps around -/

/-- `n` times, a byte is pushed and flushed. -/
def rounds : Nat → List Call
  | 0 => []
  | n + 1 => .push (.text [97]) :: .flush :: rounds n

/-- A `write` takes a byte. -/
def takesOne : Answer := { write := .ok 1 }

theorem round_run (h : Law 2 w) (hpos : w.sbuffer.pos = 0) (ans : List Answer) :
    ∃ w', execCalls (rounds 1) w (takesOne :: ans) = .done () w' ans ∧ Law 2 w' ∧
      w'.sbuffer.pos = 0 ∧ w'.out.length = w.out.length + 1 := by
  have htwo : w.sbuffer.remaining = 2 := by
    rw [h.remaining_eq, hpos]
    decide
  have hwritepos : w.sbuffer.writepos = 0 := Nat.le_zero.mp (hpos ▸ h.ordered)
  obtain ⟨r, w₁, hpush, hw₁⟩ := h.sbufferPush_run (.text [97]) (takesOne :: ans)
  have hw₁' : Law 2 w₁ ∧ w₁.sbuffer.pos = 1 ∧ w₁.sbuffer.writepos = 0 ∧ w₁.out = w.out := by
    cases hw₁ with
    | refused mem r hr hunfit hkeep law =>
      have := hunfit [97] rfl (by decide)
      rw [htwo] at this
      exact absurd this (by decide)
    | accepted mem t hf ht hroom law =>
      cases hf
      refine ⟨law, ?_, hwritepos, rfl⟩
      show w.sbuffer.pos + 1 = 1
      rw [hpos]
  obtain ⟨h₁, hpos₁, hwritepos₁, hout₁⟩ := hw₁'
  have hunwritten : w₁.sbuffer.unwritten = 1 := by rw [h₁.unwritten_eq, hpos₁, hwritepos₁]
  obtain ⟨w₂, hflush, hw₂⟩ := h₁.sbufferFlush_once (by omega) (Nat.le_of_eq hunwritten) ans
  refine ⟨w₂, ?_, hw₂.law, hw₂.pos, ?_⟩
  · have hflush' : sbufferFlush w₁ (takesOne :: ans) = .done (.ok ()) w₂ ans := hflush
    simp only [rounds, execCalls, Call.exec, Prog.bind_run, hpush, hflush', Prog.pure_run]
  · have hlen : w₁.sbuffer.unwrittenBytes.length = 1 := by
      have := h₁.stored
      rw [Sbuffer.unwrittenBytes, List.length_take, List.length_drop]
      omega
    rw [hw₂.out, List.length_append, hlen, hout₁]

theorem rounds_run (n : Nat) : ∀ {w : World}, Law 2 w → w.sbuffer.pos = 0 →
    ∃ w', execCalls (rounds n) w (List.replicate n takesOne) = .done () w' [] ∧ Law 2 w' ∧
      w'.out.length = w.out.length + n := by
  induction n with
  | zero => exact fun h _ => ⟨_, rfl, h, rfl⟩
  | succ n ih =>
    intro w h hpos
    obtain ⟨w₁, hrun, h₁, hpos₁, hlen₁⟩ := round_run h hpos (List.replicate n takesOne)
    obtain ⟨w₂, hrest, h₂, hlen₂⟩ := ih h₁ hpos₁
    refine ⟨w₂, ?_, h₂, by omega⟩
    have hrounds : rounds (n + 1) = rounds 1 ++ rounds n := rfl
    rw [hrounds, execCalls_append, List.replicate_succ, Prog.bind_done hrun, hrest]

/-- After 2^64 bytes the counter is 0. -/
theorem written_wraps :
    ∃ w, execCalls (rounds (2 ^ 64)) (created 2) (List.replicate (2 ^ 64) takesOne) =
      .done () w [] ∧ w.sbuffer.written.toNat ≠ w.out.length := by
  obtain ⟨w, hrun, h, hlen⟩ := rounds_run (2 ^ 64) (created_law 2) rfl
  refine ⟨w, hrun, ?_⟩
  have hout : w.out.length = 2 ^ 64 := hlen.trans (Nat.zero_add _)
  rw [h.written, hout]
  decide

end Sgopher.Gopherlist
