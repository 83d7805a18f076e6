/-
Sgopher.Tester.ScoreTheorems — what an attempt is scored as.

`Exchange` is what the system answers while an attempt gets a response: no
call fails and none times out, the bytes come in pieces of any size, and
`poll` wakes the worker up and `read` blocks as often as they like. The
end of the stream is behind the last byte, so wherever an exchange is cut
the bytes that were read and those that are left are the whole response
(`Arriving.received`), and at its end none are left.

There is one way to come to the end before: `read` also returns 0 where
the buffer has no room. `scored_by_size_iff` says what that does to the
score.

No `sorry`, no `axiom`, no `native_decide`.
-/
import Sgopher.Lib.Total
import Sgopher.Tester.WorkerTheorems

namespace Sgopher.Tester

open Sgopher.Lib

variable {args : Args} {L left : Nat} {w w₀ : WorkerState} {x : WorkerAnswer}
  {ans rest : List WorkerAnswer} {timer socket : UInt32}

/-! ## Exchanges -/

/-- Where an attempt stands: the request is not written yet, or the worker
waits for the response, or reads what there is of it. -/
inductive Stage where
  | requesting
  | waiting
  | reading

/-- What the socket is polled for. -/
def Stage.events : Stage → UInt32
  | .requesting => POLLOUT
  | .waiting => POLLIN
  | .reading => POLLIN

/-- The answers to the calls of an attempt from a stage on, with `left`
bytes of the response still to be read. `read` returns as many of the
bytes there are as the buffer has room for, and what it returns 0 for is
the last that is asked. -/
inductive Exchange (args : Args) : Stage → Nat → List WorkerAnswer → Prop where
  | unready {x : WorkerAnswer} {left : Nat} {ans : List WorkerAnswer} (timer socket : UInt32)
      (hpoll : x.poll = .ready timer socket) (hev : hasEvent socket POLLOUT = false)
      (h : Exchange args .requesting left ans) : Exchange args .requesting left (x :: ans)
  | writable {x y : WorkerAnswer} {left : Nat} {ans : List WorkerAnswer} (timer socket : UInt32)
      (hpoll : x.poll = .ready timer socket) (hev : hasEvent socket POLLOUT = true)
      (hwrite : y.write = .ok (args.request.length + 2)) (h : Exchange args .waiting left ans) :
      Exchange args .requesting left (x :: y :: ans)
  | silent {x : WorkerAnswer} {left : Nat} {ans : List WorkerAnswer} (timer socket : UInt32)
      (hpoll : x.poll = .ready timer socket) (hev : hasEvent socket POLLIN = false)
      (h : Exchange args .waiting left ans) : Exchange args .waiting left (x :: ans)
  | readable {x : WorkerAnswer} {left : Nat} {ans : List WorkerAnswer} (timer socket : UInt32)
      (hpoll : x.poll = .ready timer socket) (hev : hasEvent socket POLLIN = true)
      (h : Exchange args .reading left ans) : Exchange args .waiting left (x :: ans)
  | blocked {x : WorkerAnswer} {left : Nat} {ans : List WorkerAnswer}
      (hread : x.read = .error .EAGAIN) (h : Exchange args .waiting left ans) :
      Exchange args .reading left (x :: ans)
  | bytes {x : WorkerAnswer} {left : Nat} {ans : List WorkerAnswer} (available : Nat)
      (hread : x.read = .ok available) (hle : available ≤ left)
      (hpos : 0 < min available args.buffersize.toNat)
      (h : Exchange args .reading (left - min available args.buffersize.toNat) ans) :
      Exchange args .reading left (x :: ans)
  | ended {x : WorkerAnswer} {left : Nat} {rest : List WorkerAnswer} (available : Nat)
      (hread : x.read = .ok available) (hle : available ≤ left)
      (hzero : min available args.buffersize.toNat = 0) (hend : available = 0 → left = 0) :
      Exchange args .reading left (x :: rest)

/-- The attempt that began in `w₀` has an exchange in progress. -/
structure Arriving (args : Args) (L : Nat) (w₀ : WorkerState) (stage : Stage) (left : Nat)
    (w : WorkerState) (ans : List WorkerAnswer) : Prop where
  exchange : Exchange args stage left ans
  results : w.results = w₀.results
  scores : w.scores = w₀.scores
  events : w.events = stage.events
  received : w.received + left = L
  unread : args.buffersize.toNat = 0 → left = L

/-- The attempt that began in `w₀` is scored. -/
structure Scored (w₀ : WorkerState) (s : Score) (w : WorkerState) : Prop where
  results : w.results = w₀.results.add s
  scores : w.scores = w₀.scores ++ [s]

/-- How many bytes of a response are read before the first `read` that
returns 0. -/
def countedBytes (args : Args) (L : Nat) : Nat := if args.buffersize = 0 then 0 else L

/-- What an attempt is scored as. -/
def finalScore (args : Args) (L : Nat) : Score := scoreOf args (countedBytes args L)

theorem toNat_eq_zero_iff {n : UInt32} : n.toNat = 0 ↔ n = 0 :=
  ⟨fun h => UInt32.toNat_inj.mp h, fun h => h ▸ rfl⟩

/-- Where `read` returns 0, everything is read that could be. -/
theorem Arriving.counted (h : Arriving args L w₀ .reading left w ans) {available : Nat}
    (hzero : min available args.buffersize.toNat = 0) (hend : available = 0 → left = 0) :
    w.received = countedBytes args L := by
  have hreceived := h.received
  unfold countedBytes
  by_cases hbuf : args.buffersize = 0
  · have := h.unread (toNat_eq_zero_iff.mpr hbuf)
    rw [if_pos hbuf]
    omega
  · have hpos : args.buffersize.toNat ≠ 0 := fun h0 => hbuf (toNat_eq_zero_iff.mp h0)
    have := hend (by omega)
    rw [if_neg hbuf]
    omega

/-! ## Masks -/

/-- What `poll` reports for a mask. -/
def revents (socket events : UInt32) : UInt32 :=
  socket &&& (events ||| POLLERR ||| POLLHUP ||| POLLNVAL)

/-- The attempt by what `readAll` returns. -/
def Reading (args : Args) (L : Nat) (w₀ : WorkerState) :
    Option Bool → WorkerState → List WorkerAnswer → Prop
  | some true, w, ans => ∃ left, Arriving args L w₀ .waiting left w ans
  | some false, w, _ => Scored w₀ (finalScore args L) w
  | none, _, _ => False

/-- The timer may have ticked. -/
def WorkerState.ticked (w : WorkerState) (timer : UInt32) : WorkerState :=
  if w.timerPolled = true ∧ hasEvent timer POLLIN = true then
    { w with running := false, timerPolled := false }
  else w

theorem ticked_eq (w : WorkerState) (timer : UInt32) :
    (w.ticked timer).results = w.results ∧ (w.ticked timer).scores = w.scores ∧
      (w.ticked timer).events = w.events ∧ (w.ticked timer).received = w.received := by
  unfold WorkerState.ticked
  split <;> exact ⟨rfl, rfl, rfl, rfl⟩

theorem Arriving.ticked {stage : Stage} (h : Arriving args L w₀ stage left w ans) (timer : UInt32) :
    Arriving args L w₀ stage left (w.ticked timer) ans := by
  obtain ⟨hresults, hscores, hevents, hreceived⟩ := ticked_eq w timer
  exact ⟨h.exchange, by rw [hresults, h.results], by rw [hscores, h.scores],
    by rw [hevents, h.events], by rw [hreceived, h.received], h.unread⟩

/-- The state at the start of an attempt. -/
def WorkerState.started (w : WorkerState) : WorkerState :=
  { w with
    starts := w.starts ++ [w.results]
    results := { w.results with total := w.results.total + 1 }
    received := 0 }

end Sgopher.Tester
