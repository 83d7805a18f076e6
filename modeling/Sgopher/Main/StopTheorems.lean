/-
Sgopher.Main.StopTheorems — when the event loops of the two programs end.

`sepoll_enter` is documented to run until `sepoll_exit` is called, and
both of its callers rely on that: the supervisor reports that all workers
exited, and a worker cleans up. But the loop also ends when `epoll_wait`
fails, and neither caller looks at the result. A call that is interrupted
is enough, as the two runs at the end show.

No `sorry`, no `axiom`, no `native_decide`.
-/
import Sgopher.Main.MainTheorems
import Sgopher.Server.OwnershipTheorems

namespace Sgopher.Main

open Sgopher.Lib Sgopher.Sepoll

/-- No call of `epoll_wait` fails. -/
def WaitsSucceed {ω : Type} [LoopAnswers ω] (ans : List ω) : Prop :=
  ∀ y ∈ ans, ∀ e, (LoopAnswers.answer y).wait ≠ .error e

/-- **The event loops run until they are told to stop**, where no call of
`epoll_wait` fails and there is room for an event: the supervisor exits
with success only when no worker is left, and the loop of a worker ends
only after `server_signal` called `sepoll_exit`. -/
theorem loops_told (n : UInt32) (ans : List Answer) (size : Int) (params : Server.Params)
    (d g t s e : Int) (ans' : List Server.Answer) :
    (∀ exit w rest, loopSize n ≠ some 0 → WaitsSucceed ans →
      mainUntilExit n started ans = .done exit w rest → exit.code = .success →
      w.own.supervisor.activeWorkers = 0) ∧
    (∀ r w rest, 0 < size → WaitsSucceed ans' →
      Server.serverLoop (Server.started size params d g t s e) ans' = .done r w rest →
      w.own.terminated = true) := by
  constructor
  · intro exit w rest hroom hans hrun hsuccess
    have htriple : Triple (contract True n) _ (mainUntilExit n) _ :=
      mainUntilExit_triple fun _ => hroom
    have hend := (htriple.done rfl (fun y hy _ => hans y hy) hrun).1
    split at hend
    · exact hend.success hsuccess trivial
    · rw [hsuccess] at hend
      cases hend.1
  · intro r w rest hsize hans hrun
    obtain ⟨⟨x, hx, hrest⟩, _, hstop⟩ := ((Server.serverLoop_triple .waits).done
      (Server.Starts.started (fun _ => hsize) params d g t s e)
      (fun y hy => ⟨False.elim, fun _ => hans y hy⟩) hrun).1
    exact hrest.parts.told (by rw [hx]; trivial) hstop

/-! ## Two small runs -/

/-- What the system answers to a call that succeeds. -/
def succeeds : Answer := { memory := true }

/-- One worker is forked, and the event loop is set up. -/
def spawnedOne : List Answer :=
  [succeeds, succeeds, { fork := some (2, 3) }, succeeds, { signalfd := .ok 4 },
    { create := some 5 },
    { loop := { malloc := some 1 } }, { loop := { malloc := some 2 } }]

/-- The worker exits. -/
def exitedOne : List Answer :=
  spawnedOne ++ [{ loop := { wait := .ready [(3, EPOLLIN)] } }, succeeds]

/-- A worker of the server is told to terminate. -/
def terminatedOne : List Server.Answer :=
  [{ loop := { malloc := some 1 } }, { loop := { malloc := some 2 } },
    { loop := { malloc := some 3 } }, { loop := { wait := .ready [(4, EPOLLIN)] } },
    { signal := .ok 15 }, Server.again]

theorem loops_told_exited :
    (∃ w rest, mainUntilExit 1 started exitedOne = .done ⟨.success, true⟩ w rest ∧
      w.own.supervisor.activeWorkers = 0) ∧
    (∃ r w rest, Server.serverLoop Server.smallWorker terminatedOne = .done r w rest ∧
      w.own.terminated = true) := by
  constructor
  · have h : (mainUntilExit 1 started exitedOne).Returns
        fun exit _ => exit = ⟨.success, true⟩ := by decide +kernel
    obtain ⟨exit, w, rest, hrun, rfl⟩ := h.state
    refine ⟨w, rest, hrun, (loops_told 1 exitedOne 5 Server.smallParams 3 4 5 6 7 []).1 _ w rest
      (by decide) ?_ hrun rfl⟩
    simp [WaitsSucceed, exitedOne, spawnedOne, succeeds, LoopAnswers.answer]
  · have h : (Server.serverLoop Server.smallWorker terminatedOne).Returns fun _ _ => True := by
      decide +kernel
    obtain ⟨r, w, rest, hrun, -⟩ := h.state
    refine ⟨r, w, rest, hrun,
      (loops_told 1 [] 5 Server.smallParams 3 4 5 6 7 terminatedOne).2 r w rest (by decide) ?_ hrun⟩
    simp [WaitsSucceed, terminatedOne, Server.again, LoopAnswers.answer]

/-- Where the wait of the supervisor is interrupted, it reports that all
workers exited and exits with success while one is running; a worker whose
wait is interrupted ends without a signal. -/
theorem loops_interrupted :
    (∃ w rest, mainUntilExit 1 started
        (spawnedOne ++ [{ loop := { wait := .error .EINTR } }]) = .done ⟨.success, true⟩ w rest ∧
      w.own.supervisor.activeWorkers ≠ 0) ∧
    (∃ r w rest, Server.serverLoop Server.smallWorker
        [{ loop := { malloc := some 1 } }, { loop := { malloc := some 2 } },
          { loop := { malloc := some 3 } }, { loop := { wait := .error .EINTR } }]
        = .done r w rest ∧ w.own.terminated ≠ true) := by
  constructor
  · have h : (mainUntilExit 1 started
        (spawnedOne ++ [{ loop := { wait := .error .EINTR } }])).Returns
        fun exit w => exit = ⟨.success, true⟩ ∧ w.own.supervisor.activeWorkers ≠ 0 := by
      decide +kernel
    obtain ⟨exit, w, rest, hrun, rfl, hactive⟩ := h.state
    exact ⟨w, rest, hrun, hactive⟩
  · have h : (Server.serverLoop Server.smallWorker
        [{ loop := { malloc := some 1 } }, { loop := { malloc := some 2 } },
          { loop := { malloc := some 3 } }, { loop := { wait := .error .EINTR } }]).Returns
        fun _ w => w.own.terminated ≠ true := by decide +kernel
    obtain ⟨r, w, rest, hrun, hstop⟩ := h.state
    exact ⟨r, w, rest, hrun, hstop⟩

end Sgopher.Main
