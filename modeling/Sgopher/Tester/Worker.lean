/-
Sgopher.Tester.Worker — `worker_process` of `gophertester.c`: attempts,
one after the other, until the timer has ticked.

An attempt opens a socket, connects, and waits with `poll` for the socket
and the timer. The mask it waits for is the state: POLLOUT until the
request is written, POLLIN from then on. It ends with a score: a timeout,
or what the end of the response says about its size. A tick of the timer
only clears `running`, so that the attempt at hand is the last one.

`starts` and `scores` are not in the source. They keep what the counters
are to be compared with: the counters as they were at the start of every
attempt, and what each attempt was scored as.

The messages to standard error, the two descriptors and the address
play no part in what is counted and are left out. The array that a worker
reads into has `buffersize` bytes and is on its stack; it is taken to fit
there.
-/
import Sgopher.Lib.Program
import Sgopher.Posix

namespace Sgopher.Tester

open Sgopher.Lib

/-! ## Data -/

/-- `struct results_t`. -/
structure Results where
  total : UInt64
  successful : UInt64
  timeout : UInt64
  mismatch : UInt64
  deriving DecidableEq

/-- The results `main` starts every worker with, and its own sum. -/
def Results.zero : Results := ⟨0, 0, 0, 0⟩

/-- How an attempt can be scored. -/
inductive Score where
  | successful
  | timeout
  | mismatch
  deriving DecidableEq

/-- The counter of a score goes up by one. -/
def Results.add (r : Results) : Score → Results
  | .successful => { r with successful := r.successful + 1 }
  | .timeout => { r with timeout := r.timeout + 1 }
  | .mismatch => { r with mismatch := r.mismatch + 1 }

/-- The arguments that decide what a worker counts. -/
structure Args where
  buffersize : UInt32
  request : List UInt8
  size : UInt32
  timeout : Int
  numWorkers : UInt32

/-- `exit(EXIT_SUCCESS)` and `exit(EXIT_FAILURE)`. -/
inductive ExitCode where
  | success
  | failure
  deriving DecidableEq

abbrev EINPROGRESS : Errno := .other 115

def POLLIN : UInt32 := 0x001
def POLLOUT : UInt32 := 0x004
def POLLERR : UInt32 := 0x008
def POLLHUP : UInt32 := 0x010
def POLLNVAL : UInt32 := 0x020

/-- What `poll` reports: an error, that the time is up, or what happened
to the timer and to the socket. -/
inductive PollAnswer where
  | failed (e : Errno)
  | timedOut
  | ready (timer socket : UInt32)

/-- What the system answers to the calls of a worker. The answer to
`read` is how many bytes there are to read, 0 at the end of the file. -/
structure WorkerAnswer where
  timerfdCreate : Option Errno := none
  timerfdSettime : Option Errno := none
  socket : Option Errno := none
  connect : Option Errno := none
  poll : PollAnswer := .timedOut
  write : Except Errno Int := .ok 0
  read : Except Errno Nat := .ok 0

/-- The variables of a worker: `timerPolled` says whether the poll list
still has the timer in it, and `events` is the mask of the socket. -/
structure WorkerState where
  results : Results
  running : Bool
  timerPolled : Bool
  events : UInt32
  received : Int
  starts : List Results
  scores : List Score

def WorkerState.start : WorkerState where
  results := .zero
  running := true
  timerPolled := true
  events := 0
  received := 0
  starts := []
  scores := []

abbrev WorkerProgram := Prog WorkerAnswer WorkerState

/-! ## An attempt -/

/-- `results->total++`. -/
def startAttempt : WorkerProgram Unit :=
  Prog.modify fun w => { w with
    starts := w.starts ++ [w.results]
    results := { w.results with total := w.results.total + 1 }
    received := 0 }

/-- `results->successful++` and the like. -/
def score (s : Score) : WorkerProgram Unit :=
  Prog.modify fun w => { w with
    results := w.results.add s
    scores := w.scores ++ [s] }

def setEvents (events : UInt32) : WorkerProgram Unit :=
  Prog.modify fun w => { w with events := events }

/-- `poll(poll_list, 2, args->timeout)`. With a negative timeout it does
not return before something happens. -/
def pollFds (args : Args) : WorkerProgram PollAnswer :=
  Prog.iterate (fun _ => do
    let x ← Prog.ask
    match x.poll with
    | .timedOut => if args.timeout < 0 then pure (.inl ()) else pure (.inr .timedOut)
    | other => pure (.inr other)) ()

/-- What the end of the response is scored as. -/
def scoreOf (args : Args) (received : Int) : Score :=
  if 0 < args.size.toNat ∧ received ≠ args.size.toNat then .mismatch else .successful

/-- `while (1)` around `read`: whether the attempt is still connected
afterwards, `none` on an error. -/
def readAll (args : Args) : WorkerProgram (Option Bool) :=
  Prog.iterate (fun _ => do
    let x ← Prog.ask
    match x.read with
    | .error e => pure (.inr (if e = .EAGAIN then some true else none))
    | .ok available => do
      let n := min available args.buffersize.toNat
      if n = 0 then do
        let w ← Prog.get
        score (scoreOf args w.received)
        pure (.inr (some false))
      else do
        Prog.modify fun w => { w with received := w.received + n }
        pure (.inl ())) ()

/-- What is done with the socket, by what happened to it: as `readAll`. -/
def socketReady (args : Args) (revents : UInt32) : WorkerProgram (Option Bool) :=
  if hasEvent revents POLLOUT then do
    let x ← Prog.ask
    match x.write with
    | .error _ => pure none
    | .ok n =>
      if n ≠ args.request.length + 2 then pure none
      else do
        setEvents POLLIN
        pure (some true)
  else if hasEvent revents POLLIN then readAll args
  else pure (some true)

/-- A turn of `while (connected)`: left with a code where the worker
exits in it, and without one where the attempt is over. The kernel
reports what the mask asks for and what it always reports; the entry of
the timer is ignored once its descriptor is -1. -/
def connectionTurn (args : Args) (connected : Bool) :
    WorkerProgram (Bool ⊕ Option ExitCode) :=
  if connected then do
    match ← pollFds args with
    | .failed _ => pure (.inr (some .failure))
    | .timedOut => do
      score .timeout
      pure (.inr none)
    | .ready timer socket => do
      let w ← Prog.get
      Prog.when (w.timerPolled = true ∧ hasEvent timer POLLIN = true)
        (Prog.modify fun w => { w with running := false, timerPolled := false })
      match ← socketReady args (socket &&& (w.events ||| POLLERR ||| POLLHUP ||| POLLNVAL)) with
      | none => pure (.inr (some .failure))
      | some connected => pure (.inl connected)
  else pure (.inr none)

/-- The body of `while (running)` behind `results->total++`: the code, if
the worker exits in it. -/
def attempt (args : Args) : WorkerProgram (Option ExitCode) := do
  let x ← Prog.ask
  if x.socket.isSome then pure (some .failure)
  else do
    let x ← Prog.ask
    if x.connect.isSome ∧ x.connect ≠ some EINPROGRESS then pure (some .failure)
    else do
      setEvents POLLOUT
      Prog.iterate (connectionTurn args) true

/-! ## The worker -/

/-- A turn of `while (running)`. -/
def workerTurn (args : Args) : WorkerProgram (Unit ⊕ ExitCode) := do
  let w ← Prog.get
  if w.running then do
    startAttempt
    match ← attempt args with
    | some code => pure (.inr code)
    | none => pure (.inl ())
  else pure (.inr .success)

/-- `worker_process`. -/
def workerProcess (args : Args) : WorkerProgram ExitCode := do
  let x ← Prog.ask
  if x.timerfdCreate.isSome then pure .failure
  else do
    let x ← Prog.ask
    if x.timerfdSettime.isSome then pure .failure
    else Prog.iterate (fun _ => workerTurn args) ()

end Sgopher.Tester
