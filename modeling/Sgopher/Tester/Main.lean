/-
Sgopher.Tester.Main — `main` of `gophertester.c`: the options, the shared
memory, the workers, waiting for them, the sum of what they counted, and
the rates.

A worker counts in its own part of the shared memory and `main` reads
that only when there is no worker left to wait for, so all a worker
leaves behind is how it ended (`ChildEnd`): the results it had by then
and the status `wait` reports. A worker that ended by itself had the run
`Ends.exited` asks for; one that was killed may have stopped anywhere.

`children` is the kernel's: the workers not waited for yet, with their
process numbers. `ended`, which is not in the source, keeps how each
worker that was waited for ended. What is printed to standard error is
left out, but for the arguments, the totals and the rates.

The rates are quotients of the totals by the duration of the test, which is
an option and may be 0. In C that division is undefined. What stands
against it is the timer of the workers: a timer that is set to 0 is
disarmed and never ticks (`Ticks`), and a worker exits successfully only
when its timer has ticked. `EndsTimed` is how a worker ends whose timer is
set to the duration.
-/
import Sgopher.Lib.Keyed
import Sgopher.Lib.Scan
import Sgopher.Tester.Smalloc
import Sgopher.Tester.Worker

namespace Sgopher.Tester

open Sgopher.Lib

/-! ## The command line -/

/-- `enum arg_keys_t`. -/
inductive ArgKey where
  | address
  | buffersize
  | duration
  | port
  | request
  | size
  | timeout
  | workers
  deriving DecidableEq, Repr

/-- `struct args_t`, with what the workers do not look at. Strings are
without their NUL. -/
structure Options where
  address : Bytes
  buffersize : UInt32
  duration : UInt32
  port : UInt16
  request : Bytes
  size : UInt32
  timeout : Int32
  numWorkers : UInt32
  deriving DecidableEq

/-- `argp_parse_options`. -/
def argpParseOptions (key : ArgKey) (arg : Bytes) (args : Options) : Options :=
  match key with
  | .address => { args with address := arg }
  | .buffersize => { args with buffersize := scanInto .u storeUInt arg args.buffersize }
  | .duration => { args with duration := scanInto .u storeUInt arg args.duration }
  | .port => { args with port := scanInto .u storeUShort arg args.port }
  | .request => { args with request := arg }
  | .size => { args with size := scanInto .u storeUInt arg args.size }
  | .timeout => { args with timeout := scanInto .i storeInt arg args.timeout }
  | .workers => { args with numWorkers := scanInto .u storeUInt arg args.numWorkers }

/-- `main`, "Default argument values". -/
def Options.default : Options where
  address := ascii "127.0.0.1"
  buffersize := 65536
  duration := 60
  port := 70
  request := ascii "/"
  size := 0
  timeout := 1000
  numWorkers := 1

/-- `argp_parse`: the options of the command line, in order. -/
def argpParse (options : List (ArgKey × Bytes)) : Options :=
  runCalls argpParseOptions options .default

/-- What the workers look at. -/
def Options.args (o : Options) : Args where
  buffersize := o.buffersize
  request := o.request
  size := o.size
  timeout := o.timeout.toInt
  numWorkers := o.numWorkers

/-- `main`, "Report argument values": what is printed for each option. The
timeout is printed as if it had no sign. -/
def Options.report (o : Options) : List (ArgKey × Bytes) :=
  [(.address, o.address),
   (.buffersize, decimal o.buffersize.toNat),
   (.port, decimal o.port.toNat),
   (.duration, decimal o.duration.toNat),
   (.request, o.request),
   (.size, decimal o.size.toNat),
   (.timeout, decimal o.timeout.toUInt32.toNat),
   (.workers, decimal o.numWorkers.toNat)]

/-! ## Data -/

/-- `struct worker_t`. -/
structure WorkerEntry where
  pid : Int
  status : Int
  results : Results
  deriving DecidableEq

/-- The status `wait` reports for an exit code. -/
def exitStatus : ExitCode → Int
  | .success => 0
  | .failure => 256

/-- How a worker can end: it exits, or it is killed. -/
inductive Ends (args : Args) : Results → Int → Prop where
  | exited (ans rest : List WorkerAnswer) (code : ExitCode) (w : WorkerState)
      (h : workerProcess args .start ans = .done code w rest) :
      Ends args w.results (exitStatus code)
  | killed (results : Results) (status : Int) (h : status ≠ 0) : Ends args results status

/-- What a worker leaves behind. -/
structure ChildEnd (args : Args) where
  results : Results
  status : Int
  ends : Ends args results status

/-- What the system answers to the calls of `main`. `wait` says which of
the children is reported, and how it ended. -/
structure MainAnswer (args : Args) where
  mmap : MmapAnswer := .mapped 4096
  fork : Option Nat := none
  child : Nat := 0
  ending : ChildEnd args

structure MainState (args : Args) where
  workers : List WorkerEntry
  activeWorkers : UInt32
  children : List (Nat × Nat)
  ended : Nat → Option (ChildEnd args)

/-- Before the shared memory is there. -/
def MainState.start (args : Args) : MainState args where
  workers := []
  activeWorkers := 0
  children := []
  ended := fun _ => none

/-- The totals, and how many workers they are of. -/
structure Report where
  results : Results
  successes : UInt32
  deriving DecidableEq

variable {args : Args}

abbrev MainProgram (args : Args) := Prog (MainAnswer args) (MainState args)

/-! ## Spawning -/

/-- The process number of a new child: one that no child has that is not
waited for. -/
def freshPid (want : Nat) (children : List (Nat × Nat)) : Nat :=
  if want ≠ 0 ∧ want ∉ children.map Prod.snd then want else (children.map Prod.snd).sum + 1

/-- `sizeof(struct worker_t)`. -/
def SIZEOF_WORKER_T : UInt64 := 40

/-- The entry of a worker that is not spawned yet. -/
def WorkerEntry.initial : WorkerEntry := ⟨-1, -1, .zero⟩

/-- `scalloc`, and the loop that initializes the workers; `false` where
there is no memory. -/
def allocateWorkers : MainProgram args Bool := do
  let x ← Prog.ask
  match (scalloc args.numWorkers.toUInt64 SIZEOF_WORKER_T x.mmap ⟨[], fun _ => 0⟩).2 with
  | .error _ => pure false
  | .ok _ => do
    Prog.modify fun s => { s with workers := List.replicate args.numWorkers.toNat .initial }
    pure true

/-- A turn of the spawn loop, in the parent. -/
def spawnTester (i : Nat) : MainProgram args Unit := do
  let x ← Prog.ask
  match x.fork with
  | none => pure ()
  | some want =>
    Prog.modify fun s =>
      let pid := freshPid want s.children
      { s with
        workers := s.workers.modify i fun e => { e with pid := pid }
        activeWorkers := s.activeWorkers + 1
        children := s.children ++ [(i, pid)] }

/-- The spawn loop: `k` workers from number `i` on. -/
def spawnTesters : Nat → Nat → MainProgram args Unit
  | 0, _ => pure ()
  | k + 1, i => do
    spawnTester i
    spawnTesters k (i + 1)

/-! ## Waiting -/

/-- The child that `wait` reports. What it counted is in the shared
memory by then. -/
def MainState.reap (s : MainState args) (k i : Nat) (ending : ChildEnd args) : MainState args :=
  { s with
    workers := s.workers.modify i fun e => { e with results := ending.results }
    children := s.children.eraseIdx k
    ended := Function.update s.ended i (some ending) }

/-- `wait(&status)`: the process number and the status, or -1 where there
is no child left. -/
def wait : MainProgram args (Int × Int) := do
  let x ← Prog.ask
  let s ← Prog.get
  let k := x.child % s.children.length
  match s.children[k]? with
  | none => pure (-1, 0)
  | some (i, pid) => do
    Prog.modify fun s => s.reap k i x.ending
    pure (pid, x.ending.status)

/-- The search of the process table: the status goes to the first worker
with that process number. -/
def setStatus (pid status : Int) : List WorkerEntry → List WorkerEntry
  | [] => []
  | e :: rest =>
    if e.pid = pid then { e with status := status } :: rest else e :: setStatus pid status rest

/-- `while (pid = wait(&status), pid > 0)`. -/
def waitAll : MainProgram args Unit :=
  Prog.iterate (fun _ => do
    let (pid, status) ← wait
    if 0 < pid then do
      Prog.modify fun s => { s with workers := setStatus pid status s.workers }
      pure (.inl ())
    else pure (.inr ())) ()

/-! ## Summing up -/

def Results.plus (a b : Results) : Results :=
  ⟨a.total + b.total, a.successful + b.successful, a.timeout + b.timeout, a.mismatch + b.mismatch⟩

/-- The sum over the workers that exited successfully, and how many they
are. -/
def sumResults (workers : List WorkerEntry) : Report :=
  workers.foldl (fun sum e =>
    if e.status = 0 then ⟨sum.results.plus e.results, sum.successes + 1⟩ else sum) ⟨.zero, 0⟩

/-- `main`, behind the parsing of the arguments: what it reports, or
`none` where it exits with a failure. -/
def testerMain : MainProgram args (Option Report) := do
  if ← allocateWorkers then do
    spawnTesters args.numWorkers.toNat 0
    let s ← Prog.get
    if s.activeWorkers = 0 then pure none
    else do
      waitAll
      let s ← Prog.get
      let sum := sumResults s.workers
      if sum.successes = 0 then pure none
      else pure (some sum)
  else pure none

/-! ## The rates -/

/-- What `main` prints. -/
structure Printed where
  report : Report
  attemptRate : UInt64
  successRate : UInt64
  deriving DecidableEq

/-- `total / args.duration`, which is undefined for a duration of 0. -/
def perSecond (total : UInt64) (duration : UInt32) : MainProgram args UInt64 :=
  Prog.step fun s => if duration = 0 then none else some (s, total / duration.toUInt64)

/-- `main`, to its end: what it prints, or `none` where it exits with a
failure. -/
def benchmark (duration : UInt32) : MainProgram args (Option Printed) := do
  match ← testerMain with
  | none => pure none
  | some report => do
    let attemptRate ← perSecond report.results.total duration
    let successRate ← perSecond report.results.successful duration
    pure (some ⟨report, attemptRate, successRate⟩)

/-- The timer of a worker ticks only if it was set to a duration. -/
def Ticks (duration : UInt32) (y : WorkerAnswer) : Prop :=
  ∀ timer socket, y.poll = .ready timer socket → hasEvent timer POLLIN = true → duration ≠ 0

/-- How a worker can end whose timer is set to the duration. -/
inductive EndsTimed (args : Args) (duration : UInt32) : Results → Int → Prop where
  | exited (ans rest : List WorkerAnswer) (code : ExitCode) (w : WorkerState)
      (h : workerProcess args .start ans = .done code w rest)
      (htimer : ∀ y ∈ ans, Ticks duration y) :
      EndsTimed args duration w.results (exitStatus code)
  | killed (results : Results) (status : Int) (h : status ≠ 0) :
      EndsTimed args duration results status

/-- The worker ended as one whose timer is set to the duration. -/
def ChildEnd.Timed (duration : UInt32) (x : ChildEnd args) : Prop :=
  EndsTimed args duration x.results x.status

end Sgopher.Tester
