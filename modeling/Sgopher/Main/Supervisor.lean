/-
Sgopher.Main.Supervisor — `main` as the supervisor of its workers: it
forks them, waits for their exits and for SIGTERM in an event loop, and
cleans up.

A worker is known to the supervisor by the descriptor of its process, so
the table of open descriptors says which worker a pidfd stands for. The
child's side of the fork is the worker of `Sgopher.Server`; `main` goes on
as the parent.

`log` is not in the source: it lists what the supervisor did for its
workers, in order. What the source writes to standard error is left out,
but for what it reports of its arguments. The redirection of the standard
descriptors, which comes before all this, is in `Sgopher.Service.Processes`.

The C library takes the command line apart and calls `argp_parse_options`
once for each option, in order, with the option's argument. Its calls with
keys of its own, for which the function returns `ARGP_ERR_UNKNOWN`, change
nothing and are left out, and so are the texts for `--help`.
-/
import Sgopher.Lib.Descriptors
import Sgopher.Lib.Keyed
import Sgopher.Lib.Scan
import Sgopher.Sepoll.Loop
import Sgopher.Server.Cgi

namespace Sgopher.Main

open Sgopher.Lib Sgopher.Sepoll

/-! ## The command line -/

/-- `enum arg_keys_t`. -/
inductive ArgKey where
  | directory
  | hostname
  | indexfile
  | maxClients
  | port
  | timeout
  | workers
  deriving DecidableEq, Repr

/-- `struct args_t`. Strings are without their NUL. -/
structure Args where
  directory : Bytes
  hostname : Bytes
  indexfile : Bytes
  maxClients : UInt32
  port : UInt16
  timeout : UInt32
  numWorkers : UInt32
  deriving DecidableEq, Repr

/-- `argp_parse_options`. -/
def argpParseOptions (key : ArgKey) (arg : Bytes) (args : Args) : Args :=
  match key with
  | .directory => { args with directory := arg }
  | .hostname => { args with hostname := arg }
  | .indexfile => { args with indexfile := arg }
  | .maxClients => { args with maxClients := scanInto .u storeUInt arg args.maxClients }
  | .port => { args with port := scanInto .u storeUShort arg args.port }
  | .timeout => { args with timeout := scanInto .u storeUInt arg args.timeout }
  | .workers => { args with numWorkers := scanInto .u storeUInt arg args.numWorkers }

/-- `main`, "Default argument values". -/
def Args.default : Args where
  directory := ascii "./gopherroot"
  hostname := ascii "localhost"
  indexfile := ascii ".gophermap"
  maxClients := 1000
  port := 70
  timeout := 10
  numWorkers := 1

/-- `argp_parse`: the options of the command line, in order. -/
def argpParse (options : List (ArgKey × Bytes)) : Args :=
  runCalls argpParseOptions options .default

/-- `main`, "Copy arguments to server parameters". -/
def Args.params (args : Args) : Server.Params where
  hostname := args.hostname
  port := args.port
  maxClients := args.maxClients
  timeout := args.timeout
  directory := args.directory
  indexfile := args.indexfile

/-- `main`, "Report arguments": what is printed for each option. -/
def Args.report (args : Args) : List (ArgKey × Bytes) :=
  [(.directory, args.directory),
   (.hostname, args.hostname),
   (.indexfile, args.indexfile),
   (.maxClients, decimal args.maxClients.toNat),
   (.port, decimal args.port.toNat),
   (.timeout, decimal args.timeout.toNat),
   (.workers, decimal args.numWorkers.toNat)]

/-! ## Data -/

/-- `struct worker_t`. -/
structure Worker where
  number : UInt32
  pid : Int
  pidfd : Int
  deriving DecidableEq, Repr

/-- `struct supervisor_t`; `loop` is the descriptor of its event loop,
`none` where the pointer is null. -/
structure Supervisor where
  workers : List Worker
  numWorkers : UInt32
  activeWorkers : UInt32
  sigfd : Int
  loop : Option Int

/-- What a descriptor of the supervisor refers to. -/
inductive Object where
  | worker (i : Nat)
  | signals
  | epoll
  deriving DecidableEq, Repr

/-- What the supervisor does: it forks worker `i`, handles its exit, or
sends it a signal; it reads a SIGTERM; and it calls `sepoll_exit`. -/
inductive Event where
  | forked (i : Nat)
  | handled (i : Nat)
  | signal (i : Nat) (signo : Nat)
  | term
  | exitLoop
  deriving DecidableEq, Repr

/-- The supervisor's process. -/
structure Process where
  supervisor : Supervisor
  fds : Heap Object
  log : List Event

/-- The functions the supervisor registers with its event loop. -/
inductive Handler where
  | sigfdEvent
  | pidfdEvent
  deriving DecidableEq

/-- The pointers they are registered with. -/
inductive Arg where
  | supervisor
  | worker (i : Nat)
  | null
  deriving DecidableEq

/-- The argument of `exit`. -/
inductive ExitStatus where
  | success
  | failure
  deriving DecidableEq, Repr

/-- A call of `exit`, and whether `supervisor_cleanup` was given to
`on_exit` before. -/
structure Exit where
  code : ExitStatus
  onExit : Bool
  deriving DecidableEq, Repr

/-- What the system answers. Each call reads the field that is meant for
it: `memory` is for `malloc` and `calloc`, `fork` the pid and the pidfd of
a child, `create` the descriptor of the event loop where there was memory
for it. -/
structure Answer where
  loop : LoopAnswer := {}
  memory : Bool := true
  fork : Option (Int × Int) := none
  sigprocmask : Option Errno := none
  signalfd : Except Errno Int := .error .ENOMEM
  create : Option Int := none
  read : Except Errno Nat := .error .EAGAIN
  kill : Option Errno := none
  waitid : Option Errno := none

instance : LoopAnswers Answer := ⟨Answer.loop⟩

/-- A supervisor with its event loop. -/
abbrev World := Sepoll.World Handler Arg Process

/-- Programs of the supervisor. -/
abbrev Program (α : Type) := Prog Answer World α

/-! ## Calls -/

/-- A system call: the next answer. -/
def systemCall : Program Answer := Prog.ask

/-- What no contract covers. -/
def fault {α : Type} : Program α := Prog.step fun _ => none

def getSupervisor : Program Supervisor := do
  let w ← Prog.get
  pure w.own.supervisor

def setSupervisor (f : Supervisor → Supervisor) : Program Unit :=
  Prog.modify fun w => { w with own := { w.own with supervisor := f w.own.supervisor } }

def note (e : Event) : Program Unit :=
  Prog.modify fun w => { w with own := { w.own with log := w.own.log ++ [e] } }

/-- What an open descriptor refers to. -/
def useFd (fd : Int) : Program Object :=
  Prog.step fun w => (w.own.fds.object fd).map fun o => (w, o)

/-- The number of a new descriptor. -/
def openFd (want : Int) (o : Object) : Program Int :=
  Prog.step fun w =>
    some ({ w with own := { w.own with fds := (w.own.fds.openFd want o).1 } },
      (w.own.fds.openFd want o).2)

/-- `close`. The kernel drops the registration of a descriptor that is
closed. -/
def closeFd (fd : Int) : Program Unit :=
  Prog.step fun w =>
    (w.own.fds.closeFd fd).map fun fds =>
      ({ w with
          loop := { w.loop with interest := Function.update w.loop.interest fd none }
          own := { w.own with fds := fds } }, ())

def SIGKILL : Nat := 9

def SIGTERM : Nat := 15

/-- `pidfd_send_signal`, whose result is only reported. -/
def pidfdSendSignal (fd : Int) (sig : Nat) : Program Unit := do
  match ← useFd fd with
  | .worker i => note (.signal i sig)
  | _ => fault
  let _ ← systemCall

/-! ## The handlers -/

/-- The body of `signal_all_workers`, for one worker. -/
def signalWorker (sig : Nat) (closePidfd : Bool) (worker : Worker) : Program Unit :=
  Prog.when (0 ≤ worker.pidfd) do
    pidfdSendSignal worker.pidfd sig
    Prog.when closePidfd (closeFd worker.pidfd)

/-- The loop of `signal_all_workers`. -/
def signalWorkers (sig : Nat) (closePidfd : Bool) : List Worker → Program Unit
  | [] => pure ()
  | worker :: rest => do
    signalWorker sig closePidfd worker
    signalWorkers sig closePidfd rest

/-- `signal_all_workers`. -/
def signalAllWorkers (sig : Nat) (closePidfd : Bool) : Program Unit := do
  let s ← getSupervisor
  signalWorkers sig closePidfd s.workers

/-- `sigfd_event`. A read that gives less than a whole record is an error
other than `EAGAIN`. -/
def sigfdEvent : Program Unit :=
  Prog.iterate (fun _ => do
    let s ← getSupervisor
    let _ ← useFd s.sigfd
    let x ← systemCall
    match x.read with
    | .error _ => pure (.inr ())
    | .ok signo => do
      Prog.when (signo = SIGTERM) do
        note .term
        signalAllWorkers SIGTERM false
      pure (.inl ())) ()

/-- A field of `supervisor->workers[i]`, which must be in the array. -/
def getWorker (i : Nat) : Program Worker :=
  Prog.step fun w => (w.own.supervisor.workers[i]?).map fun worker => (w, worker)

/-- `pidfd_event`. The result of `waitid` is only reported. -/
def pidfdEvent (i : Nat) : Program Unit := do
  let worker ← getWorker i
  let _ ← useFd worker.pidfd
  let _ ← systemCall
  note (.handled i)
  let _ ← sepollRemove worker.pidfd
  closeFd worker.pidfd
  setSupervisor fun s => { s with
    workers := s.workers.set i { worker with pidfd := -1 }
    activeWorkers := s.activeWorkers - 1 }
  let s ← getSupervisor
  Prog.when (s.activeWorkers = 0) do
    note .exitLoop
    sepollExit

/-- What each registered function stands for. -/
def handle : Handler → UInt32 → Arg → Arg → Program Unit
  | .sigfdEvent, _, _, _ => sigfdEvent
  | .pidfdEvent, _, _, .worker i => pidfdEvent i
  | .pidfdEvent, _, _, _ => fault

/-! ## Cleaning up -/

/-- `supervisor_cleanup`. The descriptor of the event loop is closed
inside `sepoll_destroy`. -/
def supervisorCleanup (code : ExitStatus) : Program Unit := do
  Prog.when (code = .failure) (signalAllWorkers SIGKILL true)
  setSupervisor fun s => { s with workers := [] }
  let s ← getSupervisor
  Prog.when (0 ≤ s.sigfd) (closeFd s.sigfd)
  match s.loop with
  | none => pure ()
  | some epollfd => do
    sepollDestroy
    closeFd epollfd

/-! ## Spawning -/

/-- A turn of the spawn loop, in the parent. -/
def spawnWorker (i : Nat) : Program Unit := do
  let x ← systemCall
  match x.fork with
  | none => pure ()
  | some (pid, want) => do
    let pidfd ← openFd want (.worker i)
    note (.forked i)
    setSupervisor fun s => { s with
      workers := s.workers.set i ⟨UInt32.ofNat i, pid, pidfd⟩
      activeWorkers := s.activeWorkers + 1 }

/-- The spawn loop: `k` workers from number `i` on. -/
def spawnWorkers : Nat → Nat → Program Unit
  | 0, _ => pure ()
  | k + 1, i => do
    spawnWorker i
    spawnWorkers k (i + 1)

/-! ## The event loop -/

/-- `(int)numWorkers + 1`: the conversion wraps around, and the addition
is undefined where it overflows. -/
def loopSize (numWorkers : UInt32) : Option Int :=
  let n : Int := if numWorkers.toNat < 2 ^ 31 then numWorkers.toNat else numWorkers.toNat - 2 ^ 32
  if n = 2 ^ 31 - 1 then none else some (n + 1)

/-- `sepoll_create`. A negative size is converted to one no `calloc` has
room for. -/
def createLoop (size : Int) : Program Bool := do
  let x ← systemCall
  match x.create, (sepollCreate size true (decide (0 ≤ size)) true : Option (Loop Handler Arg)) with
  | some want, some loop => do
    let epollfd ← openFd want .epoll
    Prog.modify fun w => { w with loop := loop }
    setSupervisor fun s => { s with loop := some epollfd }
    pure true
  | _, _ => pure false

/-- `sepoll_add` for each worker that was spawned, from number `i` on. -/
def registerWorkers : Nat → List Worker → Program Unit
  | _, [] => pure ()
  | i, worker :: rest => do
    Prog.when (-1 < worker.pidfd) do
      let _ ← sepollAdd worker.pidfd EPOLLIN (some .pidfdEvent) .supervisor (.worker i)
    registerWorkers (i + 1) rest

/-- The registrations `main` makes before it enters the loop. -/
def register : Program Unit := do
  let s ← getSupervisor
  let _ ← sepollAdd s.sigfd (EPOLLIN ||| EPOLLET) (some .sigfdEvent) .supervisor .null
  registerWorkers 0 s.workers

/-- The supervisor's task up to its event loop; `false` where it fails. -/
def launch : Program Bool := do
  let s ← getSupervisor
  if s.activeWorkers = 0 then pure false
  else do
    let x ← systemCall
    if x.sigprocmask.isSome then pure false
    else do
      let x ← systemCall
      match x.signalfd with
      | .error _ => pure false
      | .ok want => do
        let sigfd ← openFd want .signals
        setSupervisor fun s => { s with sigfd := sigfd }
        match loopSize s.numWorkers with
        | none => fault
        | some size => do
          if ← createLoop size then do
            register
            pure true
          else pure false

/-- The event loop. Once `sepoll_enter` has returned, the supervisor
reports that all workers exited. -/
def serve : Program ExitStatus := do
  let _ ← sepollEnter handle (-1) none
  pure .success

/-- The supervisor's task, from the spawned workers to the call of
`exit`. -/
def supervise : Program ExitStatus := do
  if ← launch then serve else pure .failure

/-! ## The process -/

/-- A supervisor that has allocated its workers. -/
def Supervisor.new (numWorkers : UInt32) : Supervisor where
  workers := List.replicate numWorkers.toNat ⟨0, 0, -1⟩
  numWorkers := numWorkers
  activeWorkers := 0
  sigfd := -1
  loop := none

/-- The process before its first call; there is no event loop yet. -/
def started : World where
  loop := .created 0
  own := { supervisor := .new 0, fds := Heap.empty, log := [] }

/-- `main`, up to the last fork; `false` where there was no memory for the
supervisor. -/
def spawn (numWorkers : UInt32) : Program Bool := do
  let x ← systemCall
  if !x.memory then pure false
  else do
    let x ← systemCall
    if !x.memory then pure false
    else do
      setSupervisor fun _ => .new numWorkers
      spawnWorkers numWorkers.toNat 0
      pure true

/-- `main`, up to its call of `exit`. -/
def mainUntilExit (numWorkers : UInt32) : Program Exit := do
  if ← spawn numWorkers then do
    let code ← supervise
    pure ⟨code, true⟩
  else pure ⟨.failure, false⟩

/-- `main`. -/
def main (numWorkers : UInt32) : Program ExitStatus := do
  let exit ← mainUntilExit numWorkers
  Prog.when exit.onExit (supervisorCleanup exit.code)
  pure exit.code

end Sgopher.Main
