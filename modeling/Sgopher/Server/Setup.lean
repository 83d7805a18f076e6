/-
Sgopher.Server.Setup — the worker process from its first call on.

`server_process` prepares its signals, raises its descriptor limit,
allocates its state and opens its descriptors, and only then registers
them and enters the event loop. Each of these steps can fail, and then the
process exits; from `on_exit` on it runs `server_cleanup` first, over a
state of which any part may be missing: a descriptor field that is -1, an
event loop that is NULL.

What comes after the set-up is the worker of `Sgopher.Server.Process`,
taken over as it is (`serve`). `server` and `loop` are the addresses of
the two structures, 0 for NULL, and `events` that of the loop's array, so
that what is allocated and freed on the way is accounted for; the fields
of the two structures are those of the worker.

What the source writes to standard error is left out.
-/
import Sgopher.Lib.Ghost
import Sgopher.Server.Limits

namespace Sgopher.Server

open Sgopher.Lib Sgopher.Sepoll

/-! ## Data -/

/-- The memory a worker allocates besides its clients and callbacks. -/
inductive Block where
  | server
  | loop
  | events
  deriving DecidableEq, Repr

/-- What a worker has done about its signals. -/
structure Signals where
  parentDeath : Option Nat
  ignored : List Nat
  blocked : List Nat
  deriving DecidableEq, Repr

/-- The argument of `exit`. -/
inductive ExitCode where
  | success
  | failure
  deriving DecidableEq, Repr

/-- A worker process. `interval` is what its timer is set to, and
`listening` the port it listens on, with the backlog. -/
structure Proc where
  world : World
  memory : Heap Block
  server : Nat
  loop : Nat
  events : Nat
  limit : Rlimit
  signals : Signals
  interval : Option UInt32
  listening : Option (UInt16 × Nat)

/-- What the system answers. Each call reads the field that is meant for
it: `status` is for the calls that only succeed or fail, `descriptor` for
those that open one, `memory` for `malloc` and `calloc`; the calls from
the registrations on read `serve`. -/
structure ProcAnswer where
  serve : Answer := {}
  status : Option Errno := none
  descriptor : Except Errno Int := .ok 3
  memory : Option Nat := some 1
  limits : LimitAnswer := {}
  settime : Option Errno := none

/-- A worker that has its event loop still to create: `fds` are its open
descriptors, and `s` are its fields. -/
def bare (fds : Heap Object) (s : ServerState) : World where
  loop := .created 0
  own :=
    { server := s
      mem := Heap.empty
      fds := fds
      holding := .nothing
      log := fun _ => []
      terminated := false }

/-- The fields before anything is opened. -/
def ServerState.new (params : Params) : ServerState where
  params := params
  directory := -1
  socket := -1
  sigfd := -1
  timerfd := -1
  epollfd := -1
  numClients := 0
  clients := []

namespace Proc

/-- A process that was just forked, and serves under that limit. -/
def forked (params : Params) (limit : Rlimit) : Proc where
  world := bare Heap.empty (.new params)
  memory := Heap.empty
  server := 0
  loop := 0
  events := 0
  limit := limit
  signals := ⟨none, [], []⟩
  interval := none
  listening := none

/-- Programs of the whole process. -/
abbrev Program (α : Type) := Prog ProcAnswer Proc α

/-! ## Calls -/

/-- The worker is a part of its process. -/
def part : Part Proc World := ⟨Proc.world, fun p w => { p with world := w }, fun _ _ => rfl⟩

/-- A part of the worker, as it is. -/
def serve {α : Type} (m : Server.Program α) : Program α :=
  Prog.within part (Prog.via ProcAnswer.serve m)

/-- A system call: the next answer. -/
def systemCall : Program ProcAnswer := Prog.ask

/-- A call that only succeeds or fails; `false` where it failed. -/
def check : Program Bool := do
  let x ← systemCall
  pure x.status.isNone

/-- A call that opens a descriptor, if it does. -/
def openNew : Program (Option Int) := do
  let x ← systemCall
  match x.descriptor with
  | .error _ => pure none
  | .ok want => do
    let fd ← serve (openFd want .server)
    pure (some fd)

/-- `malloc` and `calloc`, where there is memory. -/
def alloc (want : Nat) (b : Block) : Program Nat :=
  Prog.step fun p => some ({ p with memory := p.memory.alloc want b }, p.memory.fresh want)

def free (a : Nat) : Program Unit :=
  Prog.step fun p => (p.memory.free a).map fun memory => ({ p with memory := memory }, ())

def setServer (f : ServerState → ServerState) : Program Unit :=
  serve (setWorker fun k => { k with server := f k.server })

/-! ## Signals and limits -/

def SIGCHLD : Nat := 17

def SIGPIPE : Nat := 13

def setSignals (f : Signals → Signals) : Program Unit :=
  Prog.modify fun p => { p with signals := f p.signals }

/-- `setupsignals`. -/
def setupsignals : Program Bool := do
  if ← check then do
    setSignals fun g => { g with parentDeath := some SIGTERM }
    if ← check then do
      setSignals fun g => { g with ignored := SIGCHLD :: g.ignored }
      if ← check then do
        setSignals fun g => { g with ignored := SIGPIPE :: g.ignored }
        pure true
      else pure false
    else pure false
  else pure false

/-- `increasefdlimit`. -/
def increasefdlimit (inc : UInt64) : Program Bool := do
  let x ← systemCall
  let p ← Prog.get
  let (limit, r) := Server.increasefdlimit inc x.limits p.limit
  Prog.modify fun p => { p with limit := limit }
  pure (decide (0 ≤ r))

/-! ## Descriptors -/

/-- A call for a new socket; where it fails the socket is closed. -/
def orClose (fd : Int) (next : Program (Option Int)) : Program (Option Int) := do
  if ← check then next
  else do
    serve (closeFd fd)
    pure none

/-- `open_socket`: the two options, `bind` and `listen`. -/
def openSocket (port : UInt16) : Program (Option Int) := do
  match ← openNew with
  | none => pure none
  | some sockfd =>
    orClose sockfd <| orClose sockfd <| orClose sockfd <| orClose sockfd do
      Prog.modify fun p => { p with listening := some (port, 256) }
      pure (some sockfd)

/-- `open_sigfd`. -/
def openSigfd : Program (Option Int) := do
  if ← check then do
    setSignals fun g => { g with blocked := SIGTERM :: g.blocked }
    openNew
  else pure none

/-- `open_timerfd`. A timer that cannot be set is not closed. -/
def openTimerfd (interval : UInt32) : Program (Option Int) := do
  match ← openNew with
  | none => pure none
  | some timerfd => do
    let x ← systemCall
    if x.settime.isSome then pure none
    else do
      Prog.modify fun p => { p with interval := some interval }
      pure (some timerfd)

/-- `sepoll_create`, and the pointer `server->loop`. The conversion to
`size_t` makes a negative size one that `calloc` has no room for. -/
def createLoop (size : Int) : Program Bool := do
  let x ← systemCall
  match x.memory with
  | none => pure false
  | some want => do
    let loop ← alloc want .loop
    let x ← systemCall
    match x.memory, decide (0 ≤ size) with
    | some want, true => do
      let events ← alloc want .events
      match ← openNew with
      | none => do
        free events
        free loop
        pure false
      | some epollfd => do
        serve (Prog.modify fun w => { w with loop := .created size })
        setServer fun s => { s with epollfd := epollfd }
        Prog.modify fun p => { p with loop := loop, events := events }
        pure true
    | _, _ => do
      free loop
      pure false

/-! ## Cleaning up -/

/-- `sepoll_destroy`. -/
def destroyLoop : Program Unit := do
  let p ← Prog.get
  serve sepollDestroy
  serve (closeFd p.world.own.server.epollfd)
  free p.events
  free p.loop

/-- `server_cleanup`. -/
def serverCleanup : Program Unit := do
  let p ← Prog.get
  let s := p.world.own.server
  Prog.when (p.loop ≠ 0) destroyLoop
  serve (cleanupClients s.clients)
  serve (Prog.when (0 ≤ s.socket) (closeFd s.socket))
  serve (Prog.when (0 ≤ s.timerfd) (closeFd s.timerfd))
  serve (Prog.when (0 ≤ s.sigfd) (closeFd s.sigfd))
  serve (Prog.when (0 ≤ s.directory) (closeFd s.directory))
  free p.server

/-! ## The process -/

/-- `server->field = …`, and the test that follows. -/
def keep (m : Program (Option Int)) (set : ServerState → Int → ServerState) (next : Program Bool) :
    Program Bool := do
  match ← m with
  | none => pure false
  | some fd => do
    setServer fun s => set s fd
    next

/-- What `server_process` opens before it registers anything; `false`
where it exits because of a failure. -/
def openAll (params : Params) : Program Bool :=
  keep openNew (fun s fd => { s with directory := fd }) <|
  keep openSigfd (fun s fd => { s with sigfd := fd }) <|
  keep (openTimerfd params.timeout) (fun s fd => { s with timerfd := fd }) <|
  keep (openSocket params.port) (fun s fd => { s with socket := fd }) <|
  match eventLoopSize params.maxClients with
  | none => serve fault
  | some size => createLoop size

/-- How far the set-up gets: it exits before or after `on_exit`, or it is
done. -/
inductive Prepared where
  | unregistered
  | failed
  | ready
  deriving DecidableEq

/-- `server_process`, up to the registrations. -/
def prepare (params : Params) : Program Prepared := do
  if ← setupsignals then
    if ← increasefdlimit (fdsNeeded params.maxClients) then do
      let x ← systemCall
      match x.memory with
      | none => pure .unregistered
      | some want => do
        let server ← alloc want .server
        Prog.modify fun p => { p with server := server }
        if ← openAll params then pure .ready else pure .failed
    else pure .unregistered
  else pure .unregistered

/-- The registrations and the event loop. -/
def enterLoop : Program Unit := do
  serve register
  let _ ← serve (sepollEnter handle (-1) none)
  pure ()

/-- `server_process`, with the code it exits with. -/
def serverProcess (params : Params) : Program ExitCode := do
  match ← prepare params with
  | .unregistered => pure .failure
  | .failed => do
    serverCleanup
    pure .failure
  | .ready => do
    enterLoop
    serverCleanup
    pure .success

end Proc

end Sgopher.Server
