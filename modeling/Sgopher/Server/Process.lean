/-
Sgopher.Server.Process — the worker process: accepting connections, the
signal and the timer, cleaning up, and the run of the whole from the event
loop on.

`server_timer` walks the list of clients and may free the one it stands
on, so it reads the link to the next one first; `listNext` is that read,
and faults on a client that was freed. The walk gets as much fuel as there
are clients, since the list only gets shorter.
-/
import Sgopher.Server.Client

namespace Sgopher.Server

open Sgopher.Lib Sgopher.Sepoll

/-! ## The listening socket -/

def setHolding (h : Holding) : Program Unit := setWorker fun k => { k with holding := h }

/-- Refuse a connection that does not become a client. -/
def turnAway (fd : Int) (m : Menu) : Program Unit := do
  sendMenu fd m
  closeFd fd
  setHolding .nothing

/-- The client of a connection that was just accepted. -/
def newClient (fd : Int) (address : Bytes) (now : Int) : Client where
  socket := fd
  address := address
  timestamp := now
  buffer := []
  file := -1
  filesize := none
  sentsize := 0
  dirfd := -1
  pidfd := -1

/-- `malloc` and the fields of the new client. The connection is the
client's from here on. -/
def allocClient (want : Nat) (c : Client) : Program Nat :=
  Prog.step fun w =>
    let a := w.own.mem.fresh want
    some ({ w with own := { w.own with mem := w.own.mem.alloc want c, holding := .client a } }, a)

/-- `LIST_INSERT_HEAD`, and the count. -/
def insertClient (a : Nat) : Program Unit :=
  setWorker fun k => { k with
    holding := .nothing
    server := { k.server with
      clients := a :: k.server.clients
      numClients := k.server.numClients + 1 } }

/-- Remember that a socket could not be watched; the source goes on as if
it were. -/
def noteAdd (fd : Int) : Ret → Program Unit
  | .error _ => note fd .unwatched
  | .ok () => pure ()

/-- What is done with a connection. -/
def takeConnection (fd : Int) (address : Bytes) : Program Unit := do
  let s ← getServer
  if s.numClients = s.params.maxClients then turnAway fd .unavailable
  else do
    let x ← systemCall
    match x.malloc with
    | none => turnAway fd .internal
    | some want => do
      let a ← allocClient want (newClient fd address x.time)
      let ret ← sepollAdd fd (EPOLLIN ||| EPOLLET) (some .clientSocket) .server (.client a)
      noteAdd fd ret
      insertClient a

/-- Accept incoming connections until it blocks; `false` where the
function returns for another error. -/
def acceptAll : Program Bool :=
  Prog.iterate (fun _ => do
    let s ← getServer
    let _ ← useFd s.socket
    let x ← systemCall
    match x.accept with
    | .error e => pure (.inr (e == .EAGAIN))
    | .ok (want, address) => do
      let fd ← openFd want .connection
      setHolding (.connection fd)
      takeConnection fd address
      pure (.inl ())) ()

/-- `server_socket`. What it does on EPOLLERR and EPOLLHUP is report them
to standard error. -/
def serverSocket (events : UInt32) : Program Unit :=
  if hasEvent events EPOLLIN then do
    let _ ← acceptAll
    pure ()
  else pure ()

/-! ## Signal and timer -/

/-- `SIGTERM`. -/
def SIGTERM : Nat := 15

/-- `server_signal`. A read that gives less than a whole record is an
error other than `EAGAIN`. -/
def serverSignal : Program Unit :=
  Prog.iterate (fun _ => do
    let s ← getServer
    let _ ← useFd s.sigfd
    let x ← systemCall
    match x.signal with
    | .error _ => pure (.inr ())
    | .ok signo => do
      Prog.when (signo = SIGTERM) do
        setWorker fun k => { k with terminated := true }
        sepollExit
      pure (.inl ())) ()

/-- `LIST_NEXT`. -/
def listNext (a : Nat) : Program (Option Nat) :=
  Prog.step fun w => (w.own.mem.cell a).map fun _ =>
    (w, (w.own.server.clients.dropWhile (· ≠ a)).tail.head?)

/-- What the timer does with one client: `timeout` is in seconds, and
`tcpi_last_data_sent` in milliseconds, compared in `unsigned int`. -/
def timerClient (now : Int) (a : Nat) : Program Unit := do
  let s ← getServer
  let c ← getClient a
  Prog.when ((s.params.timeout.toNat : Int) ≤ now - c.timestamp) do
    if 0 ≤ c.pidfd then do
      let _ ← useFd c.socket
      let x ← systemCall
      match x.tcpInfo with
      | .error _ => pidfdKillClient a
      | .ok lastDataSent =>
        Prog.when (s.params.timeout * 1000 ≤ lastDataSent) (pidfdKillClient a)
    else do
      Prog.when (c.sentsize = 0) (sendMenu c.socket .timeout)
      clientDisconnect a

/-- The walk over the clients, from the one at hand. -/
def timerWalk (now : Int) : Nat → Option Nat → Program Unit
  | _, none => pure ()
  | 0, some _ => fault
  | fuel + 1, some a => do
    let next ← listNext a
    timerClient now a
    timerWalk now fuel next

/-- `server_timer`. -/
def serverTimer : Program Unit := do
  let s ← getServer
  let _ ← useFd s.timerfd
  let _ ← systemCall
  let x ← systemCall
  let s ← getServer
  timerWalk x.time s.clients.length s.clients.head?

/-! ## The event loop's calls -/

/-- What each registered function stands for. -/
def handle : Handler → UInt32 → Arg → Arg → Program Unit
  | .clientSocket, events, _, .client a => clientSocket events a
  | .clientPidfd, _, _, .client a => clientPidfd a
  | .serverSocket, events, _, _ => serverSocket events
  | .serverSignal, _, _, _ => serverSignal
  | .serverTimer, _, _, _ => serverTimer
  | _, _, _, _ => fault

/-! ## Cleaning up -/

/-- `server_cleanup` for one client. -/
def cleanupClient (a : Nat) : Program Unit := do
  let c ← getClient a
  Prog.when (0 ≤ c.pidfd) do
    let _ ← useFd c.pidfd
    let _ ← systemCall
    closeFd c.pidfd
  Prog.when (0 ≤ c.file) (closeFd c.file)
  Prog.when (0 ≤ c.dirfd) (closeFd c.dirfd)
  closeFd c.socket
  Prog.step fun w =>
    (w.own.mem.free a).map fun mem => ({ w with own := { w.own with mem := mem } }, ())

/-- The walk of `server_cleanup`, which reads each link before it frees
the client that holds it. -/
def cleanupClients : List Nat → Program Unit
  | [] => pure ()
  | a :: rest => do
    cleanupClient a
    cleanupClients rest

/-- `server_cleanup`. The descriptor of the event loop is closed inside
`sepoll_destroy`. -/
def serverCleanup : Program Unit := do
  let s ← getServer
  sepollDestroy
  closeFd s.epollfd
  cleanupClients s.clients
  Prog.when (0 ≤ s.socket) (closeFd s.socket)
  Prog.when (0 ≤ s.timerfd) (closeFd s.timerfd)
  Prog.when (0 ≤ s.sigfd) (closeFd s.sigfd)
  Prog.when (0 ≤ s.directory) (closeFd s.directory)

/-! ## The process -/

/-- A worker that has opened its five descriptors and has no client yet:
the numbers are the ones the system offers. -/
def Worker.started (params : Params) (directory sigfd timerfd socket epollfd : Int) : Worker :=
  let d := (Heap.empty : Heap Object).openFd directory .server
  let g := d.1.openFd sigfd .server
  let t := g.1.openFd timerfd .server
  let s := t.1.openFd socket .server
  let e := s.1.openFd epollfd .server
  { server :=
      { params := params, directory := d.2, sigfd := g.2, timerfd := t.2, socket := s.2,
        epollfd := e.2, numClients := 0, clients := [] }
    mem := Heap.empty
    fds := e.1
    holding := .nothing
    log := fun _ => []
    terminated := false }

/-- A worker that has just created its event loop, for that many events in
a batch. -/
def started (size : Int) (params : Params) (directory sigfd timerfd socket epollfd : Int) :
    World where
  loop := .created size
  own := .started params directory sigfd timerfd socket epollfd

/-- The registrations `server_process` makes before it enters the loop. -/
def register : Program Unit := do
  let s ← getServer
  let _ ← sepollAdd s.sigfd (EPOLLIN ||| EPOLLET) (some .serverSignal) .server .null
  let _ ← sepollAdd s.timerfd EPOLLIN (some .serverTimer) .server .null
  let _ ← sepollAdd s.socket (EPOLLIN ||| EPOLLET) (some .serverSocket) .server .null
  pure ()

/-- `server_process`, from the registrations to the exit handler. -/
def serverProcess : Program Unit := do
  register
  let _ ← sepollEnter handle (-1) none
  serverCleanup

end Sgopher.Server
