/-
Sgopher.Server.Worker — the state of a worker process, the answers the
system gives it, and the calls its handlers are made of.

The worker keeps its clients in a heap of `Client` records and a list of
their addresses, as the source does, and its open descriptors in a table
of what they refer to. A call that uses a descriptor or a record that is
gone is a fault, and so is closing a descriptor the event loop still
watches.

Three parts of the state are not in the source. `holding` is what the
local variables of `server_socket` own while a connection is set up. `log`
is what was done for each connection, by the serial number of its socket;
`terminated` remembers that `server_signal` called `sepoll_exit`. What the
source writes to standard error is left out.
-/
import Sgopher.Lib.Descriptors
import Sgopher.Sepoll.Loop
import Sgopher.Server.Cgi

namespace Sgopher.Server

open Sgopher.Lib Sgopher.Sepoll

/-! ## Files -/

/-- What `fstat` tells of a file, and its bytes. -/
structure File where
  mode : UInt32
  size : Nat
  content : Bytes
  deriving DecidableEq, Repr

/-- `S_ISREG`. -/
def File.isReg (f : File) : Bool := Sgopher.isReg f.mode

/-- `S_ISDIR`. -/
def File.isDir (f : File) : Bool := Sgopher.isDir f.mode

/-- What a descriptor can refer to. -/
inductive Object where
  | connection
  | process
  | server
  | file (f : File)
  deriving DecidableEq, Repr

/-! ## Replies -/

/-- The error menus. -/
inductive Menu where
  | bad
  | forbidden
  | notFound
  | timeout
  | internal
  | unavailable
  deriving DecidableEq, Repr

/-- `ERROR_BAD` and the others. -/
def Menu.text : Menu → String
  | .bad => "400 Bad Request"
  | .forbidden => "403 Forbidden"
  | .notFound => "404 Not Found"
  | .timeout => "408 Request Timeout"
  | .internal => "500 Internal Server Error"
  | .unavailable => "503 Service Unavailable"

/-- `ERROR_FORMAT`. -/
def Menu.bytes (m : Menu) : Bytes :=
  ascii "3" ++ ascii m.text ++ [CR, LF] ++ ascii "." ++ [CR, LF]

/-- What the worker does for a connection: it fails to watch its socket;
it enters the EPOLLIN branch, opens a path below the content directory,
starts a program or settles on sending a file; it writes a menu or bytes
of the file to the socket; and it regards the file as sent. -/
inductive Action where
  | unwatched
  | readable
  | openat (path : Bytes)
  | cgi (child : ChildEnd)
  | transmit (f : File)
  | menu (m : Menu)
  | data (bytes : Bytes)
  | finished
  deriving DecidableEq

/-! ## State -/

/-- `struct client_t`. The buffer holds its first `count` bytes;
`filesize` is `none` before it is first set. -/
structure Client where
  socket : Int
  address : Bytes
  timestamp : Int
  buffer : Bytes
  file : Int
  filesize : Option Int
  sentsize : Int
  dirfd : Int
  pidfd : Int

/-- `struct server_t`, with the descriptor of its event loop. -/
structure ServerState where
  params : Params
  directory : Int
  socket : Int
  sigfd : Int
  timerfd : Int
  epollfd : Int
  numClients : UInt32
  clients : List Nat

/-- The functions the worker registers with its event loop. -/
inductive Handler where
  | clientSocket
  | clientPidfd
  | serverSocket
  | serverSignal
  | serverTimer
  deriving DecidableEq

/-- The pointers they are registered with. -/
inductive Arg where
  | server
  | client (a : Nat)
  | null
  deriving DecidableEq

/-- What `server_socket` holds: nothing, the descriptor of a connection it
accepted, or a client that is not in the list yet. -/
inductive Holding where
  | nothing
  | connection (fd : Int)
  | client (a : Nat)
  deriving DecidableEq

/-- A worker, apart from its event loop. -/
structure Worker where
  server : ServerState
  mem : Heap Client
  fds : Heap Object
  holding : Holding
  log : Nat → List Action
  terminated : Bool

/-- What the system answers to `clone3`: the number of the new pidfd, and
what happens in the child. -/
structure ForkAnswer where
  pidfd : Int
  child : ChildAnswer

/-- What the system answers. Each call reads the field that is meant for
it. An offered descriptor is taken where it is free; a read gives at most
the bytes that fit, none at the end of the stream; `sendfile` sends at
most the bytes it was asked for, and no more than there are. -/
structure Answer where
  loop : LoopAnswer := {}
  read : Except Errno Bytes := .error .EAGAIN
  openat : Except Errno (Int × File) := .error .ENOENT
  fstat : Option Errno := none
  fork : Option ForkAnswer := none
  sendfile : Except Errno Nat := .error .EAGAIN
  kill : Option Errno := none
  accept : Except Errno (Int × Bytes) := .error .EAGAIN
  malloc : Option Nat := none
  time : Int := 0
  tcpInfo : Except Errno UInt32 := .ok 0
  signal : Except Errno Nat := .error .EAGAIN

instance : LoopAnswers Answer := ⟨Answer.loop⟩

/-- A worker with its event loop. -/
abbrev World := Sepoll.World Handler Arg Worker

/-- Programs of the worker. -/
abbrev Program (α : Type) := Prog Answer World α

/-! ## Calls -/

/-- A system call: the next answer. -/
def systemCall : Program Answer := Prog.ask

/-- What no contract covers. -/
def fault {α : Type} : Program α := Prog.step fun _ => none

def getServer : Program ServerState := do
  let w ← Prog.get
  pure w.own.server

def setWorker (f : Worker → Worker) : Program Unit :=
  Prog.modify fun w => { w with own := f w.own }

/-- What an open descriptor refers to. -/
def useFd (fd : Int) : Program Object :=
  Prog.step fun w => (w.own.fds.object fd).map fun o => (w, o)

/-- The number of a new descriptor. -/
def openFd (want : Int) (o : Object) : Program Int :=
  Prog.step fun w =>
    some ({ w with own := { w.own with fds := (w.own.fds.openFd want o).1 } },
      (w.own.fds.openFd want o).2)

/-- `close`. -/
def closeFd (fd : Int) : Program Unit :=
  Prog.step fun w =>
    if (w.loop.interest fd).isSome then none
    else (w.own.fds.closeFd fd).map fun fds => ({ w with own := { w.own with fds := fds } }, ())

/-- Add to the log of the connection a descriptor refers to. -/
def note (fd : Int) (x : Action) : Program Unit :=
  Prog.step fun w =>
    (w.own.fds.object fd).map fun _ =>
      let n := w.own.fds.serialOf fd
      ({ w with own := { w.own with log := Function.update w.own.log n (w.own.log n ++ [x]) } }, ())

/-- `dprintf(fd, ERROR_FORMAT, …)`, whose result nobody reads. -/
def sendMenu (fd : Int) (m : Menu) : Program Unit := note fd (.menu m)

/-- The fields of a client. -/
def getClient (a : Nat) : Program Client :=
  Prog.step fun w => (w.own.mem.cell a).map fun c => (w, c)

def setClient (a : Nat) (c : Client) : Program Unit :=
  Prog.step fun w =>
    (w.own.mem.write a c).map fun mem => ({ w with own := { w.own with mem := mem } }, ())

/-- `LIST_REMOVE`, `free`, and the count, which may not run below zero. -/
def freeClient (a : Nat) : Program Unit :=
  Prog.step fun w =>
    if a ∈ w.own.server.clients ∧ 0 < w.own.server.numClients then
      (w.own.mem.free a).map fun mem =>
        ({ w with own := { w.own with
            mem := mem
            server := { w.own.server with
              clients := w.own.server.clients.erase a
              numClients := w.own.server.numClients - 1 } } }, ())
    else none

/-- `fstat`. -/
def fstatFile (fd : Int) : Program (Except Errno File) := do
  let o ← useFd fd
  let x ← systemCall
  match x.fstat, o with
  | some e, _ => pure (.error e)
  | none, .file f => pure (.ok f)
  | none, _ => fault

end Sgopher.Server
