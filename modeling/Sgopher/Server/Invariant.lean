/-
Sgopher.Server.Invariant — what holds of a worker.

`Parts` is the joint invariant of the event loop, the clients, the
descriptors and the logs. It can be stated with one client left out, the
one a handler is working on: then nothing is said of how that client
stands, and the descriptors it holds are a list `P` of their own. `AtRest`
is the invariant with nobody left out, and holds between two calls of
handlers.

How a client stands with the event loop (`Standing`) is one of three:
waiting for its request, being sent a file, or attended by a program. It
decides the mask its socket is registered with, and what was written to
the socket so far.

The invariant comes in two strengths. `strict` is for runs in which the
kernel does not refuse to change the mask of a registered descriptor. In
other runs a client may be read from again after its request was taken,
which loses descriptors and may leave the callback of a program behind
whose client is gone; what is said about the bytes written to a socket
holds all the same.

No `sorry`, no `axiom`, no `native_decide`.
-/
import Sgopher.Sepoll.EnterTheorems
import Sgopher.Server.Process
import Sgopher.Server.RequestTheorems

namespace Sgopher.Server

open Sgopher.Lib Sgopher.Sepoll

abbrev EventLoop := Loop Handler Arg

abbrev Registration := Reg Handler Arg

/-! ## What was written to a socket -/

/-- The menus among a connection's actions. -/
def menus (L : List Action) : List Menu :=
  L.filterMap fun | .menu m => some m | _ => none

/-- The bytes of the file among them. -/
def sent (L : List Action) : Bytes :=
  L.flatMap fun | .data bytes => bytes | _ => []

/-- The actions that neither write nor settle anything. -/
def Action.Quiet : Action → Prop
  | .menu _ | .data _ | .finished => False
  | _ => True

/-- Nothing was written yet. -/
structure Silent (L : List Action) : Prop where
  menus : menus L = []
  sent : sent L = []
  finished : Action.finished ∉ L

/-- What may have been written to a connection: nothing, one menu, or a
part of a file from its beginning on, which is all of it, up to the size
that was recorded, if the worker regarded it as sent. -/
inductive ReplyOk (L : List Action) : Prop where
  | nothing (h : Silent L)
  | menu (m : Menu) (hm : menus L = [m]) (hs : sent L = []) (hf : Action.finished ∉ L)
  | file (f : File) (n : Nat) (ht : Action.transmit f ∈ L) (hm : menus L = [])
      (hn : n ≤ f.content.length) (hsize : n ≤ f.size) (hs : sent L = f.content.take n)
      (hf : Action.finished ∈ L → n = f.size)

/-- What holds of everything done for one connection: its reply, that no
path opened for it leaves the content directory, and that its request is
read once. -/
structure LogOk (strict : Prop) (L : List Action) : Prop where
  reply : ReplyOk L
  paths : ∀ path, Action.openat path ∈ L → Confined path
  once : strict → L.count .readable ≤ 1

/-! ## How a client stands -/

/-- A part of the file has been sent, up to `sentsize`. -/
structure Sending (c : Client) (L : List Action) (f : File) : Prop where
  filesize : c.filesize = some (f.size : Int)
  nonneg : 0 ≤ c.sentsize
  le_size : c.sentsize ≤ f.size
  le_length : c.sentsize.toNat ≤ f.content.length
  transmit : Action.transmit f ∈ L
  menus : menus L = []
  sent : sent L = f.content.take c.sentsize.toNat
  finished : Action.finished ∉ L

/-- The client's fields before its request, for which nothing was done. -/
structure Fresh (c : Client) (L : List Action) : Prop where
  file : c.file = -1
  pidfd : c.pidfd = -1
  buffer : c.buffer = []
  log : ∀ act ∈ L, act = .unwatched

/-- How a client stands with the event loop, by the mask its socket is
registered with. -/
inductive Standing (strict : Prop) (fds : Heap Object) (c : Client) (mask : Option UInt32)
    (L : List Action) : Prop where
  | reading (hm : mask = none ∧ .unwatched ∈ L ∨ mask = some (EPOLLIN ||| EPOLLET))
      (h0 : c.sentsize = 0) (hq : Silent L) (hs : strict → Fresh c L)
  | sending (f : File) (hm : mask = some (EPOLLOUT ||| EPOLLET))
      (ho : fds.object c.file = some (.file f)) (hf : Sending c L f)
      (hs : strict → c.pidfd = -1 ∧ ∀ x, Action.cgi x ∉ L)
  | cgi (hm : mask = some EPOLLET) (h0 : c.sentsize = 0) (hq : Silent L)
      (hs : strict → 0 ≤ c.pidfd ∧ c.file = -1 ∧ (∃ x, Action.cgi x ∈ L) ∧
        ∀ f, Action.transmit f ∉ L)

/-- What a client's descriptors refer to. -/
structure Kinds (fds : Heap Object) (c : Client) : Prop where
  socket : fds.object c.socket = some .connection
  file : 0 ≤ c.file → ∃ f, fds.object c.file = some (.file f)
  dirfd : 0 ≤ c.dirfd → ∃ f, fds.object c.dirfd = some (.file f)
  pidfd : 0 ≤ c.pidfd → fds.object c.pidfd = some .process

/-- What holds of every client between two calls of handlers: the directory
is closed, and the buffer was never overrun. -/
structure Settled (c : Client) : Prop where
  dirfd : c.dirfd = -1
  buffer : c.buffer.length ≤ maxRequestSize

/-! ## Who holds which descriptor -/

/-- What `file` holds. The directory's descriptor moves from `file` to
`dirfd`, so while both name it, it is `dirfd` that holds it. -/
def Client.filePlaces (c : Client) : List Int := if c.file = c.dirfd then [] else held c.file

/-- A client's descriptors. -/
def Client.places (c : Client) : List Int :=
  c.socket :: (c.filePlaces ++ held c.dirfd ++ held c.pidfd)

def ServerState.places (s : ServerState) : List Int :=
  [s.directory, s.sigfd, s.timerfd, s.socket, s.epollfd]

def Holding.places : Holding → List Int
  | .connection fd => [fd]
  | _ => []

/-- The client that is not in the list yet. -/
def Holding.clients : Holding → List Nat
  | .client a => [a]
  | _ => []

def Worker.clientPlaces (k : Worker) (a : Nat) : List Int := (k.mem.cell a).elim [] Client.places

/-- The descriptors of all clients but one. -/
def Worker.others (k : Worker) (ex : Option Nat) : List Int :=
  (k.mem.live.filter fun a => some a ≠ ex).flatMap k.clientPlaces

/-- What the worker counts on: the three standard descriptors, its own
five, and one for a connection it may have to turn away; and for each
client the connection, the file, the directory and the program. -/
def FDS_SERVER : Nat := 3 + 5 + 1
def FDS_CLIENT : Nat := 4

/-! ## The invariant -/

/-- What a registration is for. -/
inductive RegOk (strict : Prop) (k : Worker) (fd : Int) (r : Registration) : Prop where
  | socket (a : Nat) (c : Client) (hf : r.function = some .clientSocket)
      (hu : r.userdata2 = .client a) (hc : k.mem.cell a = some c) (hs : c.socket = fd)
      (ho : k.fds.object fd = some .connection)
  | pidfd (a : Nat) (hf : r.function = some .clientPidfd) (hu : r.userdata2 = .client a)
      (hc : strict → ∃ c, k.mem.cell a = some c ∧ c.pidfd = fd)
      (ho : k.fds.object fd = some .process)
  | server (h : Handler) (hf : r.function = some h)
      (hh : h = .serverSocket ∨ h = .serverSignal ∨ h = .serverTimer)
      (ho : k.fds.object fd = some .server)

/-- What is assumed of the kernel in a run: that it changes every mask it is
asked to, and that no `epoll_wait` fails. -/
structure Mode where
  strict : Prop
  woken : Prop

/-- Nothing is assumed, or one of the two. -/
abbrev Mode.any : Mode := ⟨False, False⟩
abbrev Mode.masks : Mode := ⟨True, False⟩
abbrev Mode.waits : Mode := ⟨False, True⟩

/-- What stays the same while a handler works on a client: the mode of the
run, the server's state, the logs before, and the batch. -/
structure Context where
  mode : Mode
  server : ServerState
  before : Nat → List Action
  pending : List EpollEvent
  epollEvents : List EpollEvent

abbrev Context.strict (x : Context) : Prop := x.mode.strict

theorem Context.strict_of_masks {x : Context} (h : x.mode = .masks) : x.strict := by
  rw [Context.strict, h]
  trivial

/-- An event that may be reported for a registration. -/
def Reported (e : EpollEvent) (mask : UInt32) : Prop :=
  ∃ bits, e.events = bits &&& (mask ||| EPOLLERR ||| EPOLLHUP)

/-- The joint invariant, with the client `ex` left out, whose descriptors
are `P`. -/
structure Parts (x : Context) (ex : Option Nat) (P : List Int) (l : EventLoop) (k : Worker) :
    Prop where
  wf : l.Wf
  pending : l.pending = x.pending
  epollEvents : l.epollEvents = x.epollEvents
  reported_nodup : (l.pending.map EpollEvent.ptr).Nodup
  reported : ∀ e ∈ l.pending, ∀ fd r, l.reg fd = some r → r.ptr = e.ptr → Reported e r.events
  owned : k.fds.Owned x.strict (k.server.places ++ k.holding.places ++ P ++ k.others ex)
  count : k.server.numClients.toNat = k.server.clients.length
  room : k.server.clients.length + k.holding.clients.length ≤ k.server.params.maxClients.toNat
  live : k.mem.live.Perm (k.holding.clients ++ k.server.clients)
  regs : ∀ fd r, l.reg fd = some r → RegOk x.strict k fd r
  kinds : ∀ a c, some a ≠ ex → k.mem.cell a = some c → Kinds k.fds c ∧ Settled c
  standing : ∀ a c, some a ≠ ex → k.mem.cell a = some c →
    Standing x.strict k.fds c ((l.reg c.socket).map Reg.events) (k.log (k.fds.serialOf c.socket))
  logs : ∀ n, LogOk x.strict (k.log n)
  unused : ∀ n, k.fds.allocated ≤ n → k.log n = []
  size : x.mode.woken → 0 < l.epollEventsSize
  told : x.mode.woken → l.run = false → k.terminated = true
  budget : x.strict →
    3 + k.fds.peak ≤ FDS_SERVER + FDS_CLIENT * k.server.params.maxClients.toNat
  grown : ∀ n, x.before n <+: k.log n

/-- Between two calls of handlers. -/
structure AtRest (x : Context) (w : World) : Prop where
  parts : Parts x none [] w.loop w.own
  holding : w.own.holding = .nothing

/-- A handler works on the client `a`, which is `c` and holds `P`; its
socket is registered as `m`, and `L` was done for its connection. -/
structure Busy (x : Context) (a : Nat) (c : Client) (P : List Int) (m : Option Registration)
    (L : List Action) (w : World) : Prop where
  parts : Parts x (some a) P w.loop w.own
  holding : w.own.holding = .nothing
  server : w.own.server = x.server
  cell : w.own.mem.cell a = some c
  reg : w.loop.reg c.socket = m
  log : w.own.log (w.own.fds.serialOf c.socket) = L

/-- The state of a worker that waits in its event loop: nobody is left out
but a client whose fields account for its descriptors. -/
def Waits (mode : Mode) (w : World) : Prop :=
  ∃ x, x.mode = mode ∧ (Parts x none [] w.loop w.own ∨
    ∃ a c, w.own.mem.cell a = some c ∧ Parts x (some a) c.places w.loop w.own)

/-- What the worker relies on and owes: in strict runs no change of a mask
fails and there is no fault. -/
def contract (mode : Mode) : Contract Answer World where
  answers := fun y =>
    (mode.strict → y.loop.ctlMod = none) ∧ (mode.woken → ∀ e, y.loop.wait ≠ .error e)
  waits := Waits mode
  mayFault := ¬ mode.strict

end Sgopher.Server
