/-
Sgopher.Server.Client — the handlers of one client: `client_disconnect`,
`pidfd_kill_client`, `client_pidfd` and `client_socket`.

`client_socket` is cut along the comments of the source. A part that may
disconnect the client returns whether the caller goes on: `false` stands
for the source's `return` after `client_disconnect`. The client is read
again from the heap wherever a call may have changed it, so a part that
went on with a client that was freed would fault.
-/
import Sgopher.Server.Worker

namespace Sgopher.Server

open Sgopher.Lib Sgopher.Sepoll

/-! ## Disconnecting -/

/-- `client_disconnect`. -/
def clientDisconnect (a : Nat) : Program Unit := do
  let c ← getClient a
  Prog.when (0 ≤ c.file) (closeFd c.file)
  Prog.when (0 ≤ c.dirfd) (closeFd c.dirfd)
  Prog.when (0 ≤ c.pidfd) do
    let _ ← sepollRemove c.pidfd
    closeFd c.pidfd
  let _ ← sepollRemove c.socket
  closeFd c.socket
  freeClient a

/-- `pidfd_kill_client`. -/
def pidfdKillClient (a : Nat) : Program Unit := do
  let c ← getClient a
  let _ ← useFd c.pidfd
  let x ← systemCall
  Prog.when (x.kill.isSome) (clientDisconnect a)

/-- `client_pidfd`. -/
def clientPidfd (a : Nat) : Program Unit := clientDisconnect a

/-- An error menu, then `client_disconnect`; the caller returns. -/
def refuse (a : Nat) (m : Menu) : Program Bool := do
  let c ← getClient a
  sendMenu c.socket m
  clientDisconnect a
  pure false

/-- `client_disconnect`; the caller returns. -/
def hangUp (a : Nat) : Program Bool := do
  clientDisconnect a
  pure false

/-! ## EPOLLIN: from the socket to a file or a program -/

/-- Read into the client's buffer until it is full or the read would
block. -/
def readRequest (a : Nat) : Program Bool :=
  Prog.iterate (fun _ => do
    let c ← getClient a
    let _ ← useFd c.socket
    let x ← systemCall
    match x.read with
    | .error .EAGAIN => pure (.inr true)
    | .error .ECONNRESET => do
      let more ← hangUp a
      pure (.inr more)
    | .error _ => do
      let more ← refuse a .internal
      pure (.inr more)
    | .ok bytes =>
      let got := bytes.take (maxRequestSize - c.buffer.length)
      if got = [] then do
        let more ← hangUp a
        pure (.inr more)
      else do
        setClient a { c with buffer := c.buffer ++ got }
        if (c.buffer ++ got).length < maxRequestSize then pure (.inl ()) else pure (.inr true)) ()

/-- The menu for a file that cannot be opened. -/
def openMenu : Errno → Menu
  | .ENOENT => .notFound
  | .EACCES => .forbidden
  | _ => .internal

/-- The file is executable: fork, and leave the socket to the child. -/
def runCgi (a : Nat) (filename query : Bytes) : Program Bool := do
  let s ← getServer
  let c ← getClient a
  let x ← systemCall
  match x.fork with
  | none => refuse a .internal
  | some k => do
    let pidfd ← openFd k.pidfd .process
    setClient a { c with pidfd := pidfd }
    note c.socket (.cgi (cgiChild s.params c.dirfd c.address filename query k.child))
    closeFd c.file
    setClient a { c with pidfd := pidfd, file := -1 }
    let _ ← sepollModEvents c.socket EPOLLET
    let _ ← sepollAdd pidfd EPOLLIN (some .clientPidfd) .server (.client a)
    pure true

/-- The file is not executable: transmit it. -/
def transmit (a : Nat) (f : File) : Program Bool := do
  let c ← getClient a
  note c.socket (.transmit f)
  setClient a { c with filesize := some f.size }
  let _ ← sepollModEvents c.socket (EPOLLOUT ||| EPOLLET)
  pure true

/-- The end of the branch: the directory is no longer needed, and the
timestamp is updated. -/
def settle (a : Nat) : Program Bool := do
  let c ← getClient a
  Prog.when (0 ≤ c.dirfd) do
    closeFd c.dirfd
    setClient a { c with dirfd := -1 }
  let x ← systemCall
  let c ← getClient a
  setClient a { c with timestamp := x.time }
  pure true

/-- What is done with a regular file that is open. -/
def launch (a : Nat) (filename query : Bytes) (f : File) : Program Bool := do
  let more ← (if f.mode &&& S_IXOTH ≠ 0 then runCgi a filename query else transmit a f)
  if more then settle a else pure false

/-- The index file of a directory. -/
def openIndex (a : Nat) (filename : Bytes) (filenameEnd : Nat) (query : Bytes) :
    Program Bool := do
  let c ← getClient a
  setClient a { c with dirfd := c.file }
  let _ ← useFd c.file
  let x ← systemCall
  match x.openat with
  | .error e => do
    setClient a { c with dirfd := c.file, file := -1 }
    refuse a (openMenu e)
  | .ok (want, f) => do
    let fd ← openFd want (.file f)
    setClient a { c with dirfd := c.file, file := fd }
    match ← fstatFile fd with
    | .error _ => refuse a .internal
    | .ok f =>
      if f.isReg then
        match stpcpy maxFilenameSize filename filenameEnd [SLASH] with
        | none => fault
        | some (filename, _) => launch a filename query f
      else refuse a .forbidden

/-- The file that was opened: regular, a directory, or neither. -/
def inspectFile (a : Nat) (filename : Bytes) (filenameEnd : Nat) (query : Bytes) :
    Program Bool := do
  let c ← getClient a
  match ← fstatFile c.file with
  | .error _ => refuse a .internal
  | .ok f =>
    if f.isReg then launch a filename query f
    else if f.isDir then openIndex a filename filenameEnd query
    else refuse a .forbidden

/-- `openat(server->directory, filename, …)`. -/
def openFile (a : Nat) (filename : Bytes) (filenameEnd : Nat) (query : Bytes) :
    Program Bool := do
  let s ← getServer
  let c ← getClient a
  match cstring filename 0 with
  | none => fault
  | some path => do
    let _ ← useFd s.directory
    note c.socket (.openat path)
    let x ← systemCall
    match x.openat with
    | .error e => do
      setClient a { c with file := -1 }
      refuse a (openMenu e)
    | .ok (want, f) => do
      let fd ← openFd want (.file f)
      setClient a { c with file := fd }
      inspectFile a filename filenameEnd query

/-- What the buffer asks for. -/
def serveRequest (a : Nat) : Program Bool := do
  let c ← getClient a
  match parse c.buffer with
  | none => fault
  | some .badRequest => refuse a .bad
  | some .forbidden => refuse a .forbidden
  | some (.path filename filenameEnd query) => openFile a filename filenameEnd query

/-- The EPOLLIN branch. -/
def clientReadable (a : Nat) : Program Bool := do
  let c ← getClient a
  note c.socket .readable
  let more ← readRequest a
  if more then serveRequest a else pure false

/-! ## EPOLLOUT: the transfer -/

/-- The bytes one `sendfile` sends: of `count` bytes asked for at an
offset, at most as many as the answer says and as there are. -/
def sendfileBytes (o : Object) (offset : Int) (count : Nat) (n : Nat) : Bytes :=
  match o with
  | .file f => (f.content.drop offset.toNat).take (min n count)
  | _ => []

/-- `(size_t)(client->filesize - client->sentsize)`. -/
def sendCount (filesize sentsize : Int) : Nat := ((filesize - sentsize) % 2 ^ 64).toNat

/-- Do `sendfile` until it would block or is complete. -/
def sendFile (a : Nat) : Program Bool :=
  Prog.iterate (fun _ => do
    let c ← getClient a
    match c.filesize with
    | none => fault
    | some filesize => do
      let _ ← useFd c.socket
      let o ← useFd c.file
      let x ← systemCall
      match x.sendfile with
      | .error e =>
        if e = .EAGAIN then pure (.inr true)
        else do
          Prog.when (e ≠ .EPIPE ∧ c.sentsize = 0) (sendMenu c.socket .internal)
          let more ← hangUp a
          pure (.inr more)
      | .ok n => do
        let sent := sendfileBytes o c.sentsize (sendCount filesize c.sentsize) n
        note c.socket (.data sent)
        setClient a { c with sentsize := c.sentsize + sent.length }
        if c.sentsize + sent.length < filesize then pure (.inl ()) else pure (.inr true)) ()

/-- See if the transfer has finished. -/
def checkSent (a : Nat) : Program Bool := do
  let c ← getClient a
  match c.filesize with
  | none => fault
  | some filesize =>
    if c.sentsize < filesize then do
      let x ← systemCall
      setClient a { c with timestamp := x.time }
      pure true
    else do
      note c.socket .finished
      hangUp a

/-- The EPOLLOUT branch. -/
def clientWritable (a : Nat) : Program Bool := do
  let more ← sendFile a
  if more then checkSent a else pure false

/-! ## The handler -/

/-- The branch for EPOLLERR and EPOLLHUP. -/
def clientError (a : Nat) : Program Unit := do
  let c ← getClient a
  if 0 ≤ c.pidfd then pidfdKillClient a else clientDisconnect a

/-- `client_socket`. -/
def clientSocket (events : UInt32) (a : Nat) : Program Unit := do
  let more ← (if hasEvent events EPOLLIN then clientReadable a else pure true)
  if more then do
    let more ← (if hasEvent events EPOLLOUT then clientWritable a else pure true)
    if more then
      Prog.when (hasEvent events EPOLLERR ∨ hasEvent events EPOLLHUP) (clientError a)
    else pure ()
  else pure ()

end Sgopher.Server
