/-
Sgopher.Server.Cgi — the child process that `client_socket` forks for an
executable file, from the fork to `execve`.

The child works on copies of the parent's variables: the client's
descriptor of the directory, if it opened one, the array `filename`, and
the query. It either reaches `execve`, with the directory it changed into,
the command, the arguments and the environment, or it reports an error
and exits. The strings it formats go through buffers of
`ENV_BUFFER_SIZE` bytes.

No `sorry`, no `axiom`, no `native_decide`.
-/
import Sgopher.Server.Request

namespace Sgopher.Server

open Sgopher.Lib

/-- `struct server_params_t`. Strings are without their NUL. -/
structure Params where
  hostname : Bytes
  port : UInt16
  maxClients : UInt32
  timeout : UInt32
  directory : Bytes
  indexfile : Bytes

/-- What the child's system calls answer: the error, if any. -/
structure ChildAnswer where
  openat : Option Errno := none
  fchdir : Option Errno := none
  sigprocmask : Option Errno := none
  dup2 : Option Errno := none

/-- The directory the child changes into: the one the parent has open, or
a path below the content directory. -/
inductive ExecDirectory where
  | opened
  | path (pathname : Bytes)
  deriving DecidableEq, Repr

/-- How the child ends. -/
inductive ChildEnd where
  | execve (directory : ExecDirectory) (command : Bytes) (argv envp : List Bytes)
  | failed
  | undefined
  deriving DecidableEq, Repr

/-- `env_selector`, from the string behind the period of `filename`. -/
def envSelector (scriptName : Bytes) : Bytes :=
  snprintf envBufferSize (ascii "SCRIPT_NAME=" ++ scriptName)

/-- `env_query`: `%.*s` prints up to the query's size, and stops at a NUL. -/
def envQuery (query : Bytes) : Bytes :=
  snprintf envBufferSize (ascii "QUERY_STRING=" ++ untilNul query)

def envHostname (params : Params) : Bytes :=
  snprintf envBufferSize (ascii "SERVER_NAME=" ++ params.hostname)

def envPort (params : Params) : Bytes :=
  snprintf envBufferSize (ascii "SERVER_PORT=" ++ decimal params.port.toNat)

def envAddress (address : Bytes) : Bytes :=
  snprintf envBufferSize (ascii "REMOTE_ADDR=" ++ address)

/-- Where the program is: the directory, and its name there. Without an
open directory both are cut out of `filename` at its last slash. -/
def execTarget (params : Params) (dirfd : Int) (filename : Bytes) (openat : Option Errno) :
    Option (Option (ExecDirectory × Bytes)) :=
  if dirfd < 0 then
    match cstring filename 0 with
    | none => none
    | some path =>
      match strrchr path SLASH with
      | none => some none
      | some slash => do
        let (pathname, strEnd) ← mempcpy maxFilenameSize [] 0 (path.take slash)
        let pathname ← store maxFilenameSize pathname strEnd [0]
        let pathname ← cstring pathname 0
        match openat with
        | some _ => some none
        | none => do
          let command ← cstring filename (slash + 1)
          some (some (.path pathname, command))
  else some (some (.opened, params.indexfile))

/-- The child. -/
def cgiChild (params : Params) (dirfd : Int) (address filename query : Bytes)
    (answer : ChildAnswer) : ChildEnd :=
  match execTarget params dirfd filename answer.openat with
  | none => .undefined
  | some none => .failed
  | some (some (directory, command)) =>
    if answer.fchdir.isSome then .failed
    else if answer.sigprocmask.isSome then .failed
    else if answer.dup2.isSome then .failed
    else
      match cstring filename 1 with
      | none => .undefined
      | some scriptName =>
        .execve directory command [command] [envSelector scriptName, envQuery query,
          envHostname params, envPort params, envAddress address]

end Sgopher.Server
