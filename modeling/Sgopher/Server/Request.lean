/-
Sgopher.Server.Request — how `client_socket` reads a request out of the
client's buffer: the framing by CRLF and TAB, and the loop that copies the
selector into a relative path.

The buffer is `client->buffer` up to `client->count`; positions in it are
offsets. `filename` is the local array of that name, with its capacity,
and `filename_end` the offset of its terminating NUL. A read or a write
outside either is undefined, `none`.

No `sorry`, no `axiom`, no `native_decide`.
-/
import Sgopher.Lib.Buffer
import Sgopher.Posix

namespace Sgopher.Server

open Sgopher.Lib

/-! ## Constants -/

/-- `MAX_REQUEST_SIZE`. -/
def maxRequestSize : Nat := 2 * 255 + 2 + 1

/-- `MAX_FILENAME_SIZE`. -/
def maxFilenameSize : Nat := maxRequestSize - 2 + 4

/-- `ENV_BUFFER_SIZE`. -/
def envBufferSize : Nat := 1024

/-! ## Framing -/

/-- Where selector and query stand in the buffer. A query of size zero
has no position. -/
structure Framing where
  selectorSize : Nat
  query : Option Nat
  querySize : Nat
  deriving DecidableEq, Repr

/-- The search for CRLF and TAB; `none` where there is no CRLF. -/
def frame (buffer : Bytes) : Option Framing :=
  match memmem [CR, LF] buffer with
  | none => none
  | some crlf =>
    match memchr buffer 0 TAB buffer.length with
    | some tab =>
      if tab < crlf then
        let querySize := crlf - tab - 1
        some ⟨tab, if 0 < querySize then some (tab + 1) else none, querySize⟩
      else some ⟨crlf, none, 0⟩
    | none => some ⟨crlf, none, 0⟩

/-- The bytes of the query, none of them where the pointer is null. -/
def Framing.queryBytes (f : Framing) (buffer : Bytes) : Bytes :=
  match f.query with
  | some query => (buffer.drop query).take f.querySize
  | none => []

/-! ## Path normalisation -/

/-- What the loop over the selector ends with. -/
inductive PathResult where
  | forbidden
  | filename (filename : Bytes) (filenameEnd : Nat)
  deriving DecidableEq, Repr

/-- The two copies of one turn: a slash, then the component. -/
def copyComponent (filename : Bytes) (filenameEnd : Nat) (component : Bytes) :
    Option (Bytes × Nat) := do
  let (filename, filenameEnd) ← stpcpy maxFilenameSize filename filenameEnd [SLASH]
  mempcpy maxFilenameSize filename filenameEnd component

/-- The `do … while` loop over the selector, from `str_pos` on. The fuel
bounds the number of turns. -/
def pathLoop (buffer : Bytes) (selectorSize : Nat) :
    Nat → Nat → Bytes → Nat → Option PathResult
  | 0, _, _, _ => none
  | fuel + 1, strPos, filename, filenameEnd =>
    let strLen := selectorSize - strPos
    let strSlash := memchr buffer strPos SLASH strLen
    let substrLen := match strSlash with
      | none => strLen
      | some slash => slash - strPos
    let next := fun (filename : Bytes) (filenameEnd : Nat) =>
      match strSlash with
      | some slash => pathLoop buffer selectorSize fuel (slash + 1) filename filenameEnd
      | none =>
        (store maxFilenameSize filename filenameEnd [0]).map fun filename =>
          .filename filename filenameEnd
    if 0 < substrLen then
      match buffer[strPos]? with
      | none => none
      | some b =>
        if b = DOT then some .forbidden
        else
          (copyComponent filename filenameEnd ((buffer.drop strPos).take substrLen)).bind fun p =>
            next p.1 p.2
    else next filename filenameEnd

/-- `filename` for a selector: "." and then what the loop copies, if the
selector is not empty. -/
def normalise (buffer : Bytes) (selectorSize : Nat) : Option PathResult := do
  let (filename, filenameEnd) ← stpcpy maxFilenameSize [] 0 [DOT]
  if 0 < selectorSize then pathLoop buffer selectorSize (selectorSize + 1) 0 filename filenameEnd
  else some (.filename filename filenameEnd)

/-! ## The request as a whole -/

/-- What `client_socket` makes of a buffer before it opens anything. -/
inductive Parsed where
  | badRequest
  | forbidden
  | path (filename : Bytes) (filenameEnd : Nat) (query : Bytes)
  deriving DecidableEq, Repr

def parse (buffer : Bytes) : Option Parsed :=
  match frame buffer with
  | none => some .badRequest
  | some f =>
    (normalise buffer f.selectorSize).map fun
      | .forbidden => .forbidden
      | .filename filename filenameEnd => .path filename filenameEnd (f.queryBytes buffer)

end Sgopher.Server
