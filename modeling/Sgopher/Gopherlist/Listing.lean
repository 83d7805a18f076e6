/-
Sgopher.Gopherlist.Listing — `gopherlist`: the menu of a directory.

A directory is what `readdir` gives of it and what `stat` says of its
names; the environment is the list the program is executed with. The
functions of the environment and of one name come first, then the loops of
`main`, which go through a write buffer on standard output. The loop that
reads the names returns how the program ends where it ends there, and a
later part that may call `exit(EXIT_FAILURE)` returns `none` where it does.

`strdupa` makes its copies on the stack, where they stay until the program
exits. How much of the stack they may take is up to the limit the program
was started with, so it is a parameter (`Stack`); a copy there is no room
for is the end of the program, by a signal. The source compares what
`strdupa` returns with `NULL`, which it never is; that branch is left out,
and so is what the program writes to standard error.
-/
import Mathlib.Data.List.Sort
import Sgopher.Gopherlist.Sbuffer
import Sgopher.Lib.Blocks
import Sgopher.Lib.Search

namespace Sgopher.Gopherlist

open Sgopher.Lib

/-! ## Data -/

/-- `NUM_FILENAMES`. -/
def numFilenames : Nat := 256

/-- `BUFFER_LENGTH`. -/
def bufferLength : UInt64 := 65536

/-- `BUFFER_LEFTOVER`. -/
def bufferLeftover : Nat := 4096

/-- The name of a directory entry: any bytes but NUL and the slash. -/
structure Name where
  bytes : Bytes
  ne_nil : bytes ≠ []
  no_nul : 0 ∉ bytes
  no_slash : SLASH ∉ bytes
  deriving DecidableEq

/-- The working directory: its entries in the order `readdir` gives them,
none of them twice, and the mode that `stat` finds for each, if it does
not fail. -/
structure Directory where
  entries : List Name
  nodup : entries.Nodup
  stat : Name → Option UInt32

/-- The variables `main` asks for, `none` where `getenv` returns null. -/
structure Env where
  selector : Option Bytes
  hostname : Option Bytes
  port : Option Bytes
  query : Option Bytes
  deriving DecidableEq

/-- The stack, as far as `strdupa` is concerned: the bytes that are left for
copies beside the frames of `main` and of what it calls, and what a block
of so many bytes takes of them, which is up to the compiler. -/
structure Stack where
  room : Nat
  takes : Nat → Nat

/-- `filenames`, with `filenames_size` and `filenames_count`, and the stack
below the copies. Neither number comes near 2^64: a block of 2^61 pointers
cannot be had. -/
structure FileNames where
  filenames : Block Name
  size : Nat
  count : Nat
  stack : Stack

/-- How the program ends: with the argument of `exit`, or by a signal. -/
inductive ExitStatus where
  | success
  | failure
  | killed
  deriving DecidableEq, Repr

/-! ## The environment -/

/-- `getenv`. -/
def getenv (environ : List Bytes) (name : Bytes) : Option Bytes :=
  (environ.find? fun e => (name ++ ascii "=").isPrefixOf e).map fun e => e.drop (name.length + 1)

def Env.get (environ : List Bytes) : Env where
  selector := getenv environ (ascii "SCRIPT_NAME")
  hostname := getenv environ (ascii "SERVER_NAME")
  port := getenv environ (ascii "SERVER_PORT")
  query := getenv environ (ascii "QUERY_STRING")

/-- `last_slash`. -/
def Env.lastSlash (env : Env) : Option Nat := env.selector.bind fun s => strrchr s SLASH

/-- `parent_slash`. -/
def Env.parentSlash (env : Env) : Option Nat :=
  match env.selector, env.lastSlash with
  | some selector, some slash => memrchr selector SLASH slash
  | _, _ => none

/-- `%.*s` of the selector, up to `n` bytes. -/
def Env.selectorPrefix (env : Env) (n : Nat) : Bytes := (env.selector.getD []).take n

/-- The selector of the directory: what stands before the last slash. -/
def Env.directory (env : Env) : Bytes := env.selectorPrefix (env.lastSlash.getD 0)

/-- `env_query`, where the pointer is used only if `query_len` is not
zero. -/
def Env.queryBytes (env : Env) : Bytes := env.query.getD []

/-- `%s`, also of a null pointer. -/
def percentS (s : Option Bytes) : Bytes := s.getD (ascii "(null)")

/-! ## A name -/

/-- The requirements on a name: it is not hidden, and it contains the query
string. -/
def Env.wants (env : Env) (filename : Name) : Bool :=
  filename.bytes.head? != some DOT &&
    (env.queryBytes.length == 0 || (strcasestr filename.bytes env.queryBytes).isSome)

/-- `compare_strings`. -/
def compareStrings (a b : Name) : Int := strcmp a.bytes b.bytes

/-- `ext_table`. -/
def extTable : List (Bytes × UInt8) :=
  [(ascii "bmp", 73), (ascii "c", 48), (ascii "cpp", 48), (ascii "gif", 103), (ascii "h", 48),
    (ascii "htm", 104), (ascii "html", 104), (ascii "jpeg", 73), (ascii "jpg", 73),
    (ascii "mp3", 115), (ascii "ogg", 115), (ascii "pcx", 73), (ascii "png", 73),
    (ascii "tif", 73), (ascii "tiff", 73), (ascii "txt", 48), (ascii "wav", 115)]

/-- `compare_ext_entry`. -/
def compareExtEntry (a b : Bytes × UInt8) : Int := strcmp a.1 b.1

/-- The type of a file by its extension, which is what stands behind the
last period. The key has no type. -/
def extensionType (filename : Bytes) : UInt8 :=
  match strrchr filename DOT with
  | none => 57
  | some i =>
    match bsearch (compareExtEntry (filename.drop (i + 1), 0)) extTable with
    | none => 57
    | some found => found.2

/-- The type of an item, `none` where the file is of no kind that is
listed. -/
def itemType (mode : UInt32) (filename : Bytes) : Option UInt8 :=
  if isReg mode then
    if mode &&& S_IXOTH ≠ 0 then some 55 else some (extensionType filename)
  else if isDir mode then some 49
  else none

/-! ## The lines of the menu -/

def crlf : Bytes := [CR, LF]

/-- "iDirectory listing of %s:%s%.*s/\\r\\n". -/
def Env.titleLine (env : Env) : Bytes :=
  ascii "iDirectory listing of " ++ percentS env.hostname ++ ascii ":" ++ percentS env.port ++
    env.directory ++ [SLASH] ++ crlf

/-- "iShowing filenames containing %s\\r\\n". -/
def Env.queryLine (env : Env) : Bytes :=
  ascii "iShowing filenames containing " ++ env.queryBytes ++ crlf

def blankLine : Bytes := ascii "i" ++ crlf

/-- "1Parent Directory\\t%.*s\\t%s\\t%s\\r\\n". -/
def Env.parentLine (env : Env) (slash : Nat) : Bytes :=
  ascii "1Parent Directory" ++ [TAB] ++ env.selectorPrefix (slash + 1) ++ [TAB] ++
    percentS env.hostname ++ [TAB] ++ percentS env.port ++ crlf

/-- "%c%s\\t%.*s/%s\\t%s\\t%s\\r\\n". -/
def Env.itemLine (env : Env) (type : UInt8) (filename : Bytes) : Bytes :=
  [type] ++ filename ++ [TAB] ++ env.directory ++ [SLASH] ++ filename ++ [TAB] ++
    percentS env.hostname ++ [TAB] ++ percentS env.port ++ crlf

/-- "i\\r\\niFound %u files\\r\\n". -/
def foundLines (filesFound : UInt32) : Bytes :=
  ascii "i" ++ crlf ++ ascii "iFound " ++ decimal filesFound.toNat ++ ascii " files" ++ crlf

def lastLine : Bytes := ascii "." ++ crlf

/-! ## The loops -/

/-- What no contract covers. -/
def fault {α : Type} : Program α := Prog.step fun _ => none

/-- What the copy of a name takes of the stack, with its NUL. -/
def Stack.copySize (s : Stack) (filename : Name) : Nat := s.takes (filename.bytes.length + 1)

/-- `strdupa`: the stack below the copy, if there is room for it. -/
def Stack.strdupa (s : Stack) (filename : Name) : Option Stack :=
  if s.copySize filename ≤ s.room then some { s with room := s.room - s.copySize filename }
  else none

/-- The starting list. -/
def FileNames.initial (stack : Stack) : FileNames where
  filenames := .calloc numFilenames
  size := numFilenames
  count := 0
  stack := stack

/-- The `readdir` loop. The list is doubled when it is full, behind the
store that has filled it. -/
def readNames (env : Env) : List Name → FileNames → Program (Except ExitStatus FileNames)
  | [], names => pure (.ok names)
  | entry :: rest, names =>
    if env.wants entry then
      match names.stack.strdupa entry with
      | none => pure (.error .killed)
      | some stack =>
        match names.filenames.store names.count entry with
        | none => fault
        | some filenames =>
          if names.count + 1 = names.size then do
            let x ← systemCall
            if x.memory then
              readNames env rest
                ⟨filenames.resized (names.size * 2), names.size * 2, names.count + 1, stack⟩
            else pure (.error .failure)
          else readNames env rest ⟨filenames, names.size, names.count + 1, stack⟩
    else readNames env rest names

/-- The header. -/
def writeHeader (env : Env) : Program Unit := do
  let _ ← sbufferPush (.text env.titleLine)
  Prog.when (0 < env.queryBytes.length) do
    let _ ← sbufferPush (.text env.queryLine)
  let _ ← sbufferPush (.text blankLine)
  match env.parentSlash with
  | none => pure ()
  | some slash => do
    let _ ← sbufferPush (.text (env.parentLine slash))

/-- The loop over the names. It returns `files_found`. -/
def writeItems (env : Env) (stat : Name → Option UInt32) :
    List Name → UInt32 → Program (Option UInt32)
  | [], filesFound => pure (some filesFound)
  | filename :: rest, filesFound =>
    match stat filename with
    | none => pure none
    | some mode =>
      match itemType mode filename.bytes with
      | none => writeItems env stat rest filesFound
      | some type => do
        let _ ← sbufferPush (.text (env.itemLine type filename.bytes))
        let _ ← sbufferCheckflush bufferLeftover
        writeItems env stat rest (filesFound + 1)

/-- The footer, and the last flush. -/
def writeFooter (env : Env) (filesFound : UInt32) : Program Unit := do
  Prog.when (0 < env.queryBytes.length) do
    let _ ← sbufferPush (.text (foundLines filesFound))
  let _ ← sbufferPush (.text lastLine)
  let _ ← sbufferFlush

/-- `main`, from the sorted names on. -/
def writeMenu (env : Env) (stat : Name → Option UInt32) (filenames : List Name) :
    Program ExitStatus := do
  Prog.modify fun w => { w with sbuffer := sbufferInit bufferLength }
  writeHeader env
  match ← writeItems env stat filenames 0 with
  | none => pure .failure
  | some filesFound => do
    writeFooter env filesFound
    pure .success

/-- The order of `qsort`. Names that compare as equal are equal, so it does
not matter which sort it is. -/
def sortNames (filenames : List Name) : List Name :=
  filenames.insertionSort fun a b => compareStrings a b ≤ 0

/-- `main`. -/
def main (stack : Stack) (environ : List Bytes) (dir : Directory) : Program ExitStatus := do
  let env := Env.get environ
  let x ← systemCall
  if !x.memory then pure .failure
  else do
    let x ← systemCall
    if x.opendir.isSome then pure .failure
    else do
      match ← readNames env dir.entries (.initial stack) with
      | .error status => pure status
      | .ok names =>
        match names.filenames.first names.count with
        | none => fault
        | some filenames => writeMenu env dir.stat (sortNames filenames)

/-- The process before its first call; there is no write buffer yet. -/
def started : World := created 0

end Sgopher.Gopherlist
