/-
Sgopher.Gopherlist.Sbuffer — the write buffer of `sbuffer.c`.

The pointers of `struct sbuffer_t` are offsets from `base`, and the buffer
is the list of the bytes written to it so far. A read or a write outside
of it is undefined, and a run that comes to one faults.

`out` is what the descriptor was given, in order. `pushes` and `flushes`
are not in the source: they list the calls of `sbuffer_push` with their
results, and the results of `sbuffer_flush`. The descriptor and the
timeout, which are only handed on to `write` and `poll`, are left out.
-/
import Mathlib.Algebra.Group.Int.Defs
import Mathlib.Algebra.Group.Nat.Defs
import Sgopher.Posix
import Sgopher.Lib.Buffer
import Sgopher.Lib.Program

namespace Sgopher.Gopherlist

open Sgopher.Lib

/-! ## Data -/

/-- `struct sbuffer_t`. -/
structure Sbuffer where
  len : UInt64
  mem : Bytes
  pos : Nat
  writepos : Nat
  written : UInt64

/-- What `vsnprintf` makes of a format and its arguments: a text, or an
error, with what it has stored by then. -/
inductive Formatted where
  | text (bytes : Bytes)
  | error (e : Errno) (stored : Bytes)
  deriving DecidableEq

/-- What `sbuffer_push` returns: a length, 0 where the text does not fit,
or `-errno`. -/
abbrev Pushed := Except Errno Nat

/-- A program's write buffer and its descriptor. -/
structure World where
  sbuffer : Sbuffer
  out : Bytes
  pushes : List (Formatted × Pushed)
  flushes : List Ret

/-- What the system answers. Each call reads the field that is meant for
it. `write` takes from 1 to as many bytes as it was given; `poll` says
whether the descriptor became ready in time; `memory` is for `calloc` and
`reallocarray`. -/
structure Answer where
  write : Except Errno Nat := .error .EAGAIN
  poll : Except Errno Bool := .ok true
  memory : Bool := true
  opendir : Option Errno := none

/-- Programs with a write buffer. -/
abbrev Program (α : Type) := Prog Answer World α

def systemCall : Program Answer := Prog.ask

/-! ## The buffer -/

/-- A difference of two sizes or pointers, as a `size_t`. -/
def sizeDiff (a b : Nat) : Nat := (((a : Int) - b) % 2 ^ 64).toNat

/-- `sbuffer_init`. -/
def sbufferInit (len : UInt64) : Sbuffer where
  len := len
  mem := []
  pos := 0
  writepos := 0
  written := 0

/-- `sbuffer_remaining`. -/
def Sbuffer.remaining (b : Sbuffer) : Nat := sizeDiff b.len.toNat b.pos

/-- `sbuffer_unwritten`. -/
def Sbuffer.unwritten (b : Sbuffer) : Nat := sizeDiff b.pos b.writepos

/-- The bytes from `writepos` on. -/
def Sbuffer.unwrittenBytes (b : Sbuffer) : Bytes := (b.mem.drop b.writepos).take b.unwritten

def EOVERFLOW : Errno := .other 75

/-- `vsnprintf`: what it stores, and what it returns. What does not fit is
cut off, and a length that is no `int` is an error. -/
def vsnprintf (size : Nat) : Formatted → Bytes × Except Errno Nat
  | .text bytes =>
    (if size = 0 then [] else snprintf size bytes ++ [0],
      if bytes.length < 2 ^ 31 then .ok bytes.length else .error EOVERFLOW)
  | .error e stored => (stored.take size, .error e)

/-- The body of `sbuffer_push`. -/
def Sbuffer.push (b : Sbuffer) (f : Formatted) : Option (Sbuffer × Pushed) :=
  let (bytes, n) := vsnprintf b.remaining f
  (store b.len.toNat b.mem b.pos bytes).map fun mem =>
    let b := { b with mem := mem }
    match n with
    | .error e => (b, .error e)
    | .ok n =>
      if 0 < n then
        -- the terminating NUL needs room too
        if b.remaining ≤ n then (b, .ok 0) else ({ b with pos := b.pos + n }, .ok n)
      else (b, .ok n)

/-! ## The functions -/

def getSbuffer : Program Sbuffer := do
  let w ← Prog.get
  pure w.sbuffer

/-- `sbuffer_push`. -/
def sbufferPush (f : Formatted) : Program Pushed :=
  Prog.step fun w => (w.sbuffer.push f).map fun p =>
    ({ w with sbuffer := p.1, pushes := w.pushes ++ [(f, p.2)] }, p.2)

/-- How many of `count` bytes a `write` takes that succeeds. -/
def taken (n count : Nat) : Nat := max 1 (min n count)

/-- `n` of the unwritten bytes went to the descriptor. -/
def World.advanced (w : World) (n : Nat) : World :=
  { w with
    sbuffer := { w.sbuffer with
      writepos := w.sbuffer.writepos + n
      written := w.sbuffer.written + UInt64.ofNat n }
    out := w.out ++ w.sbuffer.unwrittenBytes.take n }

/-- A `write` that took `n` bytes: it must not have read outside the
buffer. -/
def advance (n : Nat) : Program Unit :=
  Prog.step fun w =>
    if w.sbuffer.writepos + w.sbuffer.unwritten ≤ w.sbuffer.mem.length then
      some (w.advanced n, ())
    else none

/-- The end of `sbuffer_flush`. -/
def resetSbuffer : Program Unit :=
  Prog.modify fun w => { w with sbuffer := { w.sbuffer with pos := 0, writepos := 0 } }

/-- A turn of the loop of `sbuffer_flush`, and its end. -/
def flushTurn : Program (Unit ⊕ Ret) := do
  let b ← getSbuffer
  if 0 < b.unwritten then do
    let x ← systemCall
    match x.write with
    | .error e =>
      if e = .EAGAIN then do
        let x ← systemCall
        match x.poll with
        | .error e => pure (.inr (.error e))
        | .ok false => pure (.inr (.error .EAGAIN))
        | .ok true => pure (.inl ())
      else pure (.inr (.error e))
    | .ok n => do
      advance (taken n b.unwritten)
      pure (.inl ())
  else do
    resetSbuffer
    pure (.inr (.ok ()))

/-- `sbuffer_flush`. -/
def sbufferFlush : Program Ret := do
  let r ← Prog.iterate (fun _ => flushTurn) ()
  Prog.modify fun w => { w with flushes := w.flushes ++ [r] }
  pure r

/-- `sbuffer_checkflush`. -/
def sbufferCheckflush (leftover : Nat) : Program Ret := do
  let b ← getSbuffer
  if b.remaining < leftover then sbufferFlush else pure (.ok ())

/-! ## Sequences of calls -/

/-- A call of one of the three functions. -/
inductive Call where
  | push (f : Formatted)
  | flush
  | checkflush (leftover : Nat)

/-- The call; its result is that of the push, or of the flush. -/
def Call.exec : Call → Program Unit
  | .push f => do
    let _ ← sbufferPush f
  | .flush => do
    let _ ← sbufferFlush
  | .checkflush leftover => do
    let _ ← sbufferCheckflush leftover

/-- Calls in a row, whatever they return. -/
def execCalls : List Call → Program Unit
  | [] => pure ()
  | c :: cs => do
    c.exec
    execCalls cs

/-- A buffer that was just initialised. -/
def created (len : UInt64) : World where
  sbuffer := sbufferInit len
  out := []
  pushes := []
  flushes := []

end Sgopher.Gopherlist
