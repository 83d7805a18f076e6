/-
Sgopher.Posix — the few constants that more than one module names: error
numbers, epoll event bits, the bits of a file's mode, and the bytes that
separate the parts of a request and of a menu.

File descriptors are `Int`, as the C code's `int`: every descriptor the
kernel hands out is non-negative, and `-1` in a field says there is none.
-/

namespace Sgopher

/-- The values of `errno` the code tells apart, and all the others. -/
inductive Errno where
  | EAGAIN
  | EINTR
  | ECONNRESET
  | EPIPE
  | ENOENT
  | EACCES
  | ENOMEM
  | EEXIST
  | EBADF
  | EINVAL
  | other (code : Nat)
  deriving DecidableEq, Repr

def EPOLLIN : UInt32 := 0x001
def EPOLLOUT : UInt32 := 0x004
def EPOLLERR : UInt32 := 0x008
def EPOLLHUP : UInt32 := 0x010
def EPOLLET : UInt32 := 0x80000000

/-- `events & flag`, as a condition. -/
def hasEvent (events flag : UInt32) : Bool := events &&& flag != 0

def S_IFMT : UInt32 := 0o170000
def S_IFREG : UInt32 := 0o100000
def S_IFDIR : UInt32 := 0o040000
def S_IROTH : UInt32 := 0o000004
def S_IXOTH : UInt32 := 0o000001

/-- `S_ISREG`. -/
def isReg (mode : UInt32) : Bool := mode &&& S_IFMT == S_IFREG

/-- `S_ISDIR`. -/
def isDir (mode : UInt32) : Bool := mode &&& S_IFMT == S_IFDIR

abbrev TAB : UInt8 := 9
abbrev LF : UInt8 := 10
abbrev CR : UInt8 := 13
abbrev DOT : UInt8 := 46
abbrev SLASH : UInt8 := 47

/-- What a function that returns 0 or -1 with `errno` set returns. -/
abbrev Ret := Except Errno Unit

end Sgopher
