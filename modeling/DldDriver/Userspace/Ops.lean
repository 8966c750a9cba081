/-
DldDriver/Userspace/Ops.lean

What the userspace programs ask of the system: the words behind their
mappings, descriptors and mappings themselves, the command lock, the quiet
ioctl, the clock and the cancellation flag.

A loop without a bound in the source takes a number of iterations.  When
that number is used up the program performs `running`, which has no
response: a complete run never reaches it, and what holds for every number
holds for every finite piece of the loop.
-/
import DldDriver.Userspace.Common
import DldDriver.Kernel.Ops

namespace Dld

open Interaction

/-- A word behind one of the mappings. -/
inductive HwReg
  /-- `hw->command->…` -/
  | command (off : Off)
  /-- `reg_at(hw->pruss_map, offset)` outside the command block -/
  | pruss (offset : Nat)
  | gpio (bank : Fin 3) (offset : Nat)
  | clock (offset : Nat)
  deriving DecidableEq

/-- What `open` is called with. -/
inductive DevicePath
  /-- `DLD_LOCK_PATH` -/
  | lock
  /-- `/dev/uioN`, by the name of its directory entry -/
  | uio (name : String)
  | mem
  /-- `DLD_QUIET_DEVICE` -/
  | quiet
  deriving DecidableEq

/-- What `mmap` maps. -/
inductive Area
  | pruss
  | clock
  | gpio (bank : Fin 3)
  deriving DecidableEq

/-- The functions whose entry and return are traced. -/
inductive UFn
  | senderOpen
  | senderSend
  | senderClose
  | takeControl
  | hwCleanup
  deriving DecidableEq

/-- What reading the configuration file comes to. -/
inductive FileRead
  | content (bytes : List UInt8)
  | cannotOpen
  | cannotRead
  | outOfMemory
  | tooLarge

/-- What a userspace program asks of its surroundings.  A failing call
answers with `errno`. -/
inductive UOp
  | load (r : HwReg)
  | store (v : Word) (r : HwReg)
  | barrier
  /-- the flag `dld_cancelled` -/
  | cancelled
  | sigaction
  /-- `clock_gettime(CLOCK_MONOTONIC, …)`: seconds and nanoseconds -/
  | clockGettime
  | nanosleep
  | openFile (path : DevicePath)
  | close (fd : Nat)
  /-- `fstat` succeeds and the file is regular -/
  | fstatRegular (fd : Nat)
  /-- `flock(fd, LOCK_EX | LOCK_NB)` and `flock(fd, LOCK_UN)` -/
  | flockExclusive (fd : Nat)
  | flockUnlock (fd : Nat)
  | geteuid
  | mmap (area : Area) (fd : Nat)
  | munmap (address : Nat)
  /-- the inventory `/sys/class/uio` -/
  | opendir
  | readdir
  | closedir
  /-- `read_number` on an attribute of map0 of an entry -/
  | readNumber (entry field : String)
  /-- the configuration file, opened, read and closed -/
  | readFile
  | ioctl (fd : Nat) (request : DldQuietSend)
  /-- `strerror(errno)` -/
  | strerror
  | printError (text : String)
  | print (text : String)
  | enter (f : UFn)
  | leave (f : UFn) (code : DldExitCode)
  /-- the iterations allowed to a loop are used up -/
  | running

/-- The response to each operation. -/
@[reducible] def UOp.Res : UOp → Type
  | .load _ => Word
  | .cancelled => Int
  | .clockGettime => Except Int (Int × Int)
  | .nanosleep | .flockExclusive _ | .flockUnlock _ | .sigaction => Option Int
  | .openFile _ | .mmap .. => Except Int Nat
  | .fstatRegular _ => Bool
  | .geteuid => Nat
  | .opendir => Option Int
  | .readdir => Option String
  | .readNumber .. => Option Nat
  | .readFile => FileRead
  | .ioctl .. => Except Int DldQuietSend
  | .strerror => String
  | .running => Empty
  | _ => Unit

/-- Programs of userspace. -/
abbrev UProg := Prog UOp UOp.Res

/-- Events of userspace. -/
abbrev UEvent := Event UOp UOp.Res

/-- Perform one operation. -/
def uop (o : UOp) : UProg o.Res := Prog.op o

def load (r : HwReg) : UProg Word := uop (.load r)

def store (v : Word) (r : HwReg) : UProg Unit := uop (.store v r)

/-- `barrier()`, `dld_memory_barrier()` -/
def memoryBarrier : UProg Unit := uop .barrier

/-- The volatile read of `dld_cancelled`. -/
def cancelled : UProg Int := uop .cancelled

def strerror : UProg String := uop .strerror

/-- A loop whose iterations are used up. -/
def stillRunning {α : Type} : UProg α := do
  let never : Empty ← uop .running
  never.elim

/-- Record the entry to and the return from a function. -/
def tracedCall {α : Type} (f : UFn) (code : α → DldExitCode) (p : UProg α) : UProg α := do
  uop (.enter f)
  let a ← p
  uop (.leave f (code a))
  pure a

/-- `snprintf(error, cap, …)` -/
abbrev snprintf (error : String) (cap : Nat) (text : String) : String := fail error cap text

/-- `PRIu32` -/
def decimal (v : Word) : String := toString v.toNat

/-- `PRIX32`, padded to `width` digits. -/
def hex (width : Nat) (v : Word) : String :=
  let digits := (Nat.toDigits 16 v.toNat).map Char.toUpper
  String.ofList (List.replicate (width - digits.length) '0' ++ digits)

end Dld
