/-
DldDriver/System/Shared.lean

The helper and the firmware on one board: what each of their operations
does to what they share, the command block and the lock `send_mutex`.

A 32-bit access to the mailbox is one atomic step.  Nothing else the helper
does reaches the firmware; in particular a core that is disabled may still
make steps here, so that whatever holds here holds of a board where it
stops.
-/
import DldDriver.Interaction.Parties
import DldDriver.Kernel.Publication
import DldDriver.Firmware.Gate

namespace Dld

open Interaction

variable {ι : Type}

/-- The mailbox, and the caller that holds `send_mutex`. -/
structure Shared (ι : Type) where
  mailbox : DldCommand
  owner : Option ι

/-- Store `v` to a mailbox word. -/
def Shared.store (m : Shared ι) (off : Off) (v : Word) : Shared ι :=
  { m with mailbox := Function.update m.mailbox off v }

@[simp] theorem Shared.store_self (m : Shared ι) (off : Off) (v : Word) :
    (m.store off v).mailbox off = v := Function.update_self ..

theorem Shared.store_of_ne {m : Shared ι} {off off' : Off} {v : Word} (h : off' ≠ off) :
    (m.store off v).mailbox off' = m.mailbox off' := Function.update_of_ne h ..

@[simp] theorem Shared.store_owner (m : Shared ι) (off : Off) (v : Word) :
    (m.store off v).owner = m.owner := rfl

/-- An operation of the helper for caller `i`.  `pruss` says that the PRUSS
clock always reads as functional. -/
def helperStep (pruss : Prop) (i : ι) (m : Shared ι) (e : KEvent) (m' : Shared ι) : Prop :=
  match e with
  | ⟨.readl (.mailbox off), v⟩ => v = m.mailbox off ∧ m' = m
  | ⟨.writel v (.mailbox off), _⟩ => m' = m.store off v
  | ⟨.readl (.clocks c), v⟩ => (pruss → c = prussClock → Functional v) ∧ m' = m
  | ⟨.mutexTrylock, locked⟩ =>
    (locked = true ↔ m.owner = none) ∧ m' = if locked then { m with owner := some i } else m
  | ⟨.mutexUnlock, _⟩ => m' = { m with owner := none }
  | _ => m' = m

/-- An operation of the firmware. -/
def firmwareStep (m : Shared ι) (e : Pru.PruEvent) (m' : Shared ι) : Prop :=
  match e with
  | ⟨.lbco off, v⟩ => v = m.mailbox off ∧ m' = m
  | ⟨.sbco off v, _⟩ => m' = m.store off v
  | _ => m' = m

/-- The mailbox after an event of the firmware. -/
def Pru.stored (e : Pru.PruEvent) (m : DldCommand) : DldCommand :=
  match e with
  | ⟨.sbco off v, _⟩ => Function.update m off v
  | _ => m

/-- The board: callers of the helper, and the firmware on PRU0. -/
def board (ι : Type) (tm : Pru.Timing) (pruss : Prop) :
    System ι KOp KOp.Res Pru.PruOp Pru.PruOp.Res (Pru.Label × Pru.Regs) (Shared ι) where
  code := Pru.code tm
  client := helperStep pruss
  device := firmwareStep

/-- The state of the board. -/
abbrev BoardState (ι : Type) :=
  World ι KOp KOp.Res Pru.PruOp Pru.PruOp.Res (Pru.Label × Pru.Regs) (Shared ι) (DldQuietSend × Int)

/-- An operation on the board. -/
abbrev BoardAct (ι : Type) := Act ι KOp KOp.Res Pru.PruOp Pru.PruOp.Res

/-- Every caller is about to perform its request, and nobody holds the lock. -/
def callers (request : ι → DldQuietSend) (m : DldCommand) (p : Pru.PProg Pru.Next) : BoardState ι where
  mem := ⟨m, none⟩
  clients i := performSend (request i).clearOutputs
  device := p

end Dld
