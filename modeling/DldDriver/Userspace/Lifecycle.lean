/-
DldDriver/Userspace/Lifecycle.lean

The life of a sender context.  `lifecycle` watches the descriptors and
mappings of the process, the command lock, and what the current call has
seen; what it calls safe is what the context promises at each event.

    Slot       where a context keeps a descriptor or a mapping
    Owns       the process holds what it held before, and what the slots name

Every function is followed once from a resting context; the sequence of
calls is an induction over the list.
-/
import DldDriver.Userspace.Footprint

namespace Dld

open Interaction

/-! ### The process -/

/-- A descriptor, or a mapping by its address. -/
inductive Resource
  | fd (n : Nat)
  | map (address : Nat)
  deriving DecidableEq

/-- The process as far as a sender context can tell. -/
structure Proc where
  /-- open descriptors and existing mappings -/
  held : Resource → Bool
  /-- the descriptor that holds the command lock -/
  locked : Option Nat
  /-- the words of the command block read under the present lock -/
  seen : Off → Option Word
  /-- what was held when the last `dld_sender_open` began -/
  base : Resource → Bool
  /-- `dld_hw_cleanup` has run for this context -/
  cleaned : Bool
  /-- the ioctl of the present send, with its answer -/
  asked : Option (DldQuietSend × Except Int DldQuietSend)
  /-- the present send has seen a cancellation, has run the cleanup, has
  released the lock -/
  cancelSeen : Bool
  cleanedNow : Bool
  unlocked : Bool

/-- A process before the first call. -/
def Proc.start (held : Resource → Bool) : Proc where
  held := held
  locked := none
  seen _ := none
  base := held
  cleaned := false
  asked := none
  cancelSeen := false
  cleanedNow := false
  unlocked := false

/-- The structured result is a success of the request. -/
def Accepted (request reply : DldQuietSend) : Prop :=
  reply.result = 0 ∧ reply.submitted ≠ 0 ∧ reply.requestSeq = request.previousSeq + 1 ∧
    reply.status = statusDone ∧ reply.errorDetail = 0 ∧
    reply.completionSeq = request.previousSeq + 1

/-- The present send ended with everything a success needs. -/
def Proc.Succeeded (s : Proc) : Prop :=
  (∃ request reply, s.asked = some (request, .ok reply) ∧ Accepted request reply) ∧
    s.cancelSeen = false ∧ s.unlocked = true

/-- The present send may have submitted a frame and did not see it succeed:
the ioctl failed other than by ENOTTY or EPERM, or it answered with neither
a success nor a rejection before submission. -/
def Proc.Uncertain (s : Proc) : Prop :=
  (∃ request errno, s.asked = some (request, .error errno) ∧ errno ≠ eNotty ∧ errno ≠ ePerm) ∨
  ∃ request reply, s.asked = some (request, .ok reply) ∧
    ¬ (reply.result ≠ 0 ∧ reply.submitted = 0) ∧ ¬ (Accepted request reply ∧ s.cancelSeen = false)

/-- The request carries the configuration and the sequence that were read
under the present lock. -/
def Proc.Carries (s : Proc) (request : DldQuietSend) : Prop :=
  s.seen .profileId = some request.profileId ∧
    (∀ i, s.seen (.lengths i) = some (request.stringLengths i)) ∧
    s.seen .requestSeq = some request.previousSeq

def Proc.next (s : Proc) : UEvent → Proc
  | ⟨.load (.command off), v⟩ => { s with seen := Function.update s.seen off (some v) }
  | ⟨.cancelled, flag⟩ => { s with cancelSeen := s.cancelSeen || decide (flag ≠ 0) }
  | ⟨.openFile _, .ok fd⟩ => { s with held := Function.update s.held (.fd fd) true }
  | ⟨.mmap .., .ok address⟩ => { s with held := Function.update s.held (.map address) true }
  | ⟨.close fd, _⟩ => { s with
      held := Function.update s.held (.fd fd) false
      locked := if s.locked = some fd then none else s.locked }
  | ⟨.munmap address, _⟩ => { s with held := Function.update s.held (.map address) false }
  | ⟨.flockExclusive fd, none⟩ => { s with locked := some fd, seen := fun _ => none }
  | ⟨.flockUnlock fd, none⟩ => { s with
      locked := if s.locked = some fd then none else s.locked
      unlocked := true }
  | ⟨.ioctl _ request, answer⟩ => { s with asked := some (request, answer) }
  | ⟨.enter .senderOpen, _⟩ => { s with base := s.held, cleaned := false }
  | ⟨.enter .senderSend, _⟩ => { s with
      asked := none, cancelSeen := false, cleanedNow := false, unlocked := false }
  | ⟨.enter .hwCleanup, _⟩ => { s with cleaned := true, cleanedNow := true }
  | _ => s

/-- The promises of a sender context. -/
def Proc.May (s : Proc) : UEvent → Prop
  | ⟨.close fd, _⟩ => s.held (.fd fd) = true ∧ s.base (.fd fd) = false
  | ⟨.munmap address, _⟩ => s.held (.map address) = true ∧ s.base (.map address) = false
  | ⟨.ioctl _ request, _⟩ => s.locked ≠ none ∧ s.cleaned = false ∧ s.Carries request
  | ⟨.enter .hwCleanup, _⟩ => s.locked ≠ none ∧ s.cleaned = false
  | ⟨.enter .senderOpen, _⟩ | ⟨.enter .senderSend, _⟩ | ⟨.enter .senderClose, _⟩ => s.locked = none
  | ⟨.leave .senderOpen code, _⟩ => s.locked = none ∧ (code ≠ .ok → s.held = s.base)
  | ⟨.leave .senderSend code, _⟩ =>
    s.locked = none ∧ (code = .ok ↔ s.Succeeded) ∧ (s.cleanedNow = true ↔ s.Uncertain)
  | ⟨.leave .senderClose _, _⟩ => s.locked = none ∧ s.held = s.base
  | _ => True

/-- A new descriptor or mapping is one that the process does not hold. -/
def lifecycle : Monitor UOp UOp.Res Proc where
  env s e := match e with
    | ⟨.openFile _, .ok fd⟩ => s.held (.fd fd) = false
    | ⟨.mmap .., .ok address⟩ => s.held (.map address) = false
    | _ => True
  safe := Proc.May
  next := Proc.next

instance (s : Proc) : (e : UEvent) → Decidable (lifecycle.env s e)
  | ⟨.openFile _, .ok fd⟩ => inferInstanceAs (Decidable (s.held (.fd fd) = false))
  | ⟨.mmap .., .ok address⟩ => inferInstanceAs (Decidable (s.held (.map address) = false))
  | ⟨.openFile _, .error _⟩ | ⟨.mmap .., .error _⟩ | ⟨.load _, _⟩ | ⟨.store .., _⟩ | ⟨.barrier, _⟩
  | ⟨.cancelled, _⟩ | ⟨.sigaction, _⟩ | ⟨.clockGettime, _⟩ | ⟨.nanosleep, _⟩ | ⟨.close _, _⟩
  | ⟨.fstatRegular _, _⟩ | ⟨.flockExclusive _, _⟩ | ⟨.flockUnlock _, _⟩ | ⟨.geteuid, _⟩
  | ⟨.munmap _, _⟩ | ⟨.opendir, _⟩ | ⟨.readdir, _⟩ | ⟨.closedir, _⟩ | ⟨.readNumber .., _⟩
  | ⟨.readFile, _⟩ | ⟨.ioctl .., _⟩ | ⟨.strerror, _⟩ | ⟨.printError _, _⟩ | ⟨.print _, _⟩
  | ⟨.enter _, _⟩ | ⟨.leave .., _⟩ | ⟨.running, _⟩ => inferInstanceAs (Decidable True)

/-! ### The slots of a context -/

inductive Slot
  | gpio (bank : Fin 3)
  | clock
  | pruss
  | uio
  | mem
  | quiet
  | lock
  deriving DecidableEq

def DldHw.slot (hw : DldHw) : Slot → Option Resource
  | .gpio bank => (hw.gpioMap bank).map .map
  | .clock => hw.clockMap.map .map
  | .pruss => hw.prussMap.map .map
  | .uio => hw.uioFd.map .fd
  | .mem => hw.memFd.map .fd
  | _ => none

def DldSender.slot (sender : DldSender) : Slot → Option Resource
  | .quiet => sender.quietFd.map .fd
  | .lock => sender.lockFd.map .fd
  | i => if sender.mapped then sender.hw.slot i else none

/-- What is held: what was held before, and one resource a filled slot. -/
structure Owns (base : Resource → Bool) (slot : Slot → Option Resource)
    (held : Resource → Bool) : Prop where
  held_iff : ∀ r, held r = true ↔ base r = true ∨ ∃ i, slot i = some r
  fresh : ∀ i r, slot i = some r → base r = false
  injective : ∀ i j r, slot i = some r → slot j = some r → i = j

theorem Owns.held {base held : Resource → Bool} {slot : Slot → Option Resource} {i : Slot}
    {r : Resource} (h : Owns base slot held) (hi : slot i = some r) : held r = true :=
  (h.held_iff r).mpr (.inr ⟨i, hi⟩)

/-- What a slot names is the context's own. -/
theorem Owns.own {base held : Resource → Bool} {slot : Slot → Option Resource} {i : Slot}
    {r : Resource} (h : Owns base slot held) (hi : slot i = some r) :
    held r = true ∧ base r = false :=
  ⟨h.held hi, h.fresh i r hi⟩

/-- A fresh resource goes into an empty slot. -/
theorem Owns.acquire {base held : Resource → Bool} {slot slot' : Slot → Option Resource} {i : Slot}
    {r : Resource} (h : Owns base slot held) (hr : held r = false) (hi : slot i = none)
    (hslot : slot' = Function.update slot i (some r)) :
    Owns base slot' (Function.update held r true) := by
  subst hslot
  have hother (j : Slot) (x : Resource) (hj : slot j = some x) : j ≠ i ∧ x ≠ r := by
    constructor
    · rintro rfl
      rw [hi] at hj
      cases hj
    · rintro rfl
      rw [h.held hj] at hr
      cases hr
  refine ⟨fun x => ?_, fun j x hj => ?_, fun j k x hj hk => ?_⟩
  · by_cases hx : x = r
    · subst hx
      rw [Function.update_self]
      exact iff_of_true rfl (.inr ⟨i, Function.update_self ..⟩)
    · rw [Function.update_of_ne hx, h.held_iff]
      refine or_congr_right ⟨?_, ?_⟩
      · rintro ⟨j, hj⟩
        exact ⟨j, by rw [Function.update_of_ne (hother j x hj).1, hj]⟩
      · rintro ⟨j, hj⟩
        by_cases hji : j = i
        · subst hji
          rw [Function.update_self] at hj
          exact absurd (Option.some_inj.mp hj).symm hx
        · exact ⟨j, by rwa [Function.update_of_ne hji] at hj⟩
  · by_cases hji : j = i
    · subst hji
      rw [Function.update_self] at hj
      obtain rfl := Option.some_inj.mp hj
      by_contra hbase
      rw [Bool.not_eq_false] at hbase
      rw [(h.held_iff _).mpr (.inl hbase)] at hr
      cases hr
    · rw [Function.update_of_ne hji] at hj
      exact h.fresh j x hj
  · by_cases hji : j = i <;> by_cases hki : k = i
    · rw [hji, hki]
    · subst hji
      rw [Function.update_self] at hj
      rw [Function.update_of_ne hki] at hk
      exact absurd (Option.some_inj.mp hj).symm (hother k x hk).2
    · subst hki
      rw [Function.update_self] at hk
      rw [Function.update_of_ne hji] at hj
      exact absurd (Option.some_inj.mp hk).symm (hother j x hj).2
    · rw [Function.update_of_ne hji] at hj
      rw [Function.update_of_ne hki] at hk
      exact h.injective j k x hj hk

/-- The resource of a slot is released and the slot is emptied. -/
theorem Owns.release {base held : Resource → Bool} {slot slot' : Slot → Option Resource} {i : Slot}
    {r : Resource} (h : Owns base slot held) (hi : slot i = some r)
    (hslot : slot' = Function.update slot i none) :
    Owns base slot' (Function.update held r false) := by
  subst hslot
  refine ⟨fun x => ?_, fun j x hj => ?_, fun j k x hj hk => ?_⟩
  · by_cases hx : x = r
    · subst hx
      rw [Function.update_self]
      refine iff_of_false Bool.false_ne_true ?_
      rintro (hbase | ⟨j, hj⟩)
      · rw [h.fresh i x hi] at hbase
        cases hbase
      · by_cases hji : j = i
        · subst hji
          rw [Function.update_self] at hj
          cases hj
        · rw [Function.update_of_ne hji] at hj
          exact hji (h.injective j i x hj hi)
    · rw [Function.update_of_ne hx, h.held_iff]
      refine or_congr_right ⟨?_, ?_⟩
      · rintro ⟨j, hj⟩
        have hji : j ≠ i := by
          rintro rfl
          rw [hi] at hj
          exact hx (Option.some_inj.mp hj).symm
        exact ⟨j, by rw [Function.update_of_ne hji, hj]⟩
      · rintro ⟨j, hj⟩
        by_cases hji : j = i
        · subst hji
          rw [Function.update_self] at hj
          cases hj
        · exact ⟨j, by rwa [Function.update_of_ne hji] at hj⟩
  · by_cases hji : j = i
    · subst hji
      rw [Function.update_self] at hj
      cases hj
    · rw [Function.update_of_ne hji] at hj
      exact h.fresh j x hj
  · by_cases hji : j = i
    · subst hji
      rw [Function.update_self] at hj
      cases hj
    · by_cases hki : k = i
      · subst hki
        rw [Function.update_self] at hk
        cases hk
      · rw [Function.update_of_ne hji] at hj
        rw [Function.update_of_ne hki] at hk
        exact h.injective j k x hj hk

/-- With every slot empty, what is held is what was held. -/
theorem Owns.base_eq {base held : Resource → Bool} (h : Owns base (fun _ => none) held) :
    held = base := by
  funext r
  rw [Bool.eq_iff_iff, h.held_iff]
  simp

end Dld
