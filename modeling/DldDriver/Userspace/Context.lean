/-
DldDriver/Userspace/Context.lean

The sender context keeps its promises.  Each function of `dld_sender.c` is
followed once along the monitor `lifecycle`: what it does to the descriptors
and mappings, to the lock, and to what the present call has seen.

    Resting     the lock is free, the slots name what is held, and a context
                that has been cleaned up cannot be used again
    Judged      the verdict of a send is that of its ioctl

`senderCalls` is any sequence of calls on one context, and
`senderCalls_lifecycle` follows it from call to call.
-/
import DldDriver.Session
import DldDriver.Userspace.Lifecycle
import Mathlib.Tactic.FinCases

namespace Dld

open Interaction

variable {α : Type} {s : Proc} {slot : Slot → Option Resource}

/-! ### What the monitor does not see -/

/-- Everything behind the mappings but the command block. -/
def peripherals : Reach where
  reads r := ∀ off, r ≠ .command off
  writes _ := True

theorem lifecycle_ignores (e : UEvent) (he : peripherals.allows e) :
    lifecycle.safe s e ∧ lifecycle.next s e = s := by
  obtain ⟨op, v⟩ := e
  cases op with
  | load r =>
    rcases r with off | offset | ⟨bank, offset⟩ | offset
    · exact absurd rfl (he off)
    all_goals exact ⟨trivial, rfl⟩
  | _ => first | exact he.elim | exact ⟨trivial, rfl⟩

/-- A program among the peripherals leaves the monitor alone. -/
theorem wp_peripherals {p : UProg α} {Q : Proc → α → Prop} (hp : p.Emits peripherals.allows)
    (hQ : ∀ a, Q s a) : lifecycle.wp p s Q :=
  Monitor.wp_frame' hp lifecycle_ignores hQ

theorem peripherals_pruss (n : Nat) : peripherals.reads (.pruss n) := fun _ h => nomatch h

theorem peripherals_clock (n : Nat) : peripherals.reads (.clock n) := fun _ h => nomatch h

theorem peripherals_gpio (b : Fin 3) (n : Nat) : peripherals.reads (.gpio b n) :=
  fun _ h => nomatch h

theorem wp_strerror {Q : Proc → String → Prop} (hQ : ∀ text, Q s text) :
    lifecycle.wp strerror s Q :=
  fun text _ => ⟨trivial, hQ text⟩

/-- A traced function is safe to enter, and safe to leave with its result. -/
theorem wp_tracedCall {Q : Proc → α → Prop} {f : UFn} {code : α → DldExitCode} {p : UProg α}
    (henter : lifecycle.safe s ⟨.enter f, ()⟩)
    (hp : lifecycle.wp p (lifecycle.next s ⟨.enter f, ()⟩) fun s' a =>
      lifecycle.safe s' ⟨.leave f (code a), ()⟩ ∧ Q s' a) :
    lifecycle.wp (tracedCall f code p) s Q := by
  refine Monitor.wp_op_bind fun _ _ => ⟨henter, ?_⟩
  rw [Monitor.wp_bind]
  refine Monitor.wp_mono hp fun s' a h => ?_
  exact Monitor.wp_op_bind fun _ _ => ⟨h.1, h.2⟩

/-! ### The snapshot -/

theorem wp_loadWords {Q : Proc → DldCommand → Prop} {snapshot : DldCommand} {offs : List Off}
    (h : ∀ off ∉ offs, s.seen off = some (snapshot off))
    (hQ : ∀ state, Q { s with seen := fun off => some (state off) } state) :
    lifecycle.wp (loadWords snapshot offs) s Q := by
  induction offs generalizing s snapshot with
  | nil =>
    have hseen : s.seen = fun off => some (snapshot off) := by
      funext off
      exact h off (List.not_mem_nil)
    have hs : s = { s with seen := fun off => some (snapshot off) } := by
      rw [← hseen]
    rw [loadWords, Monitor.wp_pure, hs]
    exact hQ snapshot
  | cons off rest ih =>
    refine Monitor.wp_op_bind fun v _ => ⟨trivial, ih (fun other hother => ?_) fun state => hQ state⟩
    show Function.update s.seen off (some v) other = _
    by_cases heq : other = off
    · subst heq
      rw [Function.update_self, Function.update_self]
    · rw [Function.update_of_ne heq, Function.update_of_ne heq]
      exact h other fun hmem => (List.mem_cons.mp hmem).elim heq hother

/-- A snapshot holds every word of the command block, each as it was read. -/
theorem wp_dldSnapshot {Q : Proc → DldCommand → Prop}
    (hQ : ∀ state, Q { s with seen := fun off => some (state off) } state) :
    lifecycle.wp dldSnapshot s Q := by
  refine Monitor.wp_op_bind fun status _ => ⟨trivial, ?_⟩
  refine Monitor.wp_op_bind fun _ _ => ⟨trivial, ?_⟩
  refine wp_loadWords (fun off hoff => ?_) fun state => hQ state
  -- only `status` is missing from the list
  have hoff : off = .status := by
    cases off with
    | lengths i => exact absurd (by simp [snapshotOrder]) hoff
    | status => rfl
    | _ => exact absurd (by decide) hoff
  subst hoff
  show Function.update s.seen .status (some status) .status = _
  rw [Function.update_self]

/-! ### Descriptors and mappings -/

theorem wp_unmap {Q : Proc → Unit → Prop} {map : Option Nat} (i : Slot)
    (hown : Owns s.base slot s.held) (hi : slot i = map.map .map)
    (hQ : ∀ held, Owns s.base (Function.update slot i none) held → Q { s with held := held } ()) :
    lifecycle.wp (unmap map) s Q := by
  rcases map with - | address
  · refine hQ s.held ?_
    rwa [Function.update_eq_self_iff.mpr hi.symm]
  · exact fun _ _ => ⟨hown.own hi, hQ _ (hown.release hi rfl)⟩

/-- The lock goes with the descriptor that holds it. -/
theorem wp_closeFd {Q : Proc → Unit → Prop} {fd : Option Nat} (i : Slot)
    (hown : Owns s.base slot s.held) (hi : slot i = fd.map .fd)
    (hQ : ∀ held, Owns s.base (Function.update slot i none) held →
      Q { s with held := held, locked := if s.locked = fd then none else s.locked } ()) :
    lifecycle.wp (closeFd fd) s Q := by
  rcases fd with - | fd
  · have hlocked : (if s.locked = none then none else s.locked) = s.locked := by
      split
      · exact Eq.symm ‹_›
      · rfl
    have h := hQ s.held (by rwa [Function.update_eq_self_iff.mpr hi.symm])
    rwa [hlocked] at h
  · exact fun _ _ => ⟨hown.own hi, hQ _ (hown.release hi rfl)⟩

/-- The lock is free or held by the context's own descriptor. -/
def LockWithin (locked : Option Nat) (sender : DldSender) : Prop :=
  locked = none ∨ locked = sender.lockFd

theorem LockWithin.closing {locked fd : Option Nat} {sender : DldSender}
    (h : LockWithin locked sender) :
    LockWithin (if locked = fd then none else locked) sender := by
  split
  · exact .inl rfl
  · exact h

theorem LockWithin.closed {locked : Option Nat} {sender : DldSender}
    (h : LockWithin locked sender) :
    (if locked = sender.lockFd then none else locked) = none := by
  split
  · rfl
  · exact h.resolve_right ‹_›

/-! ### Closing -/

/-- Only what is held and the lock have changed. -/
def Proc.release (s : Proc) (held : Resource → Bool) (locked : Option Nat) : Proc :=
  { s with held := held, locked := locked }

theorem wp_dldHwClose {Q : Proc → DldHw → Prop} {sender : DldSender} (hmapped : sender.mapped = true)
    (hown : Owns s.base sender.slot s.held) (hlock : LockWithin s.locked sender)
    (hQ : ∀ held locked, Owns s.base { sender with mapped := false }.slot held →
      LockWithin locked sender → Q (s.release held locked) {}) :
    lifecycle.wp (dldHwClose sender.hw) s Q := by
  have hslot (i : Slot) (hq : i ≠ .quiet) (hl : i ≠ .lock) : sender.slot i = sender.hw.slot i := by
    cases i <;> simp_all [DldSender.slot]
  unfold dldHwClose
  rw [Monitor.wp_bind]
  refine wp_unmap (.gpio 0) hown (hslot _ nofun nofun) fun _ h₀ => ?_
  rw [Monitor.wp_bind]
  refine wp_unmap (.gpio 1) h₀ (by simp [hslot, DldHw.slot]) fun _ h₁ => ?_
  rw [Monitor.wp_bind]
  refine wp_unmap (.gpio 2) h₁ (by simp [hslot, DldHw.slot]) fun _ h₂ => ?_
  rw [Monitor.wp_bind]
  refine wp_unmap .clock h₂ (by simp [hslot, DldHw.slot]) fun _ h₃ => ?_
  rw [Monitor.wp_bind]
  refine wp_unmap .pruss h₃ (by simp [hslot, DldHw.slot]) fun _ h₄ => ?_
  rw [Monitor.wp_bind]
  refine wp_closeFd .uio h₄ (by simp [hslot, DldHw.slot]) fun _ h₅ => ?_
  rw [Monitor.wp_bind]
  refine wp_closeFd .mem h₅ (by simp [hslot, DldHw.slot]) fun held h₆ => ?_
  refine hQ held _ ?_ hlock.closing.closing
  convert h₆ using 1
  funext i
  rcases i with bank | - | - | - | - | - | -
  · fin_cases bank <;> simp [DldSender.slot]
  all_goals simp [DldSender.slot]

/-- Closing a context releases what its slots name, and nothing else. -/
theorem wp_senderClose {Q : Proc → DldSender → Prop} {sender : DldSender}
    (hown : Owns s.base sender.slot s.held) (hlock : LockWithin s.locked sender)
    (hQ : Q (s.release s.base none) {}) : lifecycle.wp (senderClose sender) s Q := by
  -- the two descriptors of the context itself, with the mappings gone
  have hfds (Q : Proc → Unit → Prop) (s' : Proc)
      (hown : Owns s'.base { sender with mapped := false }.slot s'.held)
      (hlock : LockWithin s'.locked sender) (hQ : Q (s'.release s'.base none) ()) :
      lifecycle.wp (do closeFd sender.quietFd; closeFd sender.lockFd) s' Q := by
    rw [Monitor.wp_bind]
    refine wp_closeFd .quiet hown rfl fun _ h₁ => ?_
    refine wp_closeFd .lock h₁ (by simp [DldSender.slot]) fun held h₂ => ?_
    have hslot : Function.update
        (Function.update ({ sender with mapped := false } : DldSender).slot .quiet none) .lock none =
        fun _ => none := by
      funext i
      cases i <;> simp [DldSender.slot]
    rw [hslot] at h₂
    rw [h₂.base_eq]
    have hwithin : LockWithin (if s'.locked = sender.quietFd then none else s'.locked) sender :=
      hlock.closing
    show Q { s' with held := s'.base, locked := _ } ()
    rwa [hwithin.closed]
  unfold senderClose
  refine Monitor.wp_ite.mpr ⟨fun hmapped => ?_, fun hmapped => ?_⟩
  · rw [Monitor.wp_bind]
    refine wp_dldHwClose hmapped hown hlock fun held locked hown' hlock' => ?_
    have h := hfds (fun s' _ => Q s' {}) (s.release held locked) hown' hlock' hQ
    rw [Monitor.wp_bind] at h
    rw [Monitor.wp_bind]
    refine Monitor.wp_mono h fun s' _ h => ?_
    rw [Monitor.wp_bind]
    exact h
  · have hsender : { sender with mapped := false } = sender := by
      rw [← Bool.eq_false_iff.mpr hmapped]
    have h := hfds (fun s' _ => Q s' {}) s (by rwa [hsender]) hlock hQ
    rw [Monitor.wp_bind] at h
    rw [Monitor.wp_bind]
    refine Monitor.wp_mono h fun s' _ h => ?_
    rw [Monitor.wp_bind]
    exact h

/-! ### The lock -/

theorem wp_lockFailure {Q : Proc → DldExitCode × String → Prop} {errno : Int} {error : String}
    {cap : Nat} (hQ : ∀ code text, code ≠ .ok → Q s (code, text)) :
    lifecycle.wp (lockFailure errno error cap) s Q := by
  refine Monitor.wp_ite.mpr ⟨fun _ => ?_, fun _ => ?_⟩
  · exact hQ _ _ nofun
  · rw [Monitor.wp_bind]
    exact wp_strerror fun reason => hQ _ _ nofun

/-- A lock that is not acquired leaves no descriptor behind. -/
theorem wp_dldLock {Q : Proc → Except DldExitCode Nat × String → Prop} {error : String} {cap : Nat}
    (hown : Owns s.base (fun _ => none) s.held) (hlock : s.locked = none)
    (hfail : ∀ code text, code ≠ .ok → Q (s.release s.base none) (.error code, text))
    (hok : ∀ fd held text, Owns s.base ({ lockFd := some fd } : DldSender).slot held →
      Q { s with held := held, locked := some fd, seen := fun _ => none } (.ok fd, text)) :
    lifecycle.wp (dldLock error cap) s Q := by
  have hkept (code : DldExitCode) (text : String) (hcode : code ≠ .ok) : Q s (.error code, text) := by
    have h := hfail code text hcode
    rwa [← hown.base_eq, ← hlock] at h
  refine Monitor.wp_op_bind fun opened hfresh => ⟨trivial, ?_⟩
  rcases opened with errno | fd
  · rw [Monitor.wp_bind]
    exact wp_strerror fun reason => hkept _ _ nofun
  have hslot : ({ lockFd := some fd } : DldSender).slot =
      Function.update (fun _ => none) .lock (some (.fd fd)) := by
    funext i
    cases i <;> rfl
  have hacquired := hown.acquire hfresh rfl hslot
  -- closing the descriptor again empties the slots
  have hclosed (code : DldExitCode) (text : String) (hcode : code ≠ .ok) (locked : Option Nat)
      (hlocked : locked = none) :
      Q (s.release (Function.update (Function.update s.held (.fd fd) true) (.fd fd) false) locked)
        (.error code, text) := by
    have hreleased := hacquired.release (i := .lock) (r := .fd fd) rfl rfl
    have hempty : Function.update ({ lockFd := some fd } : DldSender).slot .lock none =
        fun _ => none := by
      funext i
      cases i <;> rfl
    rw [hempty] at hreleased
    rw [hreleased.base_eq, hlocked]
    exact hfail code text hcode
  have hnone : (if s.locked = some fd then none else s.locked) = none := by
    rw [hlock]
    rfl
  refine Monitor.wp_op_bind fun regular _ => ⟨trivial, ?_⟩
  refine Monitor.wp_ite.mpr ⟨fun _ => ?_, fun _ => ?_⟩
  · exact fun _ _ => ⟨hacquired.own (i := .lock) rfl, hclosed .prerequisite _ nofun _ hnone⟩
  refine Monitor.wp_op_bind fun locked _ => ⟨by cases locked <;> trivial, ?_⟩
  rcases locked with - | errno
  · exact hok fd _ _ hacquired
  · rw [Monitor.wp_bind]
    refine wp_lockFailure fun code text hcode => ?_
    exact fun _ _ => ⟨hacquired.own (i := .lock) rfl, hclosed _ _ hcode _ hnone⟩

/-- After `unlock_sender` the lock is free: released, or gone with its
descriptor. -/
theorem wp_unlockSender {Q : Proc → DldSender × DldExitCode × String → Prop} {fuel : Nat}
    {sender : DldSender} {error : String} {cap fd : Nat} (hfd : sender.lockFd = some fd)
    (hown : Owns s.base sender.slot s.held) (hlock : s.locked = some fd)
    (hok : ∀ text, Q { s with locked := none, unlocked := true } (sender, .ok, text))
    (hfail : ∀ held text, Owns s.base { sender with lockFd := none }.slot held →
      Q (s.release held none)
        ({ sender with lockFd := none, faulted := some .prerequisite }, .prerequisite, text)) :
    lifecycle.wp (unlockSender fuel sender error cap) s Q := by
  have hretry : ∀ fuel, lifecycle.wp (unlockRetry fd fuel) s fun s' rc =>
      (rc = none ∧ s' = { s with locked := none, unlocked := true }) ∨ (rc ≠ none ∧ s' = s) := by
    intro fuel
    induction fuel with
    | zero => exact fun never => never.elim
    | succ fuel ih =>
      refine Monitor.wp_op_bind fun rc _ => ⟨by cases rc <;> trivial, ?_⟩
      rcases rc with - | errno
      · refine .inl ⟨rfl, ?_⟩
        show { s with locked := if s.locked = some fd then none else s.locked, unlocked := true } = _
        rw [if_pos hlock]
      · refine Monitor.wp_ite.mpr ⟨fun _ => ih, fun _ => ?_⟩
        exact .inr ⟨nofun, rfl⟩
  simp only [unlockSender, hfd]
  rw [Monitor.wp_bind]
  refine Monitor.wp_mono (hretry fuel) fun s' rc => ?_
  rintro (⟨rfl, rfl⟩ | ⟨hrc, rfl⟩)
  · exact hok _
  · rcases rc with - | errno
    · exact absurd rfl hrc
    rw [Monitor.wp_bind]
    refine wp_strerror fun reason => fun _ _ => ⟨hown.own (i := .lock) ?_, ?_⟩
    · exact congrArg (Option.map Resource.fd) hfd
    · have hslot : { sender with lockFd := none }.slot = Function.update sender.slot .lock none := by
        funext i
        cases i <;> rfl
      have hreleased := hown.release (i := .lock) (congrArg (Option.map Resource.fd) hfd) hslot
      have hfree : (if s'.locked = some fd then none else s'.locked) = none := if_pos hlock
      have h := hfail _ (snprintf error cap ("cannot release command lock: " ++ reason ++
        "; restart the sender")) hreleased
      show Q (s'.release _ (if s'.locked = some fd then none else s'.locked)) _
      rwa [hfree]

/-! ### The hardware -/

/-- `dld_hw_open` leaves the two slots of PRUSS filled, or none. -/
theorem wp_dldHwOpen {Q : Proc → DldHw × Bool × String → Prop} {sender : DldSender} {fuel : Nat}
    {error : String} {cap : Nat} (hmapped : sender.mapped = false)
    (hown : Owns s.base sender.slot s.held) (hlock : LockWithin s.locked sender)
    (hfail : ∀ hw text held locked, Owns s.base sender.slot held → LockWithin locked sender →
      Q (s.release held locked) (hw, false, text))
    (hok : ∀ hw text held, Owns s.base { sender with hw := hw, mapped := true }.slot held →
      Q (s.release held s.locked) (hw, true, text)) :
    lifecycle.wp (dldHwOpen fuel error cap) s Q := by
  have herror (hw : DldHw) (what : String) :
      lifecycle.wp (do
        let error ← failErrno error cap what
        pure (hw, false, error)) s Q := by
    rw [Monitor.wp_bind]
    exact wp_peripherals (emits_failErrno _ _ _) fun text => hfail hw text s.held s.locked hown hlock
  refine Monitor.wp_op_bind fun opened _ => ⟨trivial, ?_⟩
  refine Monitor.wp_ite.mpr ⟨fun _ => herror _ _, fun _ => ?_⟩
  rw [Monitor.wp_bind]
  refine wp_peripherals (emits_findPruss fuel) fun found => ?_
  refine Monitor.wp_op_bind fun _ _ => ⟨trivial, ?_⟩
  rcases found with - | ⟨name, size⟩
  · exact herror _ _
  refine Monitor.wp_op_bind fun uio hfresh => ⟨trivial, ?_⟩
  rcases uio with errno | fd
  · exact herror _ _
  -- the descriptor is in its slot, the mapping may still fail
  have huio : ({ sender with hw := { prussSize := size, uioFd := some fd }, mapped := true } :
      DldSender).slot = Function.update sender.slot .uio (some (.fd fd)) := by
    funext i
    cases i <;> simp [DldSender.slot, DldHw.slot, hmapped]
  have hacquired := hown.acquire hfresh (by simp [DldSender.slot, hmapped]) huio
  refine Monitor.wp_op_bind fun map hfresh' => ⟨trivial, ?_⟩
  rcases map with errno | address
  · rw [Monitor.wp_bind]
    refine wp_peripherals (emits_failErrno _ _ _) fun text => ?_
    rw [Monitor.wp_bind]
    have hmapped' : ({ sender with hw := { prussSize := size, uioFd := some fd }, mapped := true } :
        DldSender).mapped = true := rfl
    refine wp_dldHwClose hmapped' hacquired hlock fun held locked hown' hlock' => ?_
    have hclosed : ({ sender with hw := { prussSize := size, uioFd := some fd }, mapped := false } :
        DldSender).slot = sender.slot := by
      funext i
      cases i <;> simp [DldSender.slot, hmapped]
    refine hfail _ text held locked ?_ hlock'
    rwa [← hclosed]
  · refine hok _ error _ (hacquired.acquire (i := .pruss) hfresh' ?_ ?_)
    · rw [huio]
      simp [DldSender.slot, hmapped]
    · funext i
      cases i <;> simp [DldSender.slot, DldHw.slot]

/-- A context that may have gained descriptors and mappings. -/
def Gained (s : Proc) (sender : DldSender) (s' : Proc) (hw : DldHw) : Prop :=
  ∃ held, Owns s.base { sender with hw := hw }.slot held ∧ s' = { s with held := held }

theorem Gained.refl {sender : DldSender} {hw : DldHw}
    (hown : Owns s.base { sender with hw := hw }.slot s.held) : Gained s sender s hw :=
  ⟨s.held, hown, rfl⟩

theorem Gained.trans {sender : DldSender} {s' s'' : Proc} {hw hw' : DldHw}
    (h : Gained s sender s' hw) (h' : Gained s' sender s'' hw') : Gained s sender s'' hw' := by
  obtain ⟨held, hown, rfl⟩ := h
  obtain ⟨held', hown', rfl⟩ := h'
  exact ⟨held', hown', rfl⟩

theorem Gained.owns {sender : DldSender} {s' : Proc} {hw : DldHw} (h : Gained s sender s' hw) :
    Owns s'.base { sender with hw := hw }.slot s'.held := by
  obtain ⟨held, hown, rfl⟩ := h
  exact hown

section Cleanup

variable {sender : DldSender} {hw : DldHw} {error : String} {cap : Nat}

theorem wp_mapPeripherals (hmapped : sender.mapped = true)
    (hown : Owns s.base { sender with hw := hw }.slot s.held) :
    lifecycle.wp (mapPeripherals hw error cap) s fun s' r => Gained s sender s' r.1 := by
  -- the mapping of the clocks, once `/dev/mem` is open
  have hclock (hw : DldHw) (fd : Nat) (s : Proc)
      (hown : Owns s.base { sender with hw := hw }.slot s.held) :
      lifecycle.wp (mapClock error cap hw fd) s fun s' r => Gained s sender s' r.1 := by
    refine Monitor.wp_ite.mpr ⟨fun _ => Gained.refl hown, fun hnone => ?_⟩
    refine Monitor.wp_op_bind fun map hfresh => ⟨trivial, ?_⟩
    rcases map with errno | address
    · rw [Monitor.wp_bind]
      exact wp_peripherals (emits_failErrno _ _ _) fun text => Gained.refl hown
    · refine ⟨_, hown.acquire (i := .clock) hfresh ?_ ?_, rfl⟩
      · simpa [DldSender.slot, DldHw.slot, hmapped] using hnone
      · funext i
        cases i <;> simp [DldSender.slot, DldHw.slot, hmapped]
  unfold mapPeripherals
  rcases hmem : hw.memFd with - | fd
  · refine Monitor.wp_op_bind fun mem hfresh => ⟨trivial, ?_⟩
    rcases mem with errno | fd
    · rw [Monitor.wp_bind]
      exact wp_peripherals (emits_failErrno _ _ _) fun text => Gained.refl hown
    · have hacquired : Gained s sender _ { hw with memFd := some fd } :=
        ⟨_, hown.acquire (i := .mem) hfresh
          (by simp [DldSender.slot, DldHw.slot, hmapped, hmem])
          (by funext i; cases i <;> simp [DldSender.slot, DldHw.slot, hmapped]), rfl⟩
      refine Monitor.wp_mono (hclock _ fd _ hacquired.owns) fun s' r h => ?_
      exact hacquired.trans h
  · exact hclock hw fd s hown

theorem emits_setUpBank_peripherals (bank : Fin 3) (error : String) (cap : Nat) :
    (setUpBank bank error cap).Emits peripherals.allows :=
  emits_setUpBank peripherals_clock (fun _ => trivial) peripherals_gpio (fun _ _ => trivial) _ _ _

theorem wp_configureBank (hmapped : sender.mapped = true) (bank : Fin 3)
    (hown : Owns s.base { sender with hw := hw }.slot s.held) :
    lifecycle.wp (configureBank hw bank error cap) s fun s' r => Gained s sender s' r.1 := by
  unfold configureBank
  rcases hmap : hw.gpioMap bank with - | address
  · rcases hmem : hw.memFd with - | fd
    · rw [Monitor.wp_bind]
      exact wp_peripherals (emits_failErrno _ _ _) fun text => Gained.refl hown
    refine Monitor.wp_op_bind fun map hfresh => ⟨trivial, ?_⟩
    rcases map with errno | address
    · rw [Monitor.wp_bind]
      exact wp_peripherals (emits_failErrno _ _ _) fun text => Gained.refl hown
    · rw [Monitor.wp_bind]
      refine wp_peripherals (emits_setUpBank_peripherals _ _ _) fun result => ?_
      refine ⟨_, hown.acquire (i := .gpio bank) hfresh ?_ ?_, rfl⟩
      · simp [DldSender.slot, DldHw.slot, hmapped, hmap]
      · funext i
        rcases i with other | - | - | - | - | - | -
        · by_cases h : other = bank <;> simp [DldSender.slot, DldHw.slot, hmapped, h]
        all_goals simp [DldSender.slot, DldHw.slot, hmapped, hmem]
  · rw [Monitor.wp_bind]
    exact wp_peripherals (emits_setUpBank_peripherals _ _ _) fun result => Gained.refl hown

theorem wp_cleanupBanks (hmapped : sender.mapped = true) (banks : List (Fin 3))
    (hown : Owns s.base { sender with hw := hw }.slot s.held) :
    lifecycle.wp (cleanupBanks hw error banks) s (Gained s sender) := by
  induction banks generalizing s hw error with
  | nil => exact Gained.refl hown
  | cons bank rest ih =>
    unfold cleanupBanks
    rw [Monitor.wp_bind]
    refine Monitor.wp_mono (wp_configureBank hmapped bank hown) ?_
    rintro s' ⟨hw', ok, error'⟩ hgained
    refine Monitor.wp_ite.mpr ⟨fun _ => ?_, fun _ => ?_⟩
    · refine Monitor.wp_op_bind fun _ _ => ⟨trivial, ?_⟩
      exact Monitor.wp_mono (ih hgained.owns) fun s'' hw'' h => hgained.trans h
    · exact Monitor.wp_mono (ih hgained.owns) fun s'' hw'' h => hgained.trans h

theorem wp_cleanupOutputs (hmapped : sender.mapped = true)
    (hown : Owns s.base { sender with hw := hw }.slot s.held) :
    lifecycle.wp (cleanupOutputs hw error) s (Gained s sender) := by
  unfold cleanupOutputs
  rw [Monitor.wp_bind]
  refine Monitor.wp_mono (wp_mapPeripherals hmapped hown) ?_
  rintro s' ⟨hw', mapped, error'⟩ hgained
  refine Monitor.wp_ite.mpr ⟨fun _ => ?_, fun _ => ?_⟩
  · exact Monitor.wp_op_bind fun _ _ => ⟨trivial, hgained⟩
  · refine Monitor.wp_mono (wp_cleanupBanks hmapped _ hgained.owns) fun s'' hw'' h => ?_
    exact hgained.trans h

/-- The cleanup marks the context and keeps its slots in order. -/
theorem wp_dldHwCleanup (hmapped : sender.mapped = true)
    (hown : Owns s.base { sender with hw := hw }.slot s.held) (hlock : s.locked ≠ none)
    (hfirst : s.cleaned = false) :
    lifecycle.wp (dldHwCleanup hw) s fun s' hw' =>
      Gained { s with cleaned := true, cleanedNow := true } sender s' hw' := by
  refine wp_tracedCall ⟨hlock, hfirst⟩ ?_
  -- past the entry only descriptors and mappings are gained
  suffices hbody : ∀ s, Owns s.base { sender with hw := hw }.slot s.held →
      lifecycle.wp (hwCleanup hw) s (Gained s sender) from
    Monitor.wp_mono (hbody _ hown) fun s' hw' h => ⟨trivial, h⟩
  intro s hown
  refine Monitor.wp_ite.mpr ⟨fun _ => Gained.refl hown, fun _ => ?_⟩
  rw [Monitor.wp_bind]
  refine wp_peripherals (emits_stopPrus peripherals_pruss (fun _ => trivial) _ _ _) ?_
  rintro ⟨stopped, error⟩
  have hrest : lifecycle.wp (do
      store 0 (.command .magic)
      memoryBarrier
      disableNotifications
      cleanupOutputs hw error) s (Gained s sender) := by
    refine Monitor.wp_op_bind fun _ _ => ⟨trivial, ?_⟩
    refine Monitor.wp_op_bind fun _ _ => ⟨trivial, ?_⟩
    rw [Monitor.wp_bind]
    refine wp_peripherals (emits_disableNotifications fun _ => trivial) fun _ => ?_
    exact wp_cleanupOutputs hmapped hown
  refine Monitor.wp_ite.mpr ⟨fun _ => ?_, fun _ => hrest⟩
  exact Monitor.wp_op_bind fun _ _ => ⟨trivial, hrest⟩

end Cleanup

/-! ### The verdict -/

/-- A send up to its label `done`: only what it has seen has changed, and
its verdict is that of the ioctl. -/
structure Judged (s s' : Proc) (outcome : SendOutcome) : Prop where
  kept : s' = { s with seen := s'.seen, asked := s'.asked, cancelSeen := s'.cancelSeen }
  ok_iff : outcome.code = .ok ↔
    (∃ request reply, s'.asked = some (request, .ok reply) ∧ Accepted request reply) ∧
      s'.cancelSeen = false
  failed_iff : outcome.submitted = true ∧ outcome.code ≠ .ok ↔ s'.Uncertain

/-- A send that does not reach its ioctl. -/
theorem Judged.unasked {s' : Proc} {outcome : SendOutcome}
    (hkept : s' = { s with seen := s'.seen, asked := s'.asked, cancelSeen := s'.cancelSeen })
    (hasked : s'.asked = none) (hcode : outcome.code ≠ .ok) (hsub : outcome.submitted = false) :
    Judged s s' outcome := by
  refine ⟨hkept, iff_of_false hcode ?_, iff_of_false ?_ ?_⟩
  · rintro ⟨⟨request, reply, h, -⟩, -⟩
    exact nomatch hasked.symm.trans h
  · rintro ⟨h, -⟩
    exact nomatch hsub.symm.trans h
  · rintro (⟨request, errno, h, -⟩ | ⟨request, reply, h, -⟩) <;> exact nomatch hasked.symm.trans h

section Verdict

variable {request : DldQuietSend} {error : String} {cap : Nat}

theorem wp_ioctlFailed {s' : Proc} {errno : Int}
    (hkept : s' = { s with seen := s'.seen, asked := s'.asked, cancelSeen := s'.cancelSeen })
    (hasked : s'.asked = some (request, .error errno)) :
    lifecycle.wp (ioctlFailed request errno error cap) s' (Judged s) := by
  have hok (outcome : SendOutcome) (hcode : outcome.code ≠ .ok) : outcome.code = .ok ↔
      (∃ request reply, s'.asked = some (request, .ok reply) ∧ Accepted request reply) ∧
        s'.cancelSeen = false := by
    refine iff_of_false hcode ?_
    rintro ⟨⟨request, reply, h, -⟩, -⟩
    rw [hasked] at h
    cases h
  have huncertain : s'.Uncertain ↔ errno ≠ eNotty ∧ errno ≠ ePerm := by
    constructor
    · rintro (⟨request', errno', h, herrno⟩ | ⟨request', reply, h, -⟩)
      · rw [hasked] at h
        cases h
        exact herrno
      · rw [hasked] at h
        cases h
    · exact fun h => .inl ⟨request, errno, hasked, h⟩
  rw [ioctlFailed, Monitor.wp_bind]
  refine wp_strerror fun reason => Monitor.wp_ite.mpr ⟨fun hclass => ?_, fun hclass => ?_⟩
  · refine ⟨hkept, hok _ nofun, ?_⟩
    rw [huncertain]
    exact iff_of_false (fun h => nomatch h.1) fun h => hclass.elim h.1 h.2
  · refine ⟨hkept, hok _ nofun, ?_⟩
    rw [huncertain]
    exact iff_of_true ⟨rfl, nofun⟩ (not_or.mp hclass)

theorem replyCompletes_iff (seq : Word) (reply : DldQuietSend) :
    replyCompletes seq reply = true ↔
      reply.status = statusDone ∧ reply.errorDetail = 0 ∧ reply.completionSeq = seq := by
  simp [replyCompletes, dldCompletionMatches]

theorem wp_ioctlAnswered {s' : Proc} {reply : DldQuietSend} {seq : Word}
    (hkept : s' = { s with seen := s'.seen, asked := s'.asked, cancelSeen := s'.cancelSeen })
    (hasked : s'.asked = some (request, .ok reply)) (hseq : seq = request.previousSeq + 1)
    (hcancel : s'.cancelSeen = false) :
    lifecycle.wp (ioctlAnswered seq reply error cap) s' (Judged s) := by
  have hanswer {s₁ : Proc} (h : s₁.asked = s'.asked) {request' reply' : DldQuietSend}
      (h' : s₁.asked = some (request', .ok reply')) : request' = request ∧ reply' = reply := by
    rw [h, hasked] at h'
    cases h'
    exact ⟨rfl, rfl⟩
  -- neither a success nor a rejection: whatever the flag says, the send failed
  have hcritical (s₁ : Proc)
      (hkept : s₁ = { s with seen := s₁.seen, asked := s₁.asked, cancelSeen := s₁.cancelSeen })
      (h : s₁.asked = s'.asked) (hrejected : ¬ (reply.result ≠ 0 ∧ reply.submitted = 0))
      (haccepted : ¬ (Accepted request reply ∧ s₁.cancelSeen = false)) :
      lifecycle.wp (do
        let flag ← cancelled
        pure ⟨.critical, true, reply,
          snprintf error cap (criticalMessage (decide (flag ≠ 0)) seq reply)⟩) s₁ (Judged s) := by
    refine Monitor.wp_op_bind fun flag _ => ⟨trivial, ?_⟩
    have haccepted' : ¬ (Accepted request reply ∧
        (s₁.cancelSeen || decide (flag ≠ 0)) = false) := by
      rintro ⟨hacc, hflag⟩
      exact haccepted ⟨hacc, (Bool.or_eq_false_iff.mp hflag).1⟩
    refine ⟨?_, iff_of_false nofun ?_, iff_of_true ⟨rfl, nofun⟩ ?_⟩
    · show { s₁ with cancelSeen := _ } = _
      rw [hkept]
      rfl
    · rintro ⟨⟨request', reply', h', hacc⟩, hflag⟩
      obtain ⟨rfl, rfl⟩ := hanswer h h'
      exact haccepted' ⟨hacc, hflag⟩
    · exact .inr ⟨request, reply, h.trans hasked, hrejected, haccepted'⟩
  refine Monitor.wp_ite.mpr ⟨fun hrejected => ?_, fun hrejected => ?_⟩
  · rw [Monitor.wp_bind]
    refine wp_strerror fun reason => ?_
    have hcode : (if reply.result = -eBusy then DldExitCode.busy
        else if reply.result = -eProto then .notInitialized else .prerequisite) ≠ .ok := by
      split_ifs <;> exact nofun
    refine ⟨hkept, iff_of_false hcode ?_, iff_of_false (fun h => nomatch h.1) ?_⟩
    · rintro ⟨⟨request', reply', h', hacc⟩, -⟩
      obtain ⟨rfl, rfl⟩ := hanswer rfl h'
      exact hrejected.1 hacc.1
    · rintro (⟨request', errno, h', -⟩ | ⟨request', reply', h', hnot, -⟩)
      · rw [hasked] at h'
        cases h'
      · obtain ⟨rfl, rfl⟩ := hanswer rfl h'
        exact hnot hrejected
  refine Monitor.wp_ite.mpr ⟨fun hresult => ?_, fun hresult => ?_⟩
  · exact hcritical s' hkept rfl hrejected fun h => hresult h.1.1
  -- the result is zero: only now the flag is read
  refine Monitor.wp_op_bind fun flag _ => ⟨trivial, ?_⟩
  have hkept' : lifecycle.next s' ⟨.cancelled, flag⟩ = { s with
      seen := s'.seen, asked := s'.asked, cancelSeen := decide (flag ≠ 0) } := by
    show { s' with cancelSeen := s'.cancelSeen || decide (flag ≠ 0) } = _
    rw [hcancel, Bool.false_or, hkept]
  rw [hkept']
  refine Monitor.wp_ite.mpr ⟨fun hbad => ?_, fun hgood => ?_⟩
  · refine hcritical _ rfl rfl hrejected ?_
    rintro ⟨⟨-, hsub, hreq, hstatus, herr, hcomp⟩, hflag⟩
    rcases hbad with h | h | h | h
    · exact absurd hflag (by simp [h])
    · exact hsub h
    · exact h (hreq.trans hseq.symm)
    · rw [← Bool.not_eq_true, replyCompletes_iff] at h
      exact h ⟨hstatus, herr, hcomp.trans hseq.symm⟩
  · simp only [not_or, not_not] at hgood hresult
    obtain ⟨hflag, hsub, hreq, hcomp⟩ := hgood
    rw [Bool.not_eq_false, replyCompletes_iff] at hcomp
    have hacc : Accepted request reply :=
      ⟨hresult, hsub, hreq.trans hseq, hcomp.1, hcomp.2.1, hcomp.2.2.trans hseq⟩
    have hseen : decide (flag ≠ 0) = false := by simp [hflag]
    refine ⟨rfl, iff_of_true rfl ⟨⟨request, reply, hasked, hacc⟩, hseen⟩, ?_⟩
    refine iff_of_false (fun h => h.2 rfl) ?_
    rintro (⟨request', errno, h', -⟩ | ⟨request', reply', h', -, hnot⟩)
    · rw [show s'.asked = _ from hasked] at h'
      cases h'
    · obtain ⟨rfl, rfl⟩ := hanswer rfl h'
      exact hnot ⟨hacc, hseen⟩

/-- What is sent carries the snapshot that was read under the same lock. -/
theorem wp_sendLocked {quietFd : Nat} {rgb : Word} (hlock : s.locked ≠ none)
    (hclean : s.cleaned = false) (hasked : s.asked = none) (hcancel : s.cancelSeen = false) :
    lifecycle.wp (sendLocked quietFd rgb error cap) s fun s' r => Judged s s' r.2 := by
  rw [sendLocked, Monitor.wp_bind]
  refine wp_dldSnapshot fun state => ?_
  rcases hcheck : dldCheckMailbox state default error cap with ⟨code, config, text⟩
  have hcode : (dldCheckMailbox state default error cap).1 = code := by
    rw [hcheck]
  refine Monitor.wp_ite.mpr ⟨fun hbad => ?_, fun hgood => ?_⟩
  · exact Judged.unasked rfl hasked hbad rfl
  have hconfig : config = configOf state := by
    have h := dldCheckMailbox_configOf state default error cap (hcode.trans (not_not.mp hgood))
    rwa [hcheck] at h
  refine Monitor.wp_op_bind fun flag _ => ⟨trivial, ?_⟩
  refine Monitor.wp_ite.mpr ⟨fun _ => ?_, fun hflag => ?_⟩
  · exact Judged.unasked rfl hasked nofun rfl
  have hseen : (s.cancelSeen || decide (flag ≠ 0)) = false := by
    rw [hcancel]
    simpa using hflag
  refine Monitor.wp_op_bind fun answer _ => ⟨⟨hlock, hclean, ?_⟩, ?_⟩
  · subst hconfig
    exact ⟨rfl, fun _ => rfl, rfl⟩
  rcases answer with errno | reply
  · rw [Monitor.wp_bind]
    exact Monitor.wp_mono (wp_ioctlFailed (s := s) rfl rfl) fun s' outcome h => h
  · rw [Monitor.wp_bind]
    exact Monitor.wp_mono (wp_ioctlAnswered (s := s) rfl rfl rfl hseen) fun s' outcome h => h

end Verdict

/-! ### The three calls -/

/-- `dld_sender_send` would go on to its ioctl. -/
def DldSender.Usable (sender : DldSender) : Prop :=
  sender.faulted = none ∧ sender.mapped = true ∧ sender.lockFd ≠ none ∧ sender.quietFd ≠ none

/-- A context between two calls. -/
structure Resting (sender : DldSender) (s : Proc) : Prop where
  free : s.locked = none
  owns : Owns s.base sender.slot s.held
  spent : s.cleaned = true → ¬ sender.Usable
  fault : sender.faulted ≠ some .ok

/-- What a process must have seen where `dld_sender_send` returns `code`. -/
def Proc.Verdict (s : Proc) (code : DldExitCode) : Prop :=
  (code = .ok ↔ s.Succeeded) ∧ (s.cleanedNow = true ↔ s.Uncertain)

/-- A send at its label `done`, the cleanup behind it if there is one. -/
structure Ending (sender : DldSender) (outcome : SendOutcome) (s : Proc) : Prop where
  owns : Owns s.base sender.slot s.held
  locked : s.locked = sender.lockFd ∧ s.locked ≠ none
  spent : s.cleaned = true → sender.faulted ≠ none
  fault : sender.faulted ≠ some .ok
  unlocked : s.unlocked = false
  ok_iff : outcome.code = .ok ↔
    (∃ request reply, s.asked = some (request, .ok reply) ∧ Accepted request reply) ∧
      s.cancelSeen = false
  cleaned_iff : s.cleanedNow = true ↔ s.Uncertain

theorem wp_unlock {fuel : Nat} {sender : DldSender} {outcome : SendOutcome} {cap : Nat}
    (h : Ending sender outcome s) :
    lifecycle.wp (do
      if outcome.code = .ok then unlockSender fuel sender outcome.error cap
      else do
        let (unlocked, _, _) ← unlockSender fuel sender "" 160
        pure ({ unlocked with faulted := if sender.faulted ≠ none then sender.faulted
          else unlocked.faulted }, outcome.code, outcome.error)) s fun s' r =>
      s'.Verdict r.2.1 ∧ Resting r.1 s' := by
  obtain ⟨fd, hfd⟩ := Option.ne_none_iff_exists'.mp (h.locked.1 ▸ h.locked.2)
  have hlock : s.locked = some fd := h.locked.1.trans hfd
  refine Monitor.wp_ite.mpr ⟨fun hcode => ?_, fun hcode => ?_⟩
  · refine wp_unlockSender hfd h.owns hlock (fun text => ⟨⟨?_, h.cleaned_iff⟩, rfl, h.owns, ?_, h.fault⟩)
      fun held text hown => ⟨⟨?_, h.cleaned_iff⟩, rfl, hown, fun _ husable => (nomatch husable.1), nofun⟩
    · obtain ⟨hreply, hcancel⟩ := h.ok_iff.mp hcode
      exact iff_of_true rfl ⟨hreply, hcancel, rfl⟩
    · exact fun hcleaned husable => h.spent hcleaned husable.1
    · refine iff_of_false nofun fun hsuccess => ?_
      exact nomatch h.unlocked.symm.trans hsuccess.2.2
  · rw [Monitor.wp_bind]
    refine wp_unlockSender hfd h.owns hlock (fun text => ⟨⟨?_, h.cleaned_iff⟩, rfl, h.owns, ?_, ?_⟩)
      fun held text hown => ⟨⟨?_, h.cleaned_iff⟩, rfl, hown, fun _ husable => husable.2.2.1 rfl, ?_⟩
    · refine iff_of_false hcode fun hsuccess => hcode (h.ok_iff.mpr ⟨hsuccess.1, hsuccess.2.1⟩)
    · intro hcleaned husable
      have hfault := husable.1
      rw [if_pos (h.spent hcleaned)] at hfault
      exact h.spent hcleaned hfault
    · show (if sender.faulted ≠ none then sender.faulted else sender.faulted) ≠ some .ok
      rw [ite_self]
      exact h.fault
    · refine iff_of_false hcode fun hsuccess => ?_
      exact nomatch h.unlocked.symm.trans hsuccess.2.2
    · show (if sender.faulted ≠ none then sender.faulted else some .prerequisite) ≠ some .ok
      split
      · exact h.fault
      · nofun

theorem wp_senderSendDone {s' : Proc} {fuel : Nat} {sender : DldSender} {outcome : SendOutcome}
    {cap fd : Nat} (hmapped : sender.mapped = true) (hfd : sender.lockFd = some fd)
    (hown : Owns s.base sender.slot s.held) (hlock : s.locked = some fd)
    (hclean : s.cleaned = false) (hnow : s.cleanedNow = false) (hunlocked : s.unlocked = false)
    (hfault : sender.faulted ≠ some .ok) (hjudged : Judged s s' outcome) :
    lifecycle.wp (senderSendDone fuel sender outcome cap) s' fun s'' r =>
      s''.Verdict r.2.1 ∧ Resting r.1 s'' := by
  obtain ⟨hkept, hok, hfailed⟩ := hjudged
  have hlock' : s'.locked = some fd := by rw [hkept, hlock]
  have hown' : Owns s'.base sender.slot s'.held := by rw [hkept]; exact hown
  have hclean' : s'.cleaned = false := by rw [hkept, hclean]
  have hnow' : s'.cleanedNow = false := by rw [hkept, hnow]
  have hunlocked' : s'.unlocked = false := by rw [hkept, hunlocked]
  rw [senderSendDone]
  refine Monitor.wp_ite.mpr ⟨fun hbad => ?_, fun hbad => ?_⟩
  · rw [Monitor.wp_bind]
    refine Monitor.wp_mono (wp_dldHwCleanup hmapped hown' (by rw [hlock']; nofun) hclean') ?_
    rintro _ hw ⟨held, hown'', rfl⟩
    exact wp_unlock ⟨hown'', ⟨hlock'.trans hfd.symm, by rw [hlock']; nofun⟩, nofun, nofun, hunlocked', hok,
      iff_of_true rfl (hfailed.mp hbad)⟩
  · refine wp_unlock ⟨hown', ⟨hlock'.trans hfd.symm, by rw [hlock']; nofun⟩, ?_, hfault, hunlocked',
      hok, ?_⟩
    · exact fun hcleaned => nomatch hclean'.symm.trans hcleaned
    · rw [hnow']
      exact iff_of_false nofun fun huncertain => hbad (hfailed.mpr huncertain)

theorem Resting.closed {held : Resource → Bool} (hheld : held = s.base) :
    Resting {} (s.release held none) := by
  refine ⟨rfl, ⟨fun r => ?_, fun i r h => ?_, fun i j r h => ?_⟩, fun _ husable => (nomatch husable.2.1), nofun⟩
  · show held r = true ↔ s.base r = true ∨ _
    rw [hheld]
    refine ⟨.inl, fun h => h.resolve_right ?_⟩
    rintro ⟨i, h⟩
    cases i <;> exact nomatch h
  all_goals cases i <;> exact nomatch h

theorem wp_dldSenderClose {sender : DldSender} (h : Resting sender s) :
    lifecycle.wp (dldSenderClose sender) s fun s' sender' => Resting sender' s' := by
  refine wp_tracedCall h.free ?_
  refine wp_senderClose h.owns (.inl h.free) ?_
  exact ⟨⟨rfl, rfl⟩, Resting.closed rfl⟩

/-- From the lock on, `dld_sender_open` ends with an open context or with
nothing at all. -/
theorem wp_openLocked {fuel fd : Nat} {error : String} {cap : Nat}
    (hown : Owns s.base ({ lockFd := some fd } : DldSender).slot s.held)
    (hlock : s.locked = some fd) (hclean : s.cleaned = false) :
    lifecycle.wp (openLocked fuel fd error cap) s fun s' r =>
      lifecycle.safe s' ⟨.leave .senderOpen r.2.1, ()⟩ ∧ Resting r.1 s' := by
  have hfailed (sender : DldSender) (code : DldExitCode) (text : String) (s : Proc)
      (hown : Owns s.base sender.slot s.held) (hlock : LockWithin s.locked sender) :
      lifecycle.wp (openFailed sender code text) s fun s' r =>
        lifecycle.safe s' ⟨.leave .senderOpen r.2.1, ()⟩ ∧ Resting r.1 s' := by
    rw [openFailed, Monitor.wp_bind]
    refine wp_senderClose hown hlock ?_
    exact ⟨⟨rfl, fun _ => rfl⟩, Resting.closed rfl⟩
  refine Monitor.wp_op_bind fun euid _ => ⟨trivial, ?_⟩
  refine Monitor.wp_ite.mpr ⟨fun _ => hfailed _ _ _ s hown (.inr hlock), fun _ => ?_⟩
  rw [Monitor.wp_bind]
  have hmapped : ({ lockFd := some fd } : DldSender).mapped = false := rfl
  refine wp_dldHwOpen hmapped hown (.inr hlock) ?_ ?_
  · intro hw text held locked hown' hlock'
    refine hfailed _ _ _ _ ?_ hlock'
    have hslot : ({ lockFd := some fd, hw := hw } : DldSender).slot =
        ({ lockFd := some fd } : DldSender).slot := by
      funext i
      cases i <;> rfl
    show Owns s.base ({ lockFd := some fd, hw := hw } : DldSender).slot held
    rwa [hslot]
  intro hw text held hown'
  refine Monitor.wp_ite.mpr ⟨nofun, fun _ => ?_⟩
  rw [Monitor.wp_bind]
  refine wp_dldSnapshot fun state => ?_
  rcases dldCheckMailbox state default text cap with ⟨code, config, text⟩
  refine Monitor.wp_ite.mpr ⟨fun _ => hfailed _ _ _ _ hown' (.inr hlock), fun _ => ?_⟩
  refine Monitor.wp_op_bind fun quiet hfresh => ⟨trivial, ?_⟩
  rcases quiet with errno | quietFd
  · rw [Monitor.wp_bind]
    exact wp_strerror fun reason => hfailed _ _ _ _ hown' (.inr hlock)
  have hslot : ({ hw := hw, lockFd := some fd, quietFd := some quietFd, mapped := true } :
      DldSender).slot = Function.update ({ hw := hw, lockFd := some fd, mapped := true } :
      DldSender).slot .quiet (some (.fd quietFd)) := by
    funext i
    cases i <;> simp [DldSender.slot]
  have hacquired := hown'.acquire hfresh rfl hslot
  rw [Monitor.wp_bind]
  refine wp_unlockSender rfl hacquired hlock (fun text => ?_) fun held text hown'' => ?_
  · refine Monitor.wp_ite.mpr ⟨fun _ => ⟨⟨rfl, fun h => absurd rfl h⟩, rfl, hacquired, ?_,
      by nofun⟩, ?_⟩
    · exact fun hcleaned => nomatch hclean.symm.trans hcleaned
    · exact fun h => absurd rfl h
  · exact Monitor.wp_ite.mpr ⟨nofun, fun _ => hfailed _ _ _ _ hown'' (.inl rfl)⟩

theorem wp_dldSenderOpen {fuel : Nat} {error : String} {cap : Nat} (hfree : s.locked = none) :
    lifecycle.wp (dldSenderOpen fuel error cap) s fun s' r => Resting r.1 s' := by
  refine wp_tracedCall hfree ?_
  have hempty : Owns s.held (fun _ => none) s.held :=
    ⟨fun r => by simp, fun i r h => (nomatch h), fun i j r h => (nomatch h)⟩
  rw [Monitor.wp_bind]
  refine wp_dldLock (s := lifecycle.next s ⟨.enter .senderOpen, ()⟩) hempty hfree
    ?_ ?_
  · exact fun code text hcode => ⟨⟨rfl, fun _ => rfl⟩, Resting.closed rfl⟩
  · exact fun fd held text hown => wp_openLocked hown rfl rfl

theorem wp_dldSenderSend {fuel : Nat} {sender : DldSender} {rgb : Word} {hasResult : Bool}
    {error : String} {cap : Nat} (h : Resting sender s) :
    lifecycle.wp (dldSenderSend fuel sender rgb hasResult error cap) s fun s' r =>
      Resting r.1 s' := by
  refine wp_tracedCall h.free ?_
  -- without an ioctl there is neither a success nor a cleanup
  have hrefused (code : DldExitCode) (result : DldSendResult) (text : String) (hcode : code ≠ .ok) :
      lifecycle.wp (pure (sender, code, result, text)) (lifecycle.next s ⟨.enter .senderSend, ()⟩)
        fun s' (r : DldSender × DldExitCode × DldSendResult × String) =>
          lifecycle.safe s' ⟨.leave .senderSend r.2.1, ()⟩ ∧ Resting r.1 s' := by
    refine ⟨⟨h.free, iff_of_false hcode ?_, iff_of_false nofun ?_⟩, h.free, h.owns, h.spent, h.fault⟩
    · rintro ⟨⟨request, reply, hasked, -⟩, -⟩
      exact nomatch hasked
    · rintro (⟨request, errno, hasked, -⟩ | ⟨request, reply, hasked, -⟩) <;> exact nomatch hasked
  refine Monitor.wp_ite.mpr ⟨fun _ => hrefused _ _ _ nofun, fun _ => ?_⟩
  rcases hfault : sender.faulted with - | fault
  · rcases hmapped : sender.mapped with - | -
    · exact hrefused _ _ _ nofun
    rcases hfd : sender.lockFd with - | lockFd
    · exact hrefused _ _ _ nofun
    rcases hquiet : sender.quietFd with - | quietFd
    · exact hrefused _ _ _ nofun
    -- a usable context has not been cleaned up
    have hclean : s.cleaned = false := by
      by_contra hcleaned
      rw [Bool.not_eq_false] at hcleaned
      refine h.spent hcleaned ⟨hfault, hmapped, ?_, ?_⟩
      · rw [hfd]
        nofun
      · rw [hquiet]
        nofun
    refine Monitor.wp_op_bind fun locked _ => ⟨by cases locked <;> trivial, ?_⟩
    rcases locked with - | errno
    · rw [Monitor.wp_bind]
      refine Monitor.wp_mono (wp_sendLocked (s := lifecycle.next _ ⟨.flockExclusive lockFd, none⟩)
        (by nofun) hclean rfl rfl) ?_
      rintro s' ⟨config, outcome⟩ hjudged
      rw [Monitor.wp_bind]
      refine Monitor.wp_mono (wp_senderSendDone (s := lifecycle.next (lifecycle.next s
        ⟨.enter .senderSend, ()⟩) ⟨.flockExclusive lockFd, none⟩) hmapped hfd h.owns rfl hclean
        rfl rfl h.fault hjudged) ?_
      rintro s'' ⟨sender', code, text⟩ ⟨hverdict, hresting⟩
      exact ⟨⟨hresting.free, hverdict⟩, hresting⟩
    · rw [Monitor.wp_bind]
      exact wp_lockFailure fun code text hcode => hrefused _ _ _ hcode
  · exact hrefused _ _ _ fun hok => h.fault (hfault.trans (congrArg some hok))

/-! ### Every sequence of calls -/

/-- A call on the context, with the arguments its caller chooses. -/
inductive SenderCall
  | opening (error : String) (cap : Nat)
  | sending (rgb : Word) (hasResult : Bool) (error : String) (cap : Nat)
  | closing

/-- The calls of the list, one after the other, on one context. -/
def senderCalls (fuel : Nat) : List SenderCall → DldSender → UProg DldSender
  | [], sender => pure sender
  | .opening error cap :: rest, _ => do
    let (sender, _, _) ← dldSenderOpen fuel error cap
    senderCalls fuel rest sender
  | .sending rgb hasResult error cap :: rest, sender => do
    let (sender, _, _, _) ← dldSenderSend fuel sender rgb hasResult error cap
    senderCalls fuel rest sender
  | .closing :: rest, sender => do
    let sender ← dldSenderClose sender
    senderCalls fuel rest sender

theorem wp_senderCalls {fuel : Nat} {calls : List SenderCall} {sender : DldSender}
    (h : Resting sender s) :
    lifecycle.wp (senderCalls fuel calls sender) s fun s' sender' => Resting sender' s' := by
  induction calls generalizing s sender with
  | nil => exact h
  | cons call rest ih =>
    cases call with
    | opening error cap =>
      rw [senderCalls, Monitor.wp_bind]
      exact Monitor.wp_mono (wp_dldSenderOpen h.free) fun s' r hresting => ih hresting
    | sending rgb hasResult error cap =>
      rw [senderCalls, Monitor.wp_bind]
      exact Monitor.wp_mono (wp_dldSenderSend h) fun s' r hresting => ih hresting
    | closing =>
      rw [senderCalls, Monitor.wp_bind]
      exact Monitor.wp_mono (wp_dldSenderClose h) fun s' sender' hresting => ih hresting

/-- **The life of a sender context**: whatever is called, and whatever the
system answers, every event is one that `Proc.May` allows. -/
theorem senderCalls_lifecycle {fuel : Nat} {calls : List SenderCall} {held : Resource → Bool}
    {t : List UEvent} {rest : UProg DldSender} (hrun : (senderCalls fuel calls {}).Steps t rest)
    (hnew : lifecycle.EnvAlong (Proc.start held) t) :
    lifecycle.SafeAlong (Proc.start held) t :=
  (Monitor.wp_steps (wp_senderCalls (Resting.closed (s := Proc.start held) rfl)) hrun hnew).1

/-- A system that grants everything: the firmware is ready, descriptors
and addresses count up from `next`, and every frame succeeds. -/
def healthy (next : Nat) : (o : UOp) → Option (o.Res × Nat)
  | .load r => some (match r with
      | .command .magic => commandMagic
      | .command .abiVersion => abiVersion
      | .command .profileId => profileWs2812b
      | .command .status => statusReady
      | _ => 0, next)
  | .clockGettime => some (.ok (1, 0), next)
  | .cancelled => some (0, next)
  | .sigaction | .nanosleep | .flockExclusive _ | .flockUnlock _ | .opendir => some (none, next)
  | .openFile _ | .mmap .. => some (.ok next, next + 1)
  | .fstatRegular _ => some (true, next)
  | .geteuid => some (0, next)
  | .readdir => some (some "uio0", next)
  | .readNumber _ field => some (if field = "addr" then some prussBase
      else if field = "size" then some 0x80000 else some 0, next)
  | .readFile => some (.cannotOpen, next)
  | .ioctl _ request => some (.ok { request with
      submitted := 1
      requestSeq := request.previousSeq + 1
      status := statusDone
      completionSeq := request.previousSeq + 1 }, next)
  | .strerror => some ("", next)
  | .running => none
  | .store .. | .barrier | .close _ | .munmap _ | .closedir | .printError _ | .print _ | .enter _
  | .leave .. => some ((), next)

/-- A context is opened, sends red and is closed again. -/
def redSession : UProg DldSender :=
  senderCalls 2 [.opening "" 160, .sending 0xff0000 true "" 160, .closing] {}

theorem senderCalls_lifecycle_red : ∃ t sender, redSession.Runs t sender ∧ 50 < t.length ∧
    lifecycle.SafeAlong (Proc.start fun _ => false) t := by
  have hrun : ∃ r, redSession.tryExec healthy 3 = some r :=
    Option.isSome_iff_exists.mp (by decide +kernel)
  have hlong : ∀ r ∈ redSession.tryExec healthy 3, 50 < r.1.length := by decide +kernel
  have hnew : ∀ r ∈ redSession.tryExec healthy 3,
      lifecycle.EnvAlong (Proc.start fun _ => false) r.1 := by decide +kernel
  obtain ⟨⟨t, sender⟩, hrun⟩ := hrun
  have hruns : redSession.Runs t sender := Prog.tryExec_runs hrun
  exact ⟨t, sender, hruns, hlong _ hrun, senderCalls_lifecycle hruns.steps (hnew _ hrun)⟩

end Dld
