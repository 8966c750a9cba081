/-
DldDriver/Userspace/Footprint.lean

What the parts of `dld_hw.c` touch.  A `Reach` says which words behind the
mappings a program may read and write, and whether it may open, lock and
close descriptors and mappings.  The ioctl, the cancellation flag and the
configuration file are outside every reach, so that a monitor of these is
left alone by what stays inside one.
-/
import DldDriver.Userspace.Sender

namespace Dld

open Interaction

/-- The words a program may read and write, and whether it may handle
descriptors and mappings. -/
structure Reach where
  reads : HwReg → Prop
  writes : HwReg → Prop
  handles : Prop := False

def Reach.allows (a : Reach) : UEvent → Prop
  | ⟨.load r, _⟩ => a.reads r
  | ⟨.store _ r, _⟩ => a.writes r
  | ⟨.openFile _, _⟩ | ⟨.close _, _⟩ | ⟨.flockExclusive _, _⟩ | ⟨.flockUnlock _, _⟩
  | ⟨.mmap .., _⟩ | ⟨.munmap _, _⟩ => a.handles
  | ⟨.cancelled, _⟩ | ⟨.sigaction, _⟩ | ⟨.readFile, _⟩ | ⟨.print _, _⟩ | ⟨.ioctl .., _⟩
  | ⟨.enter _, _⟩ | ⟨.leave .., _⟩ => False
  | _ => True

section Functions

variable {a : Reach}

/-! ### Without registers -/

/-- `fail_errno` formats a text. -/
theorem emits_failErrno (error : String) (cap : Nat) (what : String) :
    (failErrno error cap what).Emits a.allows := by
  unfold failErrno strerror uop
  refine Prog.emits_ite (fun _ => Prog.emits_pure _) fun _ => ?_
  exact Prog.emits_op_bind.mpr fun _ => ⟨trivial, Prog.emits_pure _⟩

/-- The clock is no register. -/
theorem emits_monotonicNs : monotonicNs.Emits a.allows := by
  refine Prog.emits_op_bind.mpr fun now => ⟨trivial, ?_⟩
  cases now <;> exact Prog.emits_pure _

/-- The search of `/sys/class/uio` opens nothing behind a mapping. -/
theorem emits_findPruss (fuel : Nat) : (findPruss fuel).Emits a.allows := by
  induction fuel with
  | zero => exact Prog.emits_op_bind.mpr fun never => never.elim
  | succ fuel ih =>
    refine Prog.emits_op_bind.mpr fun entry => ⟨trivial, ?_⟩
    rcases entry with - | name
    · exact Prog.emits_pure _
    · refine Prog.emits_ite (fun _ => ih) fun _ => ?_
      refine Prog.emits_op_bind.mpr fun address => ⟨trivial, ?_⟩
      refine Prog.emits_ite (fun _ => ih) fun _ => ?_
      refine Prog.emits_op_bind.mpr fun size => ⟨trivial, ?_⟩
      rcases size with - | size
      · exact ih
      · refine Prog.emits_op_bind.mpr fun offset => ⟨trivial, ?_⟩
        exact Prog.emits_ite (fun _ => ih) fun _ => Prog.emits_pure _

/-! ### The cores -/

/-- The cores are disabled through the PRUSS window. -/
theorem emits_disablePrus (hw : ∀ n, a.writes (.pruss n)) (mask : Word) (prus : List (Fin 2)) :
    (disablePrus mask prus).Emits a.allows := by
  induction prus with
  | nil => exact Prog.emits_pure _
  | cons pru rest ih =>
    refine Prog.emits_ite (fun _ => ?_) fun _ => ih
    exact Prog.emits_op_bind.mpr fun _ => ⟨hw _, ih⟩

/-- A stopped core is reset, through the same window. -/
theorem emits_pollPrus (hr : ∀ n, a.reads (.pruss n)) (hw : ∀ n, a.writes (.pruss n))
    (pending : Word) (prus : List (Fin 2)) : (pollPrus pending prus).Emits a.allows := by
  induction prus generalizing pending with
  | nil => exact Prog.emits_pure _
  | cons pru rest ih =>
    refine Prog.emits_ite (fun _ => ?_) fun _ => ih pending
    refine Prog.emits_op_bind.mpr fun control => ⟨hr _, ?_⟩
    refine Prog.emits_ite (fun _ => ?_) fun _ => ih pending
    exact Prog.emits_op_bind.mpr fun _ => ⟨hw _, ih _⟩

/-- One round polls the pending cores and looks at the deadline. -/
theorem emits_stopRound (hr : ∀ n, a.reads (.pruss n)) (hw : ∀ n, a.writes (.pruss n))
    (begin : BitVec 64) (error : String) (cap : Nat) (pending : Word) :
    (stopRound begin error cap pending).Emits a.allows := by
  refine Prog.emits_ite (fun _ => Prog.emits_pure _) fun _ => ?_
  refine Prog.emits_bind (emits_pollPrus hr hw _ _) fun pending => ?_
  refine Prog.emits_op_bind.mpr fun _ => ⟨trivial, ?_⟩
  refine Prog.emits_ite (fun _ => Prog.emits_pure _) fun _ => ?_
  refine Prog.emits_bind emits_monotonicNs fun now => ?_
  refine Prog.emits_ite (fun _ => ?_) fun _ =>
    Prog.emits_ite (fun _ => Prog.emits_pure _) fun _ => Prog.emits_pure _
  exact Prog.emits_bind (emits_failErrno _ _ _) fun _ => Prog.emits_pure _

/-- The rounds touch what one round touches. -/
theorem emits_stopWait (hr : ∀ n, a.reads (.pruss n)) (hw : ∀ n, a.writes (.pruss n))
    (begin : BitVec 64) (error : String) (cap n : Nat) (pending : Word) :
    (stopWait begin error cap n pending).Emits a.allows := by
  induction n generalizing pending with
  | zero =>
    refine Prog.emits_bind (emits_stopRound hr hw _ _ _ _) ?_
    rintro ⟨pending, - | result⟩ <;> exact Prog.emits_pure _
  | succ n ih =>
    refine Prog.emits_bind (emits_stopRound hr hw _ _ _ _) ?_
    rintro ⟨pending, - | result⟩
    · refine Prog.emits_op_bind.mpr fun slept => ⟨trivial, ?_⟩
      refine Prog.emits_ite (fun _ => ?_) fun _ => ih pending
      exact Prog.emits_bind (emits_failErrno _ _ _) fun _ => Prog.emits_pure _
    · exact Prog.emits_pure _

/-- `stop_prus` stays inside the PRUSS window. -/
theorem emits_stopPrus (hr : ∀ n, a.reads (.pruss n)) (hw : ∀ n, a.writes (.pruss n))
    (mask : Word) (error : String) (cap : Nat) : (stopPrus mask error cap).Emits a.allows := by
  refine Prog.emits_bind emits_monotonicNs fun begin => ?_
  refine Prog.emits_bind (emits_disablePrus hw _ _) fun _ => ?_
  exact Prog.emits_op_bind.mpr fun _ => ⟨trivial, emits_stopWait hr hw _ _ _ _ _⟩

/-- The mailbox events are masked inside the PRUSS window. -/
theorem emits_disableNotifications (hw : ∀ n, a.writes (.pruss n)) :
    disableNotifications.Emits a.allows := by
  unfold disableNotifications store memoryBarrier uop
  simp only [Prog.emits_op_bind, Prog.emits_op]
  simp [Reach.allows, hw]

/-! ### The LED outputs -/

/-- One round reads the clock word of the bank. -/
theorem emits_clockRound (hr : ∀ n, a.reads (.clock n)) (bank : Fin 3) (begin : BitVec 64) :
    (clockRound bank begin).Emits a.allows := by
  refine Prog.emits_op_bind.mpr fun clock => ⟨hr _, ?_⟩
  refine Prog.emits_ite (fun _ => Prog.emits_pure _) fun _ => ?_
  refine Prog.emits_bind emits_monotonicNs fun now => ?_
  exact Prog.emits_ite (fun _ => Prog.emits_pure _) fun _ => Prog.emits_pure _

/-- The wait reads what one round reads. -/
theorem emits_clockWait (hr : ∀ n, a.reads (.clock n)) (bank : Fin 3) (begin : BitVec 64)
    (n : Nat) : (clockWait bank begin n).Emits a.allows := by
  induction n with
  | zero =>
    refine Prog.emits_bind (emits_clockRound hr _ _) fun result => ?_
    cases result <;> exact Prog.emits_pure _
  | succ n ih =>
    refine Prog.emits_bind (emits_clockRound hr _ _) fun result => ?_
    rcases result with - | functional
    · exact Prog.emits_op_bind.mpr fun _ => ⟨trivial, ih⟩
    · exact Prog.emits_pure _

/-- The enable writes the clock word and waits on it. -/
theorem emits_enableClock (hr : ∀ n, a.reads (.clock n)) (hw : ∀ n, a.writes (.clock n))
    (bank : Fin 3) (error : String) (cap : Nat) : (enableClock bank error cap).Emits a.allows := by
  refine Prog.emits_bind emits_monotonicNs fun begin => Prog.emits_ite (fun _ => ?_) fun _ => ?_
  · exact Prog.emits_bind (emits_failErrno _ _ _) fun _ => Prog.emits_pure _
  · refine Prog.emits_op_bind.mpr fun clock => ⟨hr _, ?_⟩
    refine Prog.emits_op_bind.mpr fun _ => ⟨hw _, ?_⟩
    refine Prog.emits_op_bind.mpr fun _ => ⟨trivial, ?_⟩
    refine Prog.emits_bind (emits_clockWait hr _ _ _) fun functional => ?_
    exact Prog.emits_ite (fun _ => Prog.emits_pure _) fun _ => Prog.emits_pure _

/-- A clear writes its bank and reads it back. -/
theorem emits_clearOutputs (hr : ∀ b n, a.reads (.gpio b n)) (hw : ∀ b n, a.writes (.gpio b n))
    (bank : Fin 3) (n : Nat) : (clearOutputs bank n).Emits a.allows := by
  induction n with
  | zero => exact Prog.emits_pure _
  | succ n ih =>
    refine Prog.emits_op_bind.mpr fun _ => ⟨hw _ _, ?_⟩
    refine Prog.emits_op_bind.mpr fun _ => ⟨trivial, ?_⟩
    refine Prog.emits_op_bind.mpr fun data => ⟨hr _ _, ?_⟩
    exact Prog.emits_ite (fun _ => Prog.emits_pure _) fun _ => ih

/-- One bank is set up through its clock word and its own registers. -/
theorem emits_setUpBank (hcr : ∀ n, a.reads (.clock n)) (hcw : ∀ n, a.writes (.clock n))
    (hgr : ∀ b n, a.reads (.gpio b n)) (hgw : ∀ b n, a.writes (.gpio b n)) (bank : Fin 3)
    (error : String) (cap : Nat) : (setUpBank bank error cap).Emits a.allows := by
  refine Prog.emits_bind (emits_enableClock hcr hcw _ _ _) fun ⟨enabled, error⟩ => ?_
  refine Prog.emits_ite (fun _ => Prog.emits_pure _) fun _ => ?_
  refine Prog.emits_op_bind.mpr fun ctrl => ⟨hgr _ _, ?_⟩
  refine Prog.emits_op_bind.mpr fun _ => ⟨hgw _ _, ?_⟩
  refine Prog.emits_bind (emits_clearOutputs hgr hgw _ _) fun low => ?_
  refine Prog.emits_ite (fun _ => Prog.emits_pure _) fun _ => ?_
  refine Prog.emits_op_bind.mpr fun oe => ⟨hgr _ _, ?_⟩
  refine Prog.emits_op_bind.mpr fun _ => ⟨hgw _ _, ?_⟩
  refine Prog.emits_op_bind.mpr fun _ => ⟨trivial, ?_⟩
  refine Prog.emits_op_bind.mpr fun oe => ⟨hgr _ _, ?_⟩
  exact Prog.emits_ite (fun _ => Prog.emits_pure _) fun _ => Prog.emits_pure _

/-! ### Descriptors and mappings -/

/-- An unmapping is a handle. -/
theorem emits_unmap (h : a.handles) (map : Option Nat) : (unmap map).Emits a.allows := by
  rcases map with - | address
  · exact Prog.emits_pure _
  · exact fun _ => ⟨h, trivial⟩

/-- So is the close of a descriptor. -/
theorem emits_closeFd (h : a.handles) (fd : Option Nat) : (closeFd fd).Emits a.allows := by
  rcases fd with - | fd
  · exact Prog.emits_pure _
  · exact fun _ => ⟨h, trivial⟩

/-- `dld_hw_close` unmaps and closes. -/
theorem emits_dldHwClose (h : a.handles) (hw : DldHw) : (dldHwClose hw).Emits a.allows := by
  refine Prog.emits_bind (emits_unmap h _) fun _ => ?_
  refine Prog.emits_bind (emits_unmap h _) fun _ => ?_
  refine Prog.emits_bind (emits_unmap h _) fun _ => ?_
  refine Prog.emits_bind (emits_unmap h _) fun _ => ?_
  refine Prog.emits_bind (emits_unmap h _) fun _ => ?_
  refine Prog.emits_bind (emits_closeFd h _) fun _ => ?_
  exact Prog.emits_bind (emits_closeFd h _) fun _ => Prog.emits_pure _

/-- `dld_hw_open` opens and maps the PRUSS and touches no word behind it. -/
theorem emits_dldHwOpen (h : a.handles) (fuel : Nat) (error : String) (cap : Nat) :
    (dldHwOpen fuel error cap).Emits a.allows := by
  have hfail (hw : DldHw) (what : String) :
      (do
        let error ← failErrno error cap what
        pure (hw, false, error) : UProg (DldHw × Bool × String)).Emits a.allows :=
    Prog.emits_bind (emits_failErrno _ _ _) fun _ => Prog.emits_pure _
  refine Prog.emits_op_bind.mpr fun opened => ⟨trivial, Prog.emits_ite (fun _ => hfail _ _) ?_⟩
  intro _
  refine Prog.emits_bind (emits_findPruss fuel) fun found => ?_
  refine Prog.emits_op_bind.mpr fun _ => ⟨trivial, ?_⟩
  rcases found with - | ⟨name, size⟩
  · exact hfail _ _
  refine Prog.emits_op_bind.mpr fun uio => ⟨h, ?_⟩
  rcases uio with errno | fd
  · exact hfail _ _
  refine Prog.emits_op_bind.mpr fun map => ⟨h, ?_⟩
  rcases map with errno | address
  · refine Prog.emits_bind (emits_failErrno _ _ _) fun _ => ?_
    exact Prog.emits_bind (emits_dldHwClose h _) fun _ => Prog.emits_pure _
  · exact Prog.emits_pure _

/-- `dld_lock` opens, locks and closes the lock file. -/
theorem emits_dldLock (h : a.handles) (error : String) (cap : Nat) :
    (dldLock error cap).Emits a.allows := by
  have hstrerror : strerror.Emits a.allows := fun _ => ⟨trivial, trivial⟩
  refine Prog.emits_op_bind.mpr fun opened => ⟨h, ?_⟩
  rcases opened with errno | fd
  · exact Prog.emits_bind hstrerror fun _ => Prog.emits_pure _
  refine Prog.emits_op_bind.mpr fun regular => ⟨trivial, Prog.emits_ite (fun _ => ?_) fun _ => ?_⟩
  · exact Prog.emits_op_bind.mpr fun _ => ⟨h, Prog.emits_pure _⟩
  refine Prog.emits_op_bind.mpr fun locked => ⟨h, ?_⟩
  rcases locked with - | errno
  · exact Prog.emits_pure _
  · refine Prog.emits_bind (Prog.emits_ite (fun _ => Prog.emits_pure _) fun _ => ?_) fun _ => ?_
    · exact Prog.emits_bind hstrerror fun _ => Prog.emits_pure _
    · exact Prog.emits_op_bind.mpr fun _ => ⟨h, Prog.emits_pure _⟩

/-- What `mapPeripherals` does once `/dev/mem` is open. -/
def mapClock (error : String) (cap : Nat) (hw : DldHw) (fd : Nat) :
    UProg (DldHw × Bool × String) := do
  if hw.clockMap ≠ none then pure (hw, true, error) else do
  let map : Except Int Nat ← uop (.mmap .clock fd)
  match map with
  | .error _ => do
    let error ← failErrno error cap "map GPIO clock controls"
    pure (hw, false, error)
  | .ok address => pure ({ hw with clockMap := some address }, true, error)

/-- The peripherals are mapped before any of them is touched. -/
theorem emits_mapPeripherals (h : a.handles) (hw : DldHw) (error : String) (cap : Nat) :
    (mapPeripherals hw error cap).Emits a.allows := by
  have hfail (hw : DldHw) (what : String) :
      (do
        let error ← failErrno error cap what
        pure (hw, false, error) : UProg (DldHw × Bool × String)).Emits a.allows :=
    Prog.emits_bind (emits_failErrno _ _ _) fun _ => Prog.emits_pure _
  have hclock (hw : DldHw) (fd : Nat) : (mapClock error cap hw fd).Emits a.allows := by
    refine Prog.emits_ite (fun _ => Prog.emits_pure _) fun _ => ?_
    refine Prog.emits_op_bind.mpr fun map => ⟨h, ?_⟩
    rcases map with errno | address
    · exact hfail _ _
    · exact Prog.emits_pure _
  unfold mapPeripherals
  rcases hw.memFd with - | fd
  · refine Prog.emits_op_bind.mpr fun mem => ⟨h, ?_⟩
    rcases mem with errno | fd
    · exact hfail _ _
    · exact hclock _ _
  · exact hclock _ _

section Outputs

variable (h : a.handles) (hcr : ∀ n, a.reads (.clock n)) (hcw : ∀ n, a.writes (.clock n))
  (hgr : ∀ b n, a.reads (.gpio b n)) (hgw : ∀ b n, a.writes (.gpio b n))

include h hcr hcw hgr hgw

/-- A bank that is not mapped yet is mapped first. -/
theorem emits_configureBank (hw : DldHw) (bank : Fin 3) (error : String) (cap : Nat) :
    (configureBank hw bank error cap).Emits a.allows := by
  unfold configureBank
  rcases hw.gpioMap bank with - | address
  · rcases hw.memFd with - | fd
    · exact Prog.emits_bind (emits_failErrno _ _ _) fun _ => Prog.emits_pure _
    refine Prog.emits_op_bind.mpr fun map => ⟨h, ?_⟩
    rcases map with errno | address
    · exact Prog.emits_bind (emits_failErrno _ _ _) fun _ => Prog.emits_pure _
    · exact Prog.emits_bind (emits_setUpBank hcr hcw hgr hgw _ _ _) fun _ => Prog.emits_pure _
  · exact Prog.emits_bind (emits_setUpBank hcr hcw hgr hgw _ _ _) fun _ => Prog.emits_pure _

/-- The configured banks, in order, until one fails. -/
theorem emits_dldHwConfigureOutputs (hw : DldHw) (error : String) (cap : Nat) :
    (dldHwConfigureOutputs hw error cap).Emits a.allows := by
  have hbanks (hw : DldHw) (error : String) (banks : List (Fin 3)) :
      (configureBanks hw error cap banks).Emits a.allows := by
    induction banks generalizing hw error with
    | nil => exact Prog.emits_pure _
    | cons bank rest ih =>
      refine Prog.emits_bind (emits_configureBank h hcr hcw hgr hgw _ _ _ _) fun _ => ?_
      exact Prog.emits_ite (fun _ => Prog.emits_pure _) fun _ => ih _ _
  refine Prog.emits_bind (emits_mapPeripherals h _ _ _) fun _ => ?_
  exact Prog.emits_ite (fun _ => Prog.emits_pure _) fun _ => hbanks _ _ _

/-- All banks, in order, whichever of them fail. -/
theorem emits_cleanupOutputs (hw : DldHw) (error : String) :
    (cleanupOutputs hw error).Emits a.allows := by
  have hbanks (hw : DldHw) (error : String) (banks : List (Fin 3)) :
      (cleanupBanks hw error banks).Emits a.allows := by
    induction banks generalizing hw error with
    | nil => exact Prog.emits_pure _
    | cons bank rest ih =>
      refine Prog.emits_bind (emits_configureBank h hcr hcw hgr hgw _ _ _ _) fun _ => ?_
      refine Prog.emits_ite (fun _ => ?_) fun _ => ih _ _
      exact Prog.emits_op_bind.mpr fun _ => ⟨trivial, ih _ _⟩
  refine Prog.emits_bind (emits_mapPeripherals h _ _ _) fun _ => ?_
  refine Prog.emits_ite (fun _ => ?_) fun _ => hbanks _ _ _
  exact Prog.emits_op_bind.mpr fun _ => ⟨trivial, Prog.emits_pure _⟩

end Outputs

/-! ### Starting PRU0 -/

/-- The image is copied into the PRUSS window. -/
theorem emits_copyCode (hw : ∀ n, a.writes (.pruss n)) (code : Nat → Word) (words : List Nat) :
    (copyCode code words).Emits a.allows := by
  induction words with
  | nil => exact Prog.emits_pure _
  | cons word rest ih => exact Prog.emits_op_bind.mpr fun _ => ⟨hw _, ih⟩

/-- The copy is read back from there. -/
theorem emits_verifyCode (hr : ∀ n, a.reads (.pruss n)) (code : Nat → Word) (words : List Nat) :
    (verifyCode code words).Emits a.allows := by
  induction words with
  | nil => exact Prog.emits_pure _
  | cons word rest ih =>
    refine Prog.emits_op_bind.mpr fun found => ⟨hr _, ?_⟩
    exact Prog.emits_ite (fun _ => Prog.emits_pure _) fun _ => ih

/-- `dld_hw_start` stays inside the PRUSS window. -/
theorem emits_dldHwStart (hr : ∀ n, a.reads (.pruss n)) (hw : ∀ n, a.writes (.pruss n))
    (context : DldHw) (code : Nat → Word) (bytes : Nat) (error : String) (cap : Nat) :
    (dldHwStart context code bytes error cap).Emits a.allows := by
  refine Prog.emits_ite (fun _ => ?_) fun _ => ?_
  · exact Prog.emits_bind (emits_failErrno _ _ _) fun _ => Prog.emits_pure _
  refine Prog.emits_bind (emits_stopPrus hr hw _ _ _) fun ⟨stopped, error⟩ => ?_
  refine Prog.emits_ite (fun _ => Prog.emits_pure _) fun _ => ?_
  refine Prog.emits_bind (emits_copyCode hw _ _) fun _ => ?_
  refine Prog.emits_op_bind.mpr fun _ => ⟨trivial, ?_⟩
  refine Prog.emits_bind (emits_verifyCode hr _ _) fun bad => ?_
  rcases bad with - | word
  · refine Prog.emits_op_bind.mpr fun _ => ⟨hw _, ?_⟩
    exact Prog.emits_op_bind.mpr fun _ => ⟨trivial, Prog.emits_pure _⟩
  · exact Prog.emits_pure _

end Functions

end Dld
