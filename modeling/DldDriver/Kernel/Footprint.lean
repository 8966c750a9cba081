/-
DldDriver/Kernel/Footprint.lean

Which registers each function of the kernel helper touches.

An `Access` says which registers a program may read and write and which
functions it may enter.  What a program does not touch, it cannot change:
these lemmas feed the frame rule of every monitor over the helper.
-/
import DldDriver.Kernel.Send

namespace Dld

open Interaction

/-- The registers a program may read and write, whether it may mask the CPU,
and the functions whose entry and return it may record. -/
structure Access where
  reads : Reg → Prop := fun _ => False
  writes : Reg → Prop := fun _ => False
  masks : Prop := False
  calls : KFn → Prop := fun _ => False

/-- The mutex and the user's structure are outside every access. -/
def Access.allows (a : Access) : KEvent → Prop
  | ⟨.readl r, _⟩ => a.reads r
  | ⟨.writel _ r, _⟩ => a.writes r
  | ⟨.preemptDisable, _⟩ | ⟨.preemptEnable, _⟩ | ⟨.localIrqSave, _⟩ | ⟨.localFiqDisable, _⟩
  | ⟨.localIrqRestore _, _⟩ => a.masks
  | ⟨.enter f, _⟩ | ⟨.leave f _, _⟩ => a.calls f
  | ⟨.copyFromUser, _⟩ | ⟨.copyToUser _, _⟩ | ⟨.mutexTrylock, _⟩ | ⟨.mutexUnlock, _⟩ => False
  | _ => True

/-- A wider access allows what a narrower one does. -/
theorem Access.allows_mono {a b : Access} (hr : ∀ r, a.reads r → b.reads r)
    (hw : ∀ r, a.writes r → b.writes r) (hm : a.masks → b.masks)
    (hc : ∀ f, a.calls f → b.calls f) : ∀ e, a.allows e → b.allows e := by
  rintro ⟨op, v⟩ h
  cases op <;> first | exact hr _ h | exact hw _ h | exact hm h | exact hc _ h | exact h

/-- The two mode fields together are the clock test. -/
theorem functional_of_mode {clock : Word} (hmode : clock &&& 3 = 2)
    (hidle : (clock >>> 16) &&& 3 = 0) : Functional clock := by
  have h0 : clock.getLsbD 0 = false := by simpa using congrArg (BitVec.getLsbD · 0) hmode
  have h1 : clock.getLsbD 1 = true := by simpa using congrArg (BitVec.getLsbD · 1) hmode
  have h16 : clock.getLsbD 16 = false := by simpa using congrArg (BitVec.getLsbD · 0) hidle
  have h17 : clock.getLsbD 17 = false := by simpa using congrArg (BitVec.getLsbD · 1) hidle
  have hmask : (0x30003 : Word) = BitVec.twoPow 32 0 ||| BitVec.twoPow 32 1 |||
      BitVec.twoPow 32 16 ||| BitVec.twoPow 32 17 := by decide
  rw [Functional, hmask]
  simp only [BitVec.and_or_distrib_left, BitVec.and_twoPow, h0, h1, h16, h17]
  decide

/-! ### The blocks of registers -/

def Reg.isMailbox : Reg → Bool
  | .mailbox _ => true
  | _ => false

def Reg.isCpsw : Reg → Bool
  | .cpsw _ => true
  | _ => false

def Reg.isCore : Reg → Bool
  | .pruControl _ => true
  | _ => false

def Reg.isGpio : Reg → Bool
  | .gpio .. => true
  | _ => false

section Functions

variable {a : Access}

/-! ### Without registers -/

/-- Masking reads and writes no register. -/
theorem emits_maskCpu (hmask : a.masks) : maskCpu.Emits a.allows := by
  simp [maskCpu, kop, Prog.emits_op_bind, Access.allows, hmask]

/-- Nor does unmasking. -/
theorem emits_unmaskCpu (hmask : a.masks) (flags : Word) : (unmaskCpu flags).Emits a.allows := by
  simp [unmaskCpu, kop, Prog.emits_op_bind, Access.allows, hmask]

/-- The counter test is made of coprocessor reads. -/
theorem emits_pmuReady : pmuReady.Emits a.allows := by
  unfold pmuReady kop ccnt
  simp only [Prog.emits_op_bind, Prog.emits_ite_iff, Prog.emits_pure]
  simp [kop, Access.allows, Prog.emits_op_bind]

/-- `fixed_cpu` asks the cpufreq core only. -/
theorem emits_fixedCpu (policy : Bool) : (fixedCpu policy).Emits a.allows := by
  unfold fixedCpu kop
  simp only [Prog.emits_op_bind, Prog.emits_ite_iff, Prog.emits_pure]
  simp [Access.allows]

/-- `acquire_net` asks the network core only. -/
theorem emits_acquireNet : acquireNet.Emits a.allows := by
  unfold acquireNet kop
  simp only [Prog.emits_op_bind, Prog.emits_ite_iff, Prog.emits_pure]
  simp [Access.allows]

/-! ### Clocks -/

/-- The test reads the PRUSS clock word. -/
theorem emits_mailboxFunctional (hclock : ∀ c, a.reads (.clocks c)) :
    mailboxFunctional.Emits a.allows := by
  unfold mailboxFunctional readl kop
  simp only [Prog.emits_op_bind]
  exact fun r => ⟨hclock _, Prog.emits_pure _⟩

/-- One engine: its clock word, and its status where the clock runs. -/
theorem emits_engineIdle (hclock : ∀ c, a.reads (.clocks c))
    (hengine : ∀ i o, a.reads (.engine i o)) (i : Fin 6) : (engineIdle i).Emits a.allows := by
  unfold engineIdle readl kop
  simp only [Prog.emits_op_bind, Prog.emits_ite_iff, Prog.emits_pure]
  simp [Access.allows, hclock, hengine]

/-- The engines up to the first one that is busy. -/
theorem emits_enginesIdle (hclock : ∀ c, a.reads (.clocks c))
    (hengine : ∀ i o, a.reads (.engine i o)) (is : List (Fin 6)) :
    (enginesIdle is).Emits a.allows := by
  induction is with
  | nil => exact Prog.emits_pure _
  | cons i rest ih =>
    refine Prog.emits_bind (emits_engineIdle hclock hengine i) fun blocked => ?_
    cases blocked with
    | none => exact ih
    | some status => exact Prog.emits_pure _

/-- `other_dma_idle` reads what the six engines have. -/
theorem emits_otherDmaIdle (hclock : ∀ c, a.reads (.clocks c))
    (hengine : ∀ i o, a.reads (.engine i o)) (request : DldQuietSend) :
    (otherDmaIdle request).Emits a.allows := by
  refine Prog.emits_bind (emits_enginesIdle hclock hengine _) fun blocked => ?_
  cases blocked <;> exact Prog.emits_pure _

/-- The admission loop touches what one attempt touches. -/
theorem emits_dldAdmissionWait {attempt : DldQuietSend → KProg (DldQuietSend × Int × Bool)}
    (hattempt : ∀ request, (attempt request).Emits a.allows) (request : DldQuietSend)
    (idleOnly : Bool) :
    (dldAdmissionWait ktimeGet attempt usleepRange request idleOnly).Emits a.allows := by
  have htime : ktimeGet.Emits a.allows := (Prog.emits_op KOp.ktimeGet).mpr fun _ => trivial
  have hpause : usleepRange.Emits a.allows := (Prog.emits_op KOp.usleepRange).mpr fun _ => trivial
  have hloop (deadline : Int) (n : Nat) (request : DldQuietSend) :
      (admissionLoop ktimeGet attempt usleepRange idleOnly deadline n request).Emits a.allows := by
    induction n generalizing request with
    | zero => exact Prog.emits_pure _
    | succ n ih =>
      refine Prog.emits_bind htime fun now => Prog.emits_ite (fun _ => Prog.emits_pure _) fun _ => ?_
      refine Prog.emits_bind (hattempt request) fun ⟨request, result, granted⟩ => ?_
      refine Prog.emits_ite (fun _ => Prog.emits_bind hpause fun _ => ih request) fun _ => ?_
      refine Prog.emits_ite (fun _ => Prog.emits_bind htime fun now => ?_) fun _ =>
        Prog.emits_pure _
      exact Prog.emits_ite (fun _ => Prog.emits_pure _) fun _ => Prog.emits_pure _
  exact Prog.emits_bind htime fun now => hloop _ _ request

/-- `wait_other_dma` reads the engines behind the mask. -/
theorem emits_waitOtherDma (hmask : a.masks) (hclock : ∀ c, a.reads (.clocks c))
    (hengine : ∀ i o, a.reads (.engine i o)) (request : DldQuietSend) :
    (waitOtherDma request).Emits a.allows := by
  refine emits_dldAdmissionWait (fun request => ?_) request true
  refine Prog.emits_bind (emits_maskCpu hmask) fun flags => ?_
  refine Prog.emits_bind (emits_otherDmaIdle hclock hengine request) fun ⟨request, error⟩ => ?_
  exact Prog.emits_bind (emits_unmaskCpu hmask flags) fun _ => Prog.emits_pure _

/-! ### The mailbox -/

/-- The six lengths are mailbox words. -/
theorem emits_lengthsMatch (hmail : ∀ off, a.reads (.mailbox off)) (request : DldQuietSend)
    (is : List (Fin 6)) : (lengthsMatch request is).Emits a.allows := by
  induction is with
  | nil => exact Prog.emits_pure _
  | cons i rest ih =>
    refine Prog.emits_bind ((Prog.emits_op _).mpr fun _ => hmail _) fun length => ?_
    exact Prog.emits_ite (fun _ => Prog.emits_pure _) fun _ => ih

/-- `snapshot` reads the mailbox. -/
theorem emits_snapshot (hmail : ∀ off, a.reads (.mailbox off)) (request : DldQuietSend) :
    (snapshot request).Emits a.allows := by
  unfold snapshot readl kop
  simp only [Prog.emits_op_bind]
  simp [Access.allows, hmail]

/-- `validate` reads the mailbox and writes nothing. -/
theorem emits_validate (hmail : ∀ off, a.reads (.mailbox off)) (request : DldQuietSend) :
    (validate request).Emits a.allows := by
  have hread (off : Off) : (readl (.mailbox off)).Emits a.allows :=
    (Prog.emits_op _).mpr fun _ => hmail off
  refine Prog.emits_ite (fun _ => Prog.emits_pure _) fun _ => ?_
  refine Prog.emits_ite (fun _ => Prog.emits_pure _) fun _ => ?_
  refine Prog.emits_bind (hread _) fun _ => Prog.emits_ite (fun _ => Prog.emits_pure _) fun _ => ?_
  refine Prog.emits_bind (hread _) fun _ => Prog.emits_ite (fun _ => Prog.emits_pure _) fun _ => ?_
  refine Prog.emits_bind (hread _) fun _ => Prog.emits_ite (fun _ => Prog.emits_pure _) fun _ => ?_
  refine Prog.emits_bind (emits_lengthsMatch hmail request _) fun same => ?_
  refine Prog.emits_ite (fun _ => Prog.emits_pure _) fun _ => ?_
  exact Prog.emits_bind (emits_snapshot hmail request) fun _ => Prog.emits_pure _

/-! ### The gate of the kernel -/

/-- One batch of `wait_gate` reads the mailbox. -/
theorem emits_gateBatch (hmail : ∀ off, a.reads (.mailbox off)) (request : DldQuietSend)
    (ordinal : Word) (final : Bool) : (gateBatch request ordinal final).Emits a.allows := by
  have hread (off : Off) : (readl (.mailbox off)).Emits a.allows :=
    (Prog.emits_op _).mpr fun _ => hmail off
  refine Prog.emits_bind (hread _) fun _ => Prog.emits_bind (hread _) fun _ => ?_
  refine Prog.emits_bind (hread _) fun _ => Prog.emits_ite (fun _ => ?_) fun _ => ?_
  · exact Prog.emits_bind (hread _) fun _ => Prog.emits_pure _
  · exact Prog.emits_bind (hread _) fun _ => Prog.emits_pure _

/-- `wait_gate` writes no register: it masks, reads and sleeps. -/
theorem emits_waitGate (hmask : a.masks) (hclock : ∀ c, a.reads (.clocks c))
    (hmail : ∀ off, a.reads (.mailbox off)) (hcall : a.calls .waitGate) (request : DldQuietSend)
    (ordinal : Word) (final : Bool) : (waitGate request ordinal final).Emits a.allows := by
  have htime : ktimeGet.Emits a.allows := (Prog.emits_op KOp.ktimeGet).mpr fun _ => trivial
  have hpause : usleepRange.Emits a.allows := (Prog.emits_op KOp.usleepRange).mpr fun _ => trivial
  have hbatch := emits_gateBatch hmail request ordinal final
  have hloop (deadline : Int) (n : Nat) :
      (waitGateLoop request ordinal final deadline n).Emits a.allows := by
    induction n with
    | zero => exact Prog.emits_pure _
    | succ n ih =>
      refine Prog.emits_bind htime fun now => Prog.emits_ite (fun _ => Prog.emits_pure _) fun _ => ?_
      refine Prog.emits_bind (emits_maskCpu hmask) fun flags => ?_
      refine Prog.emits_bind (emits_mailboxFunctional hclock) fun ok => ?_
      refine Prog.emits_ite (fun _ => ?_) fun _ => ?_
      · exact Prog.emits_bind (emits_unmaskCpu hmask flags) fun _ => Prog.emits_pure _
      · refine Prog.emits_bind hbatch fun _ => Prog.emits_bind (emits_unmaskCpu hmask flags) fun _ => ?_
        refine Prog.emits_ite (fun _ => Prog.emits_pure _) fun _ => ?_
        refine Prog.emits_ite (fun _ => ?_) fun _ => Prog.emits_bind hpause fun _ => ih
        exact Prog.emits_bind htime fun _ => Prog.emits_pure _
  refine Prog.emits_bind ((Prog.emits_op _).mpr fun _ => hcall) fun _ => ?_
  refine Prog.emits_bind (Prog.emits_bind htime fun _ => hloop _ _) fun _ => ?_
  exact Prog.emits_bind ((Prog.emits_op _).mpr fun _ => hcall) fun _ => Prog.emits_pure _

/-! ### try_bank -/

/-- The timed loop of the routine reads the cycle counter only. -/
theorem emits_timerStart (r2 r3 : Word) : (timerStart r2 r3).Emits a.allows := by
  have hccnt : ccnt.Emits a.allows := (Prog.emits_op KOp.ccnt).mpr fun _ => trivial
  have hloop (r4 : Word) (n : Nat) : (timerLoop r2 r4 n).Emits a.allows := by
    induction n with
    | zero =>
      refine Prog.emits_bind hccnt fun now => ?_
      exact Prog.emits_ite (fun _ => Prog.emits_pure _) fun _ => Prog.emits_pure _
    | succ n ih =>
      exact Prog.emits_bind hccnt fun now => Prog.emits_ite (fun _ => Prog.emits_pure _) fun _ => ih
  exact Prog.emits_bind hccnt fun r4 => hloop r4 _

/-- The routine writes `bank_grant` and reads `bank_done`. -/
theorem emits_grantBank (hgrant : a.writes (.mailbox .bankGrant))
    (hdone : a.reads (.mailbox .bankDone)) (request : DldQuietSend) (bank : Bank) :
    (grantBank request bank).Emits a.allows := by
  have hbarrier : (kop .barrier).Emits a.allows := (Prog.emits_op _).mpr fun _ => trivial
  refine Prog.emits_bind ?_ fun _ => Prog.emits_ite (fun _ => Prog.emits_pure _) fun _ =>
    Prog.emits_ite (fun _ => Prog.emits_pure _) fun _ => Prog.emits_pure _
  refine Prog.emits_bind (emits_timerStart _ _) fun _ =>
    Prog.emits_ite (fun _ => Prog.emits_pure _) fun _ => ?_
  refine Prog.emits_bind hbarrier fun _ => ?_
  refine Prog.emits_bind ((Prog.emits_op _).mpr fun _ => hgrant) fun _ => ?_
  refine Prog.emits_bind hbarrier fun _ => Prog.emits_bind (emits_timerStart _ _) fun _ => ?_
  refine Prog.emits_bind hbarrier fun _ => ?_
  exact Prog.emits_bind ((Prog.emits_op _).mpr fun _ => hdone) fun _ => Prog.emits_pure _

/-- The drain works on the CPSW control and status words. -/
theorem emits_drainDma (hread : ∀ o, a.reads (.cpsw o)) (hwrite : ∀ o, a.writes (.cpsw o))
    (request : DldQuietSend) (bank : Bank) (saved : Word) :
    (drainDma request bank saved).Emits a.allows := by
  have hloop (start : Word) (n : Nat) (status : Word) :
      (drainLoop start n status).Emits a.allows := by
    induction n generalizing status with
    | zero => exact Prog.emits_pure _
    | succ n ih =>
      unfold drainLoop readl ccnt kop
      simp only [Prog.emits_op_bind, Prog.emits_ite_iff, Prog.emits_pure]
      simp [Access.allows, hread, ih]
  unfold drainDma writel drainWrites readl ccnt kop
  simp only [Prog.emits_op_bind, Prog.emits_ite_iff, Prog.emits_pure]
  refine fun _ => ⟨hwrite _, fun _ => ⟨trivial, fun _ => ⟨hread _, fun _ => trivial, fun _ start => ?_⟩⟩⟩
  refine ⟨trivial, Prog.emits_bind (hloop _ _ _) fun r => ?_⟩
  simp only [Prog.emits_op_bind, Prog.emits_ite_iff, Prog.emits_pure]
  simp [Access.allows]

/-- The admission reads clocks and engines, and writes in the CPSW only. -/
theorem emits_admitBank (hclock : ∀ c, a.reads (.clocks c))
    (hengine : ∀ i o, a.reads (.engine i o)) (hread : ∀ o, a.reads (.cpsw o))
    (hwrite : ∀ o, a.writes (.cpsw o)) (request : DldQuietSend) (policy : Bool) (bank : Bank) :
    (admitBank request policy bank).Emits a.allows := by
  have hop (r : Reg) (hr : a.reads r) : (readl r).Emits a.allows :=
    (Prog.emits_op _).mpr fun _ => hr
  refine Prog.emits_bind (emits_fixedCpu policy) fun _ =>
    Prog.emits_ite (fun _ => Prog.emits_pure _) fun _ => ?_
  refine Prog.emits_bind emits_pmuReady fun _ =>
    Prog.emits_ite (fun _ => Prog.emits_pure _) fun _ => ?_
  refine Prog.emits_bind (emits_mailboxFunctional hclock) fun _ =>
    Prog.emits_ite (fun _ => Prog.emits_pure _) fun _ => ?_
  refine Prog.emits_bind (emits_otherDmaIdle hclock hengine request) fun _ =>
    Prog.emits_ite (fun _ => Prog.emits_pure _) fun _ => ?_
  refine Prog.emits_bind (hop _ (hclock _)) fun _ =>
    Prog.emits_ite (fun _ => Prog.emits_pure _) fun _ => ?_
  refine Prog.emits_bind (hop _ (hread _)) fun _ =>
    Prog.emits_ite (fun _ => Prog.emits_pure _) fun _ => ?_
  refine Prog.emits_bind (emits_drainDma hread hwrite _ _ _) fun _ =>
    Prog.emits_ite (fun _ => Prog.emits_pure _) fun _ => ?_
  exact Prog.emits_bind (emits_otherDmaIdle hclock hengine _) fun _ => Prog.emits_pure _

/-- A withdrawal disables PRU0 and clears the magic. -/
theorem emits_withdrawBank (hclock : ∀ c, a.reads (.clocks c)) (hcore : a.writes (.pruControl 0))
    (hmagic : a.writes (.mailbox .magic)) (request : DldQuietSend) (bank : Bank) (error : Int) :
    (withdrawBank request bank error).Emits a.allows := by
  refine Prog.emits_ite (fun _ => ?_) fun _ => Prog.emits_pure _
  refine Prog.emits_bind (emits_mailboxFunctional hclock) fun ok =>
    Prog.emits_ite (fun _ => ?_) fun _ => Prog.emits_pure _
  unfold writel drainWrites kop
  simp only [Prog.emits_op_bind]
  simp [Access.allows, hcore, hmagic]

/-- The restoration puts the CPSW control word back. -/
theorem emits_restoreDma (hread : ∀ o, a.reads (.cpsw o)) (hwrite : ∀ o, a.writes (.cpsw o))
    (request : DldQuietSend) (bank : Bank) (changedDma : Option Word) (error : Int) :
    (restoreDma request bank changedDma error).Emits a.allows := by
  cases changedDma with
  | none => exact Prog.emits_pure _
  | some saved =>
    unfold restoreDma writel drainWrites readl kop
    simp only [Prog.emits_op_bind, Prog.emits_ite_iff, Prog.emits_pure]
    simp [Access.allows, hread, hwrite]

/-- The end of `try_bank` withdraws, restores and unmasks. -/
theorem emits_finishBank (hmask : a.masks) (hclock : ∀ c, a.reads (.clocks c)) (hread : ∀ o, a.reads (.cpsw o))
    (hwrite : ∀ o, a.writes (.cpsw o)) (hcore : a.writes (.pruControl 0))
    (hmagic : a.writes (.mailbox .magic)) (request : DldQuietSend) (bank : Bank)
    (changedDma : Option Word) (flags start : Word) (error : Int) :
    (finishBank request bank changedDma flags start error).Emits a.allows := by
  refine Prog.emits_bind (emits_withdrawBank hclock hcore hmagic _ _ _) fun _ => ?_
  refine Prog.emits_bind (emits_restoreDma hread hwrite _ _ _ _) fun _ => ?_
  refine Prog.emits_bind ((Prog.emits_op KOp.ccnt).mpr fun _ => trivial) fun _ => ?_
  exact Prog.emits_bind (emits_unmaskCpu hmask flags) fun _ => Prog.emits_pure _

/-! ### failed_frame_cleanup -/

/-- Both cores are disabled and the magic is cleared, behind the mask. -/
theorem emits_disableCores (hmask : a.masks) (hclock : ∀ c, a.reads (.clocks c))
    (hmagic : a.writes (.mailbox .magic)) (hcore : ∀ o, a.writes (.pruControl o))
    (request : DldQuietSend) : (disableCores request).Emits a.allows := by
  refine Prog.emits_bind (emits_maskCpu hmask) fun flags => ?_
  have hunmask (request : DldQuietSend) :
      (unmaskCpu flags >>= fun _ => pure request : KProg DldQuietSend).Emits a.allows :=
    Prog.emits_bind (emits_unmaskCpu hmask flags) fun _ => Prog.emits_pure _
  refine Prog.emits_bind (emits_mailboxFunctional hclock) fun ok =>
    Prog.emits_ite (fun _ => ?_) fun _ => hunmask _
  exact fun _ => ⟨hmagic, fun _ => ⟨hcore _, fun _ => ⟨hcore _, fun _ => ⟨trivial, hunmask _⟩⟩⟩⟩

/-- One poll reads the cores and resets the stopped ones. -/
theorem emits_pollCores (hread : ∀ o, a.reads (.pruControl o)) (hcore : ∀ o, a.writes (.pruControl o))
    (request : DldQuietSend) (pending : Word) (cores : List (Fin 2)) :
    (pollCores request pending cores).Emits a.allows := by
  induction cores generalizing request pending with
  | nil => exact Prog.emits_pure _
  | cons core rest ih =>
    refine Prog.emits_ite (fun _ => ih _ _) fun _ => ?_
    refine Prog.emits_bind ((Prog.emits_op _).mpr fun _ => hread _) fun control => ?_
    refine Prog.emits_ite (fun _ => ?_) fun _ => ih _ _
    exact Prog.emits_bind ((Prog.emits_op _).mpr fun _ => hcore _) fun _ => ih _ _

/-- The bounded loop touches what one poll touches. -/
theorem emits_stopLoop (hmask : a.masks) (hclock : ∀ c, a.reads (.clocks c))
    (hread : ∀ o, a.reads (.pruControl o)) (hcore : ∀ o, a.writes (.pruControl o))
    (deadline : Int) (n : Nat) (request : DldQuietSend) (pending : Word) :
    (stopLoop deadline n request pending).Emits a.allows := by
  induction n generalizing request pending with
  | zero => exact Prog.emits_pure _
  | succ n ih =>
    refine Prog.emits_ite (fun _ => Prog.emits_pure _) fun _ => ?_
    refine Prog.emits_bind ((Prog.emits_op KOp.ktimeGet).mpr fun _ => trivial) fun now =>
      Prog.emits_ite (fun _ => Prog.emits_pure _) fun _ => ?_
    refine Prog.emits_bind (emits_maskCpu hmask) fun flags => ?_
    refine Prog.emits_bind (emits_mailboxFunctional hclock) fun ok =>
      Prog.emits_ite (fun _ => ?_) fun _ => ?_
    · exact Prog.emits_bind (emits_unmaskCpu hmask flags) fun _ => Prog.emits_pure _
    · refine Prog.emits_bind (emits_pollCores hread hcore _ _ _) fun r => ?_
      refine Prog.emits_bind ((Prog.emits_op KOp.barrier).mpr fun _ => trivial) fun _ => ?_
      refine Prog.emits_bind (emits_unmaskCpu hmask flags) fun _ =>
        Prog.emits_ite (fun _ => ?_) fun _ => ih _ _
      exact Prog.emits_bind ((Prog.emits_op KOp.usleepRange).mpr fun _ => trivial) fun _ => ih _ _

/-- The bounded clear writes its bank and reads it back. -/
theorem emits_clearLoop (hread : ∀ b o, a.reads (.gpio b o)) (hwrite : ∀ b o, a.writes (.gpio b o))
    (bank : Fin 3) (n : Nat) : (clearLoop bank n).Emits a.allows := by
  induction n with
  | zero => exact Prog.emits_pure _
  | succ n ih =>
    refine Prog.emits_bind ((Prog.emits_op _).mpr fun _ => hwrite _ _) fun _ => ?_
    refine Prog.emits_bind ((Prog.emits_op KOp.barrier).mpr fun _ => trivial) fun _ => ?_
    refine Prog.emits_bind ((Prog.emits_op _).mpr fun _ => hread _ _) fun data => ?_
    exact Prog.emits_ite (fun _ => Prog.emits_pure _) fun _ => ih

/-- The banks whose clock runs are cleared. -/
theorem emits_clearBanks (hclock : ∀ c, a.reads (.clocks c)) (hread : ∀ b o, a.reads (.gpio b o))
    (hwrite : ∀ b o, a.writes (.gpio b o)) (request : DldQuietSend) (banks : List (Fin 3)) :
    (clearBanks request banks).Emits a.allows := by
  induction banks generalizing request with
  | nil => exact Prog.emits_pure _
  | cons bank rest ih =>
    refine Prog.emits_bind ((Prog.emits_op _).mpr fun _ => hclock _) fun clock =>
      Prog.emits_ite (fun _ => ih _) fun _ => ?_
    refine Prog.emits_bind (emits_clearLoop hread hwrite bank 8) fun low => ?_
    exact Prog.emits_ite (fun _ => ih _) fun _ => ih _

/-- The cleanup is entered, left, and touches cores, magic and banks. -/
theorem emits_failedFrameCleanup (hmask : a.masks) (hclock : ∀ c, a.reads (.clocks c))
    (hcores : ∀ o, a.reads (.pruControl o)) (hgpios : ∀ b o, a.reads (.gpio b o))
    (hmagic : a.writes (.mailbox .magic)) (hcore : ∀ o, a.writes (.pruControl o))
    (hgpio : ∀ b o, a.writes (.gpio b o)) (hcall : a.calls .failedFrameCleanup)
    (request : DldQuietSend) : (failedFrameCleanup request).Emits a.allows := by
  refine Prog.emits_bind ((Prog.emits_op _).mpr fun _ => hcall) fun _ => ?_
  refine Prog.emits_bind ?_ fun _ => Prog.emits_bind ((Prog.emits_op _).mpr fun _ => hcall) fun _ =>
    Prog.emits_pure _
  refine Prog.emits_bind (emits_disableCores hmask hclock hmagic hcore request) fun request => ?_
  refine Prog.emits_bind ((Prog.emits_op KOp.ktimeGet).mpr fun _ => trivial) fun now => ?_
  refine Prog.emits_bind (emits_stopLoop hmask hclock hcores hcore _ _ _ _) fun r => ?_
  refine Prog.emits_bind (emits_maskCpu hmask) fun flags => ?_
  refine Prog.emits_bind (emits_clearBanks hclock hgpios hgpio _ _) fun request => ?_
  exact Prog.emits_bind (emits_unmaskCpu hmask flags) fun _ => Prog.emits_pure _

/-! ### perform_send -/

/-- The platform checks read the mailbox and write nothing. -/
theorem emits_checkPlatform (hmask : a.masks) (hclock : ∀ c, a.reads (.clocks c))
    (hmail : ∀ off, a.reads (.mailbox off)) (request : DldQuietSend) :
    (checkPlatform request).Emits a.allows := by
  have hop (o : KOp) (ho : ∀ r, a.allows ⟨o, r⟩) : (kop o).Emits a.allows := (Prog.emits_op o).mpr ho
  refine Prog.emits_bind (hop .numOnlineCpus fun _ => trivial) fun _ =>
    Prog.emits_ite (fun _ => Prog.emits_pure _) fun _ => ?_
  refine Prog.emits_bind (hop .cpuOnline fun _ => trivial) fun _ =>
    Prog.emits_ite (fun _ => Prog.emits_pure _) fun _ => ?_
  refine Prog.emits_bind (hop .cpufreqCpuGet fun _ => trivial) fun policy => ?_
  refine Prog.emits_bind (emits_fixedCpu policy) fun _ =>
    Prog.emits_ite (fun _ => Prog.emits_pure _) fun _ => ?_
  refine Prog.emits_bind (hop .preemptDisable fun _ => hmask) fun _ => ?_
  refine Prog.emits_bind emits_pmuReady fun _ => ?_
  refine Prog.emits_bind (hop .preemptEnable fun _ => hmask) fun _ =>
    Prog.emits_ite (fun _ => Prog.emits_pure _) fun _ => ?_
  refine Prog.emits_bind (emits_maskCpu hmask) fun flags => ?_
  refine Prog.emits_bind (emits_mailboxFunctional hclock) fun ok =>
    Prog.emits_ite (fun _ => ?_) fun _ => ?_
  · refine Prog.emits_bind (emits_validate hmail _) fun _ => ?_
    exact Prog.emits_bind (emits_unmaskCpu hmask flags) fun _ => Prog.emits_pure _
  · refine Prog.emits_bind (Prog.emits_pure _) fun _ => ?_
    exact Prog.emits_bind (emits_unmaskCpu hmask flags) fun _ => Prog.emits_pure _

/-- Nor does the acquisition of the system. -/
theorem emits_acquireSystem (hmask : a.masks) (hclock : ∀ c, a.reads (.clocks c))
    (hengine : ∀ i o, a.reads (.engine i o)) (request : DldQuietSend) (held : Held) :
    (acquireSystem request held).Emits a.allows := by
  have hop (o : KOp) (ho : ∀ r, a.allows ⟨o, r⟩) : (kop o).Emits a.allows := (Prog.emits_op o).mpr ho
  refine Prog.emits_bind (hop .rtnlTrylock fun _ => trivial) fun _ =>
    Prog.emits_ite (fun _ => Prog.emits_pure _) fun _ => ?_
  refine Prog.emits_bind emits_acquireNet fun _ =>
    Prog.emits_ite (fun _ => Prog.emits_pure _) fun _ => ?_
  refine Prog.emits_bind (hop .pmRuntimeGetSync fun _ => trivial) fun _ =>
    Prog.emits_ite (fun _ => Prog.emits_pure _) fun _ => ?_
  refine Prog.emits_bind (emits_waitOtherDma hmask hclock hengine request) fun _ =>
    Prog.emits_ite (fun _ => Prog.emits_pure _) fun _ => ?_
  exact Prog.emits_bind (hop .signalPending fun _ => trivial) fun _ =>
    Prog.emits_ite (fun _ => Prog.emits_pure _) fun _ => Prog.emits_pure _

/-- Before the submission no register is written. -/
theorem emits_preflight (hmask : a.masks) (hclock : ∀ c, a.reads (.clocks c))
    (hmail : ∀ off, a.reads (.mailbox off)) (hengine : ∀ i o, a.reads (.engine i o))
    (request : DldQuietSend) : (preflight request).Emits a.allows := by
  refine Prog.emits_bind (emits_checkPlatform hmask hclock hmail request) fun _ => ?_
  exact Prog.emits_ite (fun _ => Prog.emits_pure _) fun _ =>
    emits_acquireSystem hmask hclock hengine _ _

/-- After the submission, only what a cleanup writes. -/
theorem emits_submittedDone (hmask : a.masks) (hread : ∀ r, a.reads r)
    (hmagic : a.writes (.mailbox .magic)) (hcore : ∀ o, a.writes (.pruControl o))
    (hgpio : ∀ b o, a.writes (.gpio b o)) (hcall : a.calls .failedFrameCleanup)
    (request : DldQuietSend) (error : Int) : (submittedDone request error).Emits a.allows := by
  have hrest (flags : Word) (request : DldQuietSend) (error : Int) :
      (unmaskCpu flags >>= fun _ => if error ≠ 0 then failedFrameCleanup request >>=
        fun request => pure (request, error) else pure (request, error)).Emits a.allows := by
    refine Prog.emits_bind (emits_unmaskCpu hmask flags) fun _ =>
      Prog.emits_ite (fun _ => ?_) fun _ => Prog.emits_pure _
    refine Prog.emits_bind (emits_failedFrameCleanup hmask (fun _ => hread _) (fun _ => hread _)
      (fun _ _ => hread _) hmagic hcore hgpio hcall _) fun _ => Prog.emits_pure _
  refine Prog.emits_bind (emits_maskCpu hmask) fun flags => ?_
  refine Prog.emits_bind (emits_mailboxFunctional fun _ => hread _) fun ok =>
    Prog.emits_ite (fun _ => ?_) fun _ => hrest _ _ _
  exact Prog.emits_bind (emits_snapshot (fun _ => hread _) _) fun _ => hrest _ _ _

/-- What happens at the label `done`. -/
def Releases (e : KEvent) : Prop :=
  match e.1 with
  | .prErrRatelimited | .pmRuntimePut | .devPut | .rtnlUnlock | .cpufreqCpuPut | .putOnlineCpus
  | .mutexUnlock => True
  | _ => False

/-- The label `done` gives back what is held, and that is all. -/
theorem emits_sendDone (request : DldQuietSend) (held : Held) :
    (sendDone request held).Emits Releases := by
  have hop (o : KOp) (ho : ∀ r, Releases ⟨o, r⟩) {f : o.Res → KProg Unit} {q : KProg Unit}
      {c : Prop} [Decidable c] (hf : ∀ r, (f r).Emits Releases) (hq : q.Emits Releases) :
      (if c then kop o >>= f else q).Emits Releases :=
    Prog.emits_ite (fun _ => Prog.emits_bind ((Prog.emits_op o).mpr ho) hf) fun _ => hq
  have hlast : (kop .putOnlineCpus >>= fun _ => kop .mutexUnlock).Emits Releases :=
    fun _ => ⟨trivial, fun _ => ⟨trivial, trivial⟩⟩
  have hpolicy := hop .cpufreqCpuPut (fun _ => trivial) (c := held.policy = true)
    (fun _ => hlast) hlast
  have hrtnl := hop .rtnlUnlock (fun _ => trivial) (c := held.rtnl = true)
    (fun _ => hpolicy) hpolicy
  have hnet := hop .devPut (fun _ => trivial) (c := held.net = true) (fun _ => hrtnl) hrtnl
  have hpower := hop .pmRuntimePut (fun _ => trivial) (c := held.power = true)
    (fun _ => hnet) hnet
  exact hop .prErrRatelimited (fun _ => trivial) (fun _ => hpower) hpower

end Functions

end Dld
