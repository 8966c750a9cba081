/-
DldDriver/Kernel/Restore.lean

What `try_bank` gives back.  Whatever the registers answer and wherever the
attempt ends, the processor's exclusion state and the CPSW control word are
restored, or the failure to restore is reported.

    exclusion       the preemption count and the CPSR, as a monitor
    beforeRestore   `try_bank` up to its label `restore`

A run of `try_bank` is cut at the label; what was found before it decides
what `restore` has to undo.
-/
import DldDriver.Kernel.Discipline

namespace Dld

open Interaction

/-! ### CPU exclusion -/

/-- The preemption count and the CPSR. -/
structure Cpu where
  preempt : Int
  cpsr : Word

abbrev irqMask : Word := bitAt 7
abbrev fiqMask : Word := bitAt 6

/-- `arch_local_irq_restore` writes the control byte of the saved CPSR. -/
def Cpu.irqRestore (c : Cpu) (flags : Word) : Cpu :=
  { c with cpsr := c.cpsr &&& ~~~0xff ||| flags &&& 0xff }

/-- The processor along the events of the helper. -/
def exclusion : Monitor KOp KOp.Res Cpu where
  env c e := match e with
    | ⟨.localIrqSave, flags⟩ => flags = c.cpsr
    | _ => True
  safe _ _ := True
  next c e := match e.1 with
    | .preemptDisable => { c with preempt := c.preempt + 1 }
    | .preemptEnable => { c with preempt := c.preempt - 1 }
    | .localIrqSave => { c with cpsr := c.cpsr ||| irqMask }
    | .localFiqDisable => { c with cpsr := c.cpsr ||| fiqMask }
    | .localIrqRestore flags => c.irqRestore flags
    | _ => c

/-- The control byte that comes back holds both mask bits. -/
theorem restored_cpsr (x : Word) :
    (x ||| irqMask ||| fiqMask) &&& ~~~0xff ||| x &&& 0xff = x := by
  have hbyte : (0xff : Word) ||| irqMask ||| fiqMask = 0xff := by decide
  ext i hi
  have hbit := congrArg (BitVec.getLsbD · i) hbyte
  simp only [BitVec.getLsbD_or] at hbit
  simp only [BitVec.getElem_eq_testBit_toNat, BitVec.testBit_toNat, BitVec.getLsbD_or,
    BitVec.getLsbD_and, BitVec.getLsbD_not, hi, decide_true, Bool.true_and]
  revert hbit
  cases x.getLsbD i <;> cases (0xff : Word).getLsbD i <;> cases irqMask.getLsbD i <;>
    cases fiqMask.getLsbD i <;> simp

/-- Between masking and unmasking, nothing changes what the processor excludes. -/
theorem exclusion_run_of_unmasked {a : Access} (hmask : ¬ a.masks) {t : List KEvent}
    (ht : ∀ e ∈ t, a.allows e) (c : Cpu) : exclusion.run c t = c := by
  refine exclusion.run_invariant (I := (· = c)) rfl ?_
  rintro ⟨op, v⟩ he s rfl
  have hallowed := ht _ he
  cases op <;> first | rfl | exact absurd hallowed hmask

/-! ### The CPSW control word -/

/-- An access to CPSW_DMA_CONTROL. -/
def isDmaControl (e : KEvent) : Bool :=
  match e.1 with
  | .readl r | .writel _ r => decide (r = .cpsw cpswDmaControl)
  | _ => false

/-- The accesses to CPSW_DMA_CONTROL, in order. -/
def dmaControl (t : List KEvent) : List KEvent := t.filter isDmaControl

def readControl (v : Word) : KEvent := ⟨.readl (.cpsw cpswDmaControl), v⟩

def writeControl (v : Word) : KEvent := ⟨.writel v (.cpsw cpswDmaControl), ()⟩

@[simp] theorem dmaControl_append (t t' : List KEvent) :
    dmaControl (t ++ t') = dmaControl t ++ dmaControl t' := List.filter_append ..

/-- Every access but CPSW_DMA_CONTROL, without masking and without calls. -/
def uncontrolled : Access where
  reads := (· ≠ .cpsw cpswDmaControl)
  writes := (· ≠ .cpsw cpswDmaControl)

theorem dmaControl_of_uncontrolled {t : List KEvent} (ht : ∀ e ∈ t, uncontrolled.allows e) :
    dmaControl t = [] := by
  refine List.filter_eq_nil_iff.mpr ?_
  rintro ⟨op, v⟩ he
  have hallowed := ht _ he
  cases op with
  | readl r =>
    have hother : r ≠ .cpsw cpswDmaControl := hallowed
    simp [isDmaControl, hother]
  | writel w r =>
    have hother : r ≠ .cpsw cpswDmaControl := hallowed
    simp [isDmaControl, hother]
  | _ => exact Bool.false_ne_true

/-! ### Before the label `restore` -/

/-- `try_bank` from its first check to its label `restore`. -/
def beforeRestore (request : DldQuietSend) (policy : Bool) (bank : Bank) : KProg Attempt := do
  let attempt ← admitBank request policy bank
  if attempt.error ≠ 0 then pure attempt else do
  let (request, error) ← grantBank attempt.request bank
  pure ⟨request, attempt.changedDma, error⟩

/-- `try_bank`, cut at its label. -/
theorem tryBank_eq (request : DldQuietSend) (policy : Bool) (bank : Bank) :
    tryBank request policy bank = traced .tryBank Prod.snd (do
      let flags ← maskCpu
      let start ← ccnt
      let attempt ← beforeRestore { request with stage := stageDma } policy bank
      finishBank attempt.request bank attempt.changedDma flags start attempt.error) := by
  have hcut (r : DldQuietSend) (flags start : Word) :
      (admitBank r policy bank >>= fun attempt =>
        if attempt.error ≠ 0 then
          finishBank attempt.request bank attempt.changedDma flags start attempt.error
        else grantBank attempt.request bank >>= fun a =>
          finishBank a.1 bank attempt.changedDma flags start a.2) =
      beforeRestore r policy bank >>= fun attempt =>
        finishBank attempt.request bank attempt.changedDma flags start attempt.error := by
    unfold beforeRestore
    rw [bind_assoc]
    refine congrArg (admitBank r policy bank >>= ·) (funext fun attempt => ?_)
    split
    · rfl
    · rw [bind_assoc]
      rfl
  simp only [tryBank, ← hcut]

section Restore

variable {request : DldQuietSend} {policy : Bool} {bank : Bank}

theorem emits_drainLoop_uncontrolled (start : Word) (n : Nat) (status : Word) :
    (drainLoop start n status).Emits uncontrolled.allows := by
  induction n generalizing status with
  | zero => exact Prog.emits_pure _
  | succ n ih =>
    have hstatus : Reg.cpsw cpswDmaStatus ≠ .cpsw cpswDmaControl := by decide
    refine Prog.emits_bind ((Prog.emits_op _).mpr fun _ => hstatus) fun status => ?_
    refine Prog.emits_ite (fun _ => Prog.emits_pure _) fun _ => ?_
    refine Prog.emits_ite (fun _ => Prog.emits_pure _) fun _ => ?_
    refine Prog.emits_bind ((Prog.emits_op KOp.ccnt).mpr fun _ => trivial) fun now => ?_
    exact Prog.emits_ite (fun _ => Prog.emits_pure _) fun _ => ih _

/-- CMD_IDLE is written once and read back once. -/
theorem drainDma_control (saved : Word) :
    (drainDma request bank saved).All fun t attempt =>
      attempt.changedDma = some saved ∧
        ∃ v, dmaControl t = [writeControl (saved ||| cpswCommandIdle), readControl v] := by
  refine Prog.all_op_bind.mpr fun _ => Prog.all_op_bind.mpr fun _ => ?_
  refine Prog.all_op_bind.mpr fun v => Prog.all_ite.mpr ⟨fun _ => ⟨rfl, v, rfl⟩, fun _ => ?_⟩
  refine Prog.all_op_bind.mpr fun start => Prog.all_bind.mpr ?_
  refine Prog.all_mono (emits_drainLoop_uncontrolled start 100000 0).all fun t r ht => ?_
  have hcontrol : dmaControl t = [] := dmaControl_of_uncontrolled ht
  have hrest : dmaControl (⟨.writel (saved ||| cpswCommandIdle) (.cpsw cpswDmaControl), ()⟩ ::
      ⟨.barrier, ()⟩ :: ⟨.readl (.cpsw cpswDmaControl), v⟩ :: ⟨.ccnt, start⟩ :: t) =
      [writeControl (saved ||| cpswCommandIdle), readControl v] := by
    show _ :: _ :: dmaControl t = _
    rw [hcontrol]
    rfl
  refine Prog.all_op_bind.mpr fun now => Prog.all_ite.mpr ⟨fun _ => ⟨rfl, v, ?_⟩, fun _ => ⟨rfl, v, ?_⟩⟩
  all_goals
    show dmaControl (_ :: _ :: _ :: _ :: (t ++ [⟨.ccnt, now⟩])) = _
    rw [← List.cons_append, ← List.cons_append, ← List.cons_append, ← List.cons_append,
      dmaControl_append, hrest]
    rfl

/-- The accesses to CPSW_DMA_CONTROL before `restore`, by the word that has
been saved. -/
def ControlSeen (t : List KEvent) : Option Word → Prop
  | none => t = [] ∨ ∃ v, v &&& cpswCommandIdle ≠ 0 ∧ t = [readControl v]
  | some saved => saved &&& cpswCommandIdle = 0 ∧ ∃ v,
      t = [readControl saved, writeControl (saved ||| cpswCommandIdle), readControl v]

/-- CMD_IDLE is written only over a word that was read with it clear. -/
theorem admitBank_control :
    (admitBank request policy bank).All fun t attempt =>
      ControlSeen (dmaControl t) attempt.changedDma := by
  have hclock (c : Nat) : uncontrolled.reads (.clocks c) := nofun
  have hengine (i : Fin 6) (o : Nat) : uncontrolled.reads (.engine i o) := nofun
  have hnil {α : Type} {p : KProg α} (hp : p.Emits uncontrolled.allows) :
      p.All fun t _ => dmaControl t = [] :=
    Prog.all_mono hp.all fun t _ ht => dmaControl_of_uncontrolled ht
  rw [admitBank, Prog.all_bind]
  refine Prog.all_mono (hnil (emits_fixedCpu policy)) fun t₁ fixed ht₁ => ?_
  refine Prog.all_ite.mpr ⟨fun _ => .inl (by simpa using ht₁), fun _ => Prog.all_bind.mpr ?_⟩
  refine Prog.all_mono (hnil emits_pmuReady) fun t₂ ready ht₂ => ?_
  refine Prog.all_ite.mpr ⟨fun _ => .inl (by simp [ht₁, ht₂]), fun _ => Prog.all_bind.mpr ?_⟩
  refine Prog.all_mono (hnil (emits_mailboxFunctional hclock)) fun t₃ functional ht₃ => ?_
  refine Prog.all_ite.mpr ⟨fun _ => .inl (by simp [ht₁, ht₂, ht₃]), fun _ => Prog.all_bind.mpr ?_⟩
  refine Prog.all_mono (hnil (emits_otherDmaIdle hclock hengine request)) fun t₄ r ht₄ => ?_
  refine Prog.all_ite.mpr ⟨fun _ => .inl (by simp [ht₁, ht₂, ht₃, ht₄]), fun _ => ?_⟩
  refine Prog.all_op_bind.mpr fun status => ?_
  have hstatus : dmaControl [⟨.readl (.clocks cpswClock), status⟩] = [] := rfl
  have hhead (u : List KEvent) : dmaControl (t₁ ++ (t₂ ++ (t₃ ++ (t₄ ++
      (⟨.readl (.clocks cpswClock), status⟩ :: u))))) = dmaControl u := by
    rw [← List.singleton_append]
    simp only [dmaControl_append, ht₁, ht₂, ht₃, ht₄, hstatus, List.nil_append]
  refine Prog.all_ite.mpr ⟨fun _ => .inl (hhead []), fun _ => ?_⟩
  refine Prog.all_op_bind.mpr fun saved => Prog.all_ite.mpr ⟨fun hidle => ?_, fun hidle => ?_⟩
  · exact .inr ⟨saved, hidle, hhead _⟩
  · have hidle : saved &&& cpswCommandIdle = 0 := not_not.mp hidle
    refine Prog.all_bind.mpr (Prog.all_mono (drainDma_control saved) ?_)
    rintro t₅ attempt ⟨hchanged, v, ht₅⟩
    have hseen (u : List KEvent) (hu : dmaControl u = []) :
        dmaControl (t₁ ++ (t₂ ++ (t₃ ++ (t₄ ++ (⟨.readl (.clocks cpswClock), status⟩ ::
          ⟨.readl (.cpsw cpswDmaControl), saved⟩ :: (t₅ ++ u)))))) =
        [readControl saved, writeControl (saved ||| cpswCommandIdle), readControl v] := by
      rw [hhead]
      show readControl saved :: dmaControl (t₅ ++ u) = _
      rw [dmaControl_append, ht₅, hu, List.append_nil]
    refine Prog.all_ite.mpr ⟨fun _ => ?_, fun _ => Prog.all_bind.mpr ?_⟩
    · show ControlSeen _ attempt.changedDma
      rw [hchanged]
      exact ⟨hidle, v, hseen [] rfl⟩
    · refine Prog.all_mono (hnil (emits_otherDmaIdle hclock hengine attempt.request)) ?_
      intro t₆ r ht₆
      show ControlSeen _ attempt.changedDma
      rw [hchanged]
      exact ⟨hidle, v, hseen _ (by simpa using ht₆)⟩

/-- The grant routine touches no control register of CPSW. -/
theorem beforeRestore_control :
    (beforeRestore request policy bank).All fun t attempt =>
      ControlSeen (dmaControl t) attempt.changedDma := by
  rw [beforeRestore, Prog.all_bind]
  refine Prog.all_mono admitBank_control fun t attempt ht => ?_
  refine Prog.all_ite.mpr ⟨fun _ => ?_, fun _ => Prog.all_bind.mpr ?_⟩
  · show ControlSeen (dmaControl (t ++ [])) attempt.changedDma
    rwa [List.append_nil]
  have hgrant : (grantBank attempt.request bank).Emits uncontrolled.allows :=
    emits_grantBank (a := uncontrolled) nofun nofun _ _
  refine Prog.all_mono hgrant.all fun t' a ht' => ?_
  have hnil : dmaControl t' = [] := dmaControl_of_uncontrolled ht'
  show ControlSeen _ attempt.changedDma
  rwa [List.append_nil, dmaControl_append, hnil, List.append_nil]

/-- Every register, without masking and without calls. -/
def unmasked : Access := { reads := fun _ => True, writes := fun _ => True }

theorem emits_beforeRestore : (beforeRestore request policy bank).Emits unmasked.allows := by
  refine Prog.emits_bind (emits_admitBank (fun _ => trivial) (fun _ _ => trivial) (fun _ => trivial)
    (fun _ => trivial) request policy bank) fun attempt => ?_
  refine Prog.emits_ite (fun _ => Prog.emits_pure _) fun _ => ?_
  exact Prog.emits_bind (emits_grantBank trivial trivial _ _) fun _ => Prog.emits_pure _

/-! ### The label `restore` -/

/-- The withdrawal of a failed, granted bank: a clock check, and the disable
of PRU0 and the invalid magic if PRUSS answers. -/
def Withdrawal (granted : Prop) (error : Int) (t : List KEvent) : Prop :=
  (error ≠ 0 ∧ granted → ∃ clock, t = ⟨.readl (.clocks prussClock), clock⟩ ::
    if Functional clock then
      [⟨.writel 1 (.pruControl 0), ()⟩, ⟨.writel 0 (.mailbox .magic), ()⟩, ⟨.barrier, ()⟩]
    else []) ∧
  (¬ (error ≠ 0 ∧ granted) → t = [])

theorem withdrawBank_all (error : Int) :
    (withdrawBank request bank error).All fun t _ =>
      Withdrawal (request.grantedMask &&& bank.bit ≠ 0) error t := by
  refine Prog.all_ite.mpr ⟨fun hfailed => ?_, fun hkept => ?_⟩
  · refine Prog.all_op_bind.mpr fun clock => ?_
    refine Prog.all_ite.mpr ⟨fun hclock => ?_, fun hclock => ?_⟩
    · have hclock : Functional clock := of_decide_eq_true hclock
      refine Prog.all_op_bind.mpr fun _ => Prog.all_op_bind.mpr fun _ _ => ?_
      exact ⟨fun _ => ⟨clock, by rw [if_pos hclock]⟩, fun h => absurd hfailed h⟩
    · have hclock : ¬ Functional clock := fun h => hclock (decide_eq_true h)
      exact ⟨fun _ => ⟨clock, by rw [if_neg hclock]⟩, fun h => absurd hfailed h⟩
  · exact ⟨fun h => absurd h hkept, fun _ => rfl⟩

/-- The restoration: the saved word is written back and read again. -/
def Restoration (bank : Bank) (error : Int) (a : DldQuietSend × Int) (t : List KEvent) :
    Option Word → Prop
  | none => t = [] ∧ a.2 = error
  | some saved => ∃ final,
      t = [writeControl saved, ⟨.barrier, ()⟩, readControl final, ⟨.barrier, ()⟩] ∧
      (final = saved → a.2 = error) ∧
      (final ≠ saved → a.1.dmaRestoreFailedMask &&& bank.bit ≠ 0 ∧ a.2 = -eIo)

theorem or_bit_and_bit (x : Word) (bank : Bank) : (x ||| bank.bit) &&& bank.bit ≠ 0 := by
  intro h
  have hbit := congrArg (BitVec.getLsbD · bank.index.val) h
  revert hbit
  cases bank <;> simp [Bank.bit, Bank.index, bitAt]

theorem restoreDma_all (changedDma : Option Word) (error : Int) :
    (restoreDma request bank changedDma error).All fun t a =>
      a.1.grantedMask = request.grantedMask ∧ Restoration bank error a t changedDma := by
  cases changedDma with
  | none => exact ⟨rfl, rfl, rfl⟩
  | some saved =>
    refine Prog.all_op_bind.mpr fun _ => Prog.all_op_bind.mpr fun _ => ?_
    refine Prog.all_op_bind.mpr fun final => Prog.all_op_bind.mpr fun _ => ?_
    refine Prog.all_ite.mpr ⟨fun hfinal => ?_, fun hfinal => ?_⟩
    · exact ⟨rfl, final, rfl, fun h => absurd h hfinal, fun _ => ⟨or_bit_and_bit _ bank, rfl⟩⟩
    · exact ⟨rfl, final, rfl, fun _ => rfl, fun h => absurd h hfinal⟩

/-! ### The whole attempt -/

/-- The end of an attempt: the counter, and the saved CPSR. -/
def tryBankExit (flags now : Word) (result : Int) : List KEvent :=
  [⟨.ccnt, now⟩, ⟨.localIrqRestore flags, ()⟩, ⟨.preemptEnable, ()⟩, ⟨.leave .tryBank result, ()⟩]

/-- What one attempt gives back: `body` are its events up to `restore`, where
`before` holds; the withdrawal comes first, then the restoration. -/
structure BankRestored (bank : Bank) (body withdrawal restoration : List KEvent) (before : Attempt)
    (a : DldQuietSend × Int) : Prop where
  control : ControlSeen (dmaControl body) before.changedDma
  withdrawn : Withdrawal (a.1.grantedMask &&& bank.bit ≠ 0) before.error withdrawal
  restored : Restoration bank before.error a restoration before.changedDma

theorem tryBank_shape :
    (tryBank request policy bank).All fun t a =>
      ∃ (flags start now : Word) (body withdrawal restoration : List KEvent) (before : Attempt),
        t = tryBankEntry flags start ++ body ++ withdrawal ++ restoration ++
          tryBankExit flags now a.2 ∧
        (beforeRestore { request with stage := stageDma } policy bank).Runs body before ∧
        BankRestored bank body withdrawal restoration before a := by
  rw [tryBank_eq]
  apply traced_all
  refine Prog.all_bind.mpr (Prog.all_op_bind.mpr fun _ => Prog.all_op_bind.mpr fun flags =>
    Prog.all_op_bind.mpr fun _ => (Prog.all_pure flags).mpr ?_)
  refine Prog.all_op_bind.mpr fun start => Prog.all_bind.mpr ?_
  refine Prog.all_mono (Prog.all_and beforeRestore_control (Prog.all_iff.mpr fun t a ht => ht)) ?_
  rintro body before ⟨hcontrol, hruns⟩
  refine Prog.all_bind.mpr (Prog.all_mono (withdrawBank_all before.error) fun withdrawal _ hw => ?_)
  refine Prog.all_bind.mpr (Prog.all_mono (restoreDma_all before.changedDma before.error) ?_)
  rintro restoration ⟨r, error⟩ ⟨hgranted, hrestored⟩
  refine Prog.all_op_bind.mpr fun now => Prog.all_bind.mpr fun _ _ => ?_
  refine ⟨flags, start, now, body, withdrawal, restoration, before, ?_, hruns, hcontrol, ?_, ?_⟩
  · simp [tryBankEntry, tryBankExit]
  · show Withdrawal (r.grantedMask &&& bank.bit ≠ 0) _ _
    rwa [show r.grantedMask = before.request.grantedMask from hgranted]
  · cases hchanged : before.changedDma with
    | none =>
      rw [hchanged] at hrestored
      exact hrestored
    | some saved =>
      rw [hchanged] at hrestored
      exact hrestored

/-- A failed attempt is the last one unless it asks for a retry. -/
def OnlyAfterRetry (h : List KEvent) (e : KEvent) : Prop :=
  e.1 = .enter .tryBank → ∀ x, (⟨.leave .tryBank x, ()⟩ : KEvent) ∈ h → x = -eAgain

/-- Neither an entry to nor a return from `try_bank`. -/
theorem onlyAfterRetry_of_attempting {h : List KEvent} {e : KEvent} (he : attempting.allows e) :
    OnlyAfterRetry h e := by
  obtain ⟨op, v⟩ := e
  intro henter
  obtain rfl : op = .enter .tryBank := henter
  exact absurd he id

theorem tryBank_onlyAfterRetry {h : List KEvent}
    (hh : ∀ x, (⟨.leave .tryBank x, ()⟩ : KEvent) ∈ h → x = -eAgain) :
    (Monitor.history OnlyAfterRetry).wp (tryBank request policy bank) h fun h' a =>
      ∀ x, (⟨.leave .tryBank x, ()⟩ : KEvent) ∈ h' → x = -eAgain ∨ x = a.2 := by
  have hweaken (e : KEvent) (he : unmasked.allows e) : attempting.allows e :=
    Access.allows_mono (a := unmasked) (b := attempting) (fun _ hr => hr) (fun _ hw => hw)
      (fun hm => hm.elim) (fun _ hf => hf) e he
  have hbody : (maskCpu >>= fun flags => ccnt >>= fun start =>
      beforeRestore { request with stage := stageDma } policy bank >>= fun attempt =>
        finishBank attempt.request bank attempt.changedDma flags start attempt.error).Emits
      attempting.allows := by
    refine Prog.emits_bind (emits_maskCpu trivial) fun flags => ?_
    refine Prog.emits_bind ((Prog.emits_op KOp.ccnt).mpr fun _ => trivial) fun start => ?_
    refine Prog.emits_bind (emits_beforeRestore.mono hweaken) fun attempt => ?_
    exact emits_finishBank trivial (fun _ => trivial) (fun _ => trivial) (fun _ => trivial)
      trivial trivial _ _ _ _ _ _
  rw [tryBank_eq]
  refine Monitor.history_op_bind fun _ => ⟨fun _ => hh, ?_⟩
  refine Monitor.wp_bind.mpr (Monitor.history_wp hbody
    (fun _ _ he => onlyAfterRetry_of_attempting he) hbody.all ?_)
  intro t a ht
  refine Monitor.history_op_bind fun _ => ⟨nofun, fun x hx => ?_⟩
  simp only [List.append_assoc, List.mem_append, List.mem_singleton] at hx
  rcases hx with hx | hx | hx | hx
  · exact .inl (hh x hx)
  · cases hx
  · exact (ht _ hx).elim
  · cases hx
    exact .inr rfl

/-- **No retry.**  `dld_admission_wait` tries a bank again only after
`-EAGAIN`, so never after a restoration that failed. -/
theorem runBank_onlyAfterRetry :
    (Monitor.history OnlyAfterRetry).wp (runBank request policy bank) [] fun _ _ => True := by
  have hquiet (h : List KEvent) (e : KEvent) (he : attempting.allows e)
      (hh : ∀ x, (⟨.leave .tryBank x, ()⟩ : KEvent) ∈ h → x = -eAgain) :
      ∀ x, (⟨.leave .tryBank x, ()⟩ : KEvent) ∈ h ++ [e] → x = -eAgain := by
    intro x hx
    rcases List.mem_append.mp hx with hx | hx
    · exact hh x hx
    · rw [← List.mem_singleton.mp hx] at he
      exact he.elim
  have hloop (deadline : Int) (n : Nat) (request : DldQuietSend) (h : List KEvent)
      (hh : ∀ x, (⟨.leave .tryBank x, ()⟩ : KEvent) ∈ h → x = -eAgain) :
      (Monitor.history OnlyAfterRetry).wp (admissionLoop ktimeGet (bankAdmissionAttempt policy bank)
        usleepRange false deadline n request) h fun _ _ => True := by
    induction n generalizing request h with
    | zero => trivial
    | succ n ih =>
      refine Monitor.history_op_bind fun now => ⟨nofun, Monitor.wp_ite.mpr
        ⟨fun _ => trivial, fun _ => Monitor.wp_bind.mpr (Monitor.wp_bind.mpr ?_)⟩⟩
      refine Monitor.wp_mono (tryBank_onlyAfterRetry (hquiet h _ trivial hh)) ?_
      rintro h' ⟨r, error⟩ hleft
      refine Monitor.wp_ite.mpr ⟨fun hretry => ?_, fun _ => ?_⟩
      · have hleft (x : Int) (hx : (⟨.leave .tryBank x, ()⟩ : KEvent) ∈ h') : x = -eAgain := by
          rcases hleft x hx with hx | hx
          · exact hx
          · exact hx.trans hretry.1
        exact Monitor.history_op_bind fun _ => ⟨nofun, ih r _ (hquiet h' _ trivial hleft)⟩
      · exact Monitor.wp_ite.mpr ⟨fun h => (nomatch h.2), fun _ => trivial⟩
  refine Monitor.history_op_bind fun _ => ⟨nofun, Monitor.wp_bind.mpr ?_⟩
  refine Monitor.history_op_bind fun now => ⟨nofun, Monitor.wp_mono (hloop _ _ request _ ?_) ?_⟩
  · intro x hx
    simp at hx
  · exact fun _ _ _ => Monitor.history_op_bind fun _ => ⟨nofun, trivial⟩

/-! ### The restored state -/

theorem Withdrawal.unmasked {granted : Prop} {error : Int} {t : List KEvent}
    (h : Withdrawal granted error t) : ∀ e ∈ t, unmasked.allows e := by
  by_cases hfailed : error ≠ 0 ∧ granted
  · obtain ⟨clock, rfl⟩ := h.1 hfailed
    split
    · simp [Dld.unmasked, Access.allows]
    · simp [Dld.unmasked, Access.allows]
  · simp [h.2 hfailed]

theorem Withdrawal.control {granted : Prop} {error : Int} {t : List KEvent}
    (h : Withdrawal granted error t) : dmaControl t = [] := by
  by_cases hfailed : error ≠ 0 ∧ granted
  · obtain ⟨clock, rfl⟩ := h.1 hfailed
    split <;> rfl
  · rw [h.2 hfailed]
    rfl

theorem Restoration.unmasked {error : Int} {a : DldQuietSend × Int} {t : List KEvent}
    {changedDma : Option Word} (h : Restoration bank error a t changedDma) :
    ∀ e ∈ t, unmasked.allows e := by
  cases changedDma with
  | none => simp [h.1]
  | some saved =>
    obtain ⟨final, rfl, -⟩ := h
    simp [Dld.unmasked, Access.allows, writeControl, readControl]

/-- Every access of an attempt to CPSW_DMA_CONTROL: none, or one read that
found CMD_IDLE set, or the saved word, CMD_IDLE over it, and the saved word
again, whose failure to come back is reported. -/
def ControlKept (bank : Bank) (a : DldQuietSend × Int) (t : List KEvent) : Prop :=
  t = [] ∨ (∃ v, v &&& cpswCommandIdle ≠ 0 ∧ t = [readControl v]) ∨
  ∃ saved v final, saved &&& cpswCommandIdle = 0 ∧
    t = [readControl saved, writeControl (saved ||| cpswCommandIdle), readControl v,
      writeControl saved, readControl final] ∧
    (final = saved ∨ a.1.dmaRestoreFailedMask &&& bank.bit ≠ 0 ∧ a.2 = -eIo)

/-- What one attempt gives back. -/
structure Restored (request : DldQuietSend) (policy : Bool) (bank : Bank) (t : List KEvent)
    (a : DldQuietSend × Int) : Prop where
  exclusion : ∀ c, exclusion.EnvAlong c t → exclusion.run c t = c
  control : ControlKept bank a (dmaControl t)
  /-- the withdrawal of a granted bank precedes the restoration of CPSW -/
  order : ∃ (flags start now : Word) (body withdrawal restoration : List KEvent)
    (before : Attempt),
    t = tryBankEntry flags start ++ body ++ withdrawal ++ restoration ++
      tryBankExit flags now a.2 ∧
    (beforeRestore { request with stage := stageDma } policy bank).Runs body before ∧
    BankRestored bank body withdrawal restoration before a

theorem exclusion_tryBank {flags start now : Word} {result : Int} {body : List KEvent}
    (hbody : ∀ e ∈ body, unmasked.allows e) (c : Cpu)
    (henv : exclusion.EnvAlong c (tryBankEntry flags start ++ body ++ tryBankExit flags now result)) :
    exclusion.run c (tryBankEntry flags start ++ body ++ tryBankExit flags now result) = c := by
  obtain rfl : flags = c.cpsr := henv.2.2.1
  let masked : Cpu := ⟨c.preempt + 1, c.cpsr ||| irqMask ||| fiqMask⟩
  have hentry : exclusion.run c (tryBankEntry c.cpsr start) = masked := rfl
  rw [Monitor.run_append, Monitor.run_append, hentry, exclusion_run_of_unmasked id hbody]
  have hexit : exclusion.run masked (tryBankExit c.cpsr now result) =
      { masked.irqRestore c.cpsr with preempt := c.preempt + 1 - 1 } := rfl
  rw [hexit]
  have hcpsr : (masked.irqRestore c.cpsr).cpsr = c.cpsr := restored_cpsr c.cpsr
  show Cpu.mk _ _ = c
  rw [hcpsr, Int.add_sub_cancel]

/-- **Restoration.**  Whatever the registers answer, every exit of `try_bank`
restores the interrupt masks and the preemption level; CPSW_DMA_CONTROL is
written only over a word read with CMD_IDLE clear, which comes back or is
reported as `-EIO`; a granted bank that failed is withdrawn first; and
`dld_admission_wait` tries a bank again only after `-EAGAIN`. -/
theorem tryBank_restores :
    (∀ (request : DldQuietSend) (policy : Bool) (bank : Bank) (t : List KEvent)
      (a : DldQuietSend × Int),
      (tryBank request policy bank).Runs t a → Restored request policy bank t a) ∧
    ∀ (request : DldQuietSend) (policy : Bool) (bank : Bank) (t : List KEvent)
      (a : DldQuietSend × Int), (runBank request policy bank).Runs t a →
      ∀ pre e post, t = pre ++ e :: post → OnlyAfterRetry pre e := by
  constructor
  · intro request policy bank t a hrun
    obtain ⟨flags, start, now, body, withdrawal, restoration, before, rfl, hbefore, hbank⟩ :=
      Prog.all_iff.mp tryBank_shape t a hrun
    obtain ⟨hcontrol, hwithdrawn, hrestored⟩ := hbank
    refine ⟨fun c henv => ?_, ?_, _, _, _, _, _, _, _, rfl, hbefore, hcontrol, hwithdrawn, hrestored⟩
    · have hall : ∀ e ∈ body ++ withdrawal ++ restoration, unmasked.allows e := by
        intro e he
        rcases List.mem_append.mp he with he | he
        · rcases List.mem_append.mp he with he | he
          · exact emits_beforeRestore.runs hbefore e he
          · exact hwithdrawn.unmasked e he
        · exact hrestored.unmasked e he
      have happend : tryBankEntry flags start ++ body ++ withdrawal ++ restoration =
          tryBankEntry flags start ++ (body ++ withdrawal ++ restoration) := by simp
      rw [happend] at henv ⊢
      exact exclusion_tryBank hall c henv
    · have hentry : dmaControl (tryBankEntry flags start) = [] := rfl
      have hexit : dmaControl (tryBankExit flags now a.2) = [] := rfl
      simp only [dmaControl_append, hentry, hexit, hwithdrawn.control, List.nil_append,
        List.append_nil]
      cases hchanged : before.changedDma with
      | none =>
        rw [hchanged] at hcontrol hrestored
        rw [hrestored.1]
        rcases hcontrol with hnil | ⟨v, hidle, hread⟩
        · exact .inl (by rw [hnil]; rfl)
        · exact .inr (.inl ⟨v, hidle, by rw [hread]; rfl⟩)
      | some saved =>
        rw [hchanged] at hcontrol hrestored
        obtain ⟨hidle, v, hseen⟩ := hcontrol
        obtain ⟨final, rfl, -, hfailed⟩ := hrestored
        refine .inr (.inr ⟨saved, v, final, hidle, ?_, ?_⟩)
        · rw [hseen]
          rfl
        · by_cases hfinal : final = saved
          · exact .inl hfinal
          · exact .inr (hfailed hfinal)
  · rintro request policy bank t a hrun pre e post rfl
    exact (Monitor.history_runs runBank_onlyAfterRetry hrun).1 pre e post rfl

/-- The grant of a bank on a cooperative board. -/
theorem tryBank_restores_oneBank :
    Restored oneBankRequest true .gpio0
      ((tryBank oneBankRequest true .gpio0).execWith Board.answer oneBankBoard).1
      ((tryBank oneBankRequest true .gpio0).execWith Board.answer oneBankBoard).2 ∧
    ∀ pre e post, ((runBank oneBankRequest true .gpio0).execWith Board.answer oneBankBoard).1 =
      pre ++ e :: post → OnlyAfterRetry pre e :=
  ⟨tryBank_restores.1 _ _ _ _ _ (Prog.execWith_runs Board.answer oneBankBoard _),
    tryBank_restores.2 _ _ _ _ _ (Prog.execWith_runs Board.answer oneBankBoard _)⟩

end Restore

end Dld
