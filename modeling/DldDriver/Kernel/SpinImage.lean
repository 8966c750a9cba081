/-
DldDriver/Kernel/SpinImage.lean

What an audited image does.  The processor runs the words of a listing that
passes `kernel/audit_quiet.py`, loaded anywhere, from the Thumb veneer on;
whatever the cycle counter and the mailbox answer, it performs the accesses
of `dldQuietBankEntry` and no others, and returns its result by the calling
convention.

    frame c m r f k    the processor k bytes behind the veneer, called in c,
                       with the registers r of the routine

The lemmas follow the labels of `kernel/dld_quiet_spin.S`, each in the
style of a continuation: what realizes `g` from the next label on realizes the
rest of the program from here.
-/
import Mathlib.Tactic.IntervalCases
import DldDriver.Arm.Isa
import DldDriver.Interaction.Realizes
import DldDriver.Kernel.QuietSpin
import DldDriver.Kernel.SpinAudit

namespace Dld

open Interaction

/-! ### The helper's bus -/

/-- The words of the mailbox. -/
def mailboxWords : List Off :=
  [.magic, .abiVersion, .profileId, .lengths 0, .lengths 1, .lengths 2, .lengths 3, .lengths 4,
    .lengths 5, .wireColor, .requestSeq, .completionSeq, .status, .errorDetail, .bankReady,
    .bankGrant, .bankDone, .acceptedSeq]

/-- The word of the mailbox at an address. -/
def mailboxWord (mailbox address : Word) : Option Off :=
  mailboxWords.find? fun off => mailbox + BitVec.ofNat 32 off.bytes = address

/-- The devices of the routine: the mailbox and the cycle counter. -/
def helperBus (word : Word → Option Word) (half : Word → Option (BitVec 16)) (mailbox : Word) :
    Arm.Bus KOp KOp.Res where
  word := word
  half := half
  load address := (mailboxWord mailbox address).map fun off => readl (.mailbox off)
  store address value := (mailboxWord mailbox address).map fun off => writel value (.mailbox off)
  counter := ccnt
  barrier := kop .barrier

theorem mailboxWord_bankGrant (mailbox : Word) :
    mailboxWord mailbox (mailbox + 60) = some .bankGrant := by
  simp only [mailboxWord, mailboxWords, List.find?, Off.bytes, BitVec.add_right_inj]
  rfl

theorem mailboxWord_bankDone (mailbox : Word) :
    mailboxWord mailbox (mailbox + 64) = some .bankDone := by
  simp only [mailboxWord, mailboxWords, List.find?, Off.bytes, BitVec.add_right_inj]
  rfl

/-- The processor at a call of the routine through its veneer, with the
image of the listing at `base`. -/
structure SpinCall (l : Listing) (base mailbox : Word) (word : Word → Option Word)
    (half : Word → Option (BitVec 16)) (c : Arm.Cpu) : Prop where
  aligned : base &&& 63 = 0
  words : ∀ n w, l.words n = some w → word (base + BitVec.ofNat 32 n) = some w
  halfwords : ∀ n w, l.halfwords n = some w → half (base + BitVec.ofNat 32 n) = some w
  pc : c.pc = base + BitVec.ofNat 32 (l.label "bank_entry")
  thumb : c.thumb = true
  r0 : c.regs.r0 = mailbox
  mailboxAligned : mailbox &&& 3 = 0
  stackAligned : c.regs.sp &&& 3 = 0
  /-- the stack is no part of the mailbox -/
  stack : ∀ i ∈ [(4 : Word), 8, 12, 16, 20, 24], mailboxWord mailbox (c.regs.sp - i) = none
  /-- the caller is in Thumb state, and not the routine itself -/
  lr : c.regs.lr.getLsbD 0 = true
  outside : 232 ≤ (c.regs.lr &&& ~~~1) - c.pc

/-- The processor after the call, back in the caller with the result. -/
structure SpinReturn (c : Arm.Cpu) (c' : Arm.Cpu) (result : Word × Word) : Prop where
  r0 : c'.regs.r0 = result.1
  r1 : c'.regs.r1 = result.2
  /-- the registers that a callee keeps -/
  kept : ∀ i, 4 ≤ i → i < 15 → c'.regs.get 0 i = c.regs.get 0 i
  pc : c'.pc = c.regs.lr &&& ~~~1
  thumb : c'.thumb = true
  /-- memory but for the six words below the stack pointer -/
  mem : ∀ address, (∀ i ∈ [(4 : Word), 8, 12, 16, 20, 24], address ≠ c.regs.sp - i) →
    c'.mem address = c.mem address

namespace Spin

/-- The processor `k` bytes behind the veneer. -/
def frame (c : Arm.Cpu) (m : Word → Word) (mailbox : Word) (r : SpinRegs) (f : Arm.Flags) (k : Nat) :
    Arm.Cpu where
  regs := { c.regs with
    r0 := r.r0, r1 := r.r1, r2 := r.r2, r3 := r.r3, r4 := r.r4, r5 := r.r5, r6 := mailbox
    r7 := r.r7, r8 := r.r8, sp := c.regs.sp - 24 }
  flags := f
  pc := c.pc + BitVec.ofNat 32 k
  thumb := false
  mem := m

/-- The routine. -/
def Inside (c x : Arm.Cpu) : Prop := x.pc - c.pc < 232

section Steps

variable {bus : Arm.Bus KOp KOp.Res} {c : Arm.Cpu} {m : Word → Word} {mailbox : Word}
variable {β : Type} {R : Arm.Cpu → β → Prop} {p : KProg β}
variable {r : SpinRegs} {f : Arm.Flags} {k : Nat} {w : Word} {i : Arm.Instr}

/-- The words of the routine are where the processor looks for them. -/
def Fetches (bus : Arm.Bus KOp KOp.Res) (c : Arm.Cpu) : Prop :=
  ∀ p ∈ spinWords, bus.word (c.pc + BitVec.ofNat 32 p.1) = some p.2

/-- From the processor `x` on the routine realizes `p`. -/
abbrev At (bus : Arm.Bus KOp KOp.Res) (c : Arm.Cpu) (R : Arm.Cpu → β → Prop) (x : Arm.Cpu)
    (p : KProg β) : Prop :=
  Machine.Realizes (Arm.code bus) (Inside c) R (.ret (some x)) p

theorem inside_of_mem {x : Arm.Cpu} (hk : (k, w) ∈ spinWords)
    (hpc : x.pc = c.pc + BitVec.ofNat 32 k) : Inside c x := by
  have hall : ∀ p ∈ spinWords, BitVec.ofNat 32 p.1 < 232 := by decide
  have hsub : x.pc - c.pc = BitVec.ofNat 32 k := by rw [hpc, BitVec.add_comm, BitVec.add_sub_cancel]
  show x.pc - c.pc < 232
  rw [hsub]
  exact hall _ hk

/-- An instruction of the routine that is always executed. -/
theorem at_step {x : Arm.Cpu} (hw : Fetches bus c) (hk : (k, w) ∈ spinWords)
    (hpc : x.pc = c.pc + BitVec.ofNat 32 k) (harm : x.thumb = false)
    (hdecode : Arm.decode w = some i) (hcond : 14 ≤ Arm.condition w)
    (h : Machine.Realizes (Arm.code bus) (Inside c) R (Arm.execute bus x i) p) :
    At bus c R x p := by
  refine .jump (inside_of_mem hk hpc) ?_
  have hword : bus.word x.pc = some w := by
    rw [hpc]
    exact hw _ hk
  rw [Arm.code_always harm hword hdecode hcond]
  exact h

theorem next_frame : (frame c m mailbox r f k).next = frame c m mailbox r f (k + 4) := by
  have hpc : c.pc + BitVec.ofNat 32 k + 4 = c.pc + BitVec.ofNat 32 (k + 4) := by
    rw [BitVec.add_assoc, BitVec.ofNat_add]
    rfl
  simp only [frame, Arm.Cpu.next, hpc]

/-- A register instruction. -/
theorem at_register (w : Word) (i : Arm.Instr) (r' : SpinRegs) (f' : Arm.Flags)
    (hw : Fetches bus c) (hk : (k, w) ∈ spinWords) (hdecode : Arm.decode w = some i)
    (hcond : 14 ≤ Arm.condition w)
    (hexec : Arm.execute bus (frame c m mailbox r f k) i =
      .ret (some (frame c m mailbox r' f' k).next))
    (h : At bus c R (frame c m mailbox r' f' (k + 4)) p) :
    At bus c R (frame c m mailbox r f k) p := by
  refine at_step hw hk rfl rfl hdecode hcond ?_
  rw [hexec, next_frame]
  exact h

/-- A branch of the routine. -/
theorem at_branch (w offset : Word) (target : Nat) (hw : Fetches bus c) (hk : (k, w) ∈ spinWords)
    (hdecode : Arm.decode w = some (.branch offset))
    (htarget : BitVec.ofNat 32 k + 8 + offset = BitVec.ofNat 32 target)
    (htaken : Arm.condition w = 15 ∨ f.holds (Arm.condition w) = true →
      At bus c R (frame c m mailbox r f target) p)
    (hfalls : ¬ (Arm.condition w = 15 ∨ f.holds (Arm.condition w) = true) →
      At bus c R (frame c m mailbox r f (k + 4)) p) :
    At bus c R (frame c m mailbox r f k) p := by
  refine .jump (inside_of_mem hk rfl) ?_
  have hword : bus.word (frame c m mailbox r f k).pc = some w := hw _ hk
  have hflags : (frame c m mailbox r f k).flags = f := rfl
  rw [Arm.code_eq rfl hword hdecode, hflags]
  split
  · have hpc : c.pc + BitVec.ofNat 32 k + 8 + offset = c.pc + BitVec.ofNat 32 target := by
      rw [BitVec.add_assoc, BitVec.add_assoc, ← htarget, BitVec.add_assoc]
    have hexec : Arm.execute bus (frame c m mailbox r f k) (.branch offset) =
        .ret (some (frame c m mailbox r f target)) := by
      show Prog.ret (some { frame c m mailbox r f k with pc := c.pc + BitVec.ofNat 32 k + 8 + offset }) = _
      rw [hpc]
      rfl
    rw [hexec]
    exact htaken ‹_›
  · rw [next_frame]
    exact hfalls ‹_›

end Steps

section Labels

variable {word : Word → Option Word} {half : Word → Option (BitVec 16)} {c : Arm.Cpu}
variable {m : Word → Word} {mailbox : Word} {β : Type} {R : Arm.Cpu → β → Prop}
variable {r : SpinRegs} {f : Arm.Flags}

/-- A branch that is always taken. -/
theorem at_goto {bus : Arm.Bus KOp KOp.Res} {p : KProg β} {k : Nat} (w offset : Word) (target : Nat)
    (hw : Fetches bus c) (hk : (k, w) ∈ spinWords) (hdecode : Arm.decode w = some (.branch offset))
    (hcond : Arm.condition w = 14)
    (htarget : BitVec.ofNat 32 k + 8 + offset = BitVec.ofNat 32 target)
    (h : At bus c R (frame c m mailbox r f target) p) : At bus c R (frame c m mailbox r f k) p := by
  refine at_branch w offset target hw hk hdecode htarget (fun _ => h) fun hfalls => absurd ?_ hfalls
  rw [hcond]
  exact .inr rfl

/-- A reading of the cycle counter into `r4` or `r5`. -/
theorem at_counter {g : Word → KProg β} {k : Nat} (w : Word) (rt : Nat) (r' : Word → SpinRegs)
    (hw : Fetches (helperBus word half mailbox) c) (hk : (k, w) ∈ spinWords)
    (hdecode : Arm.decode w = some (.counter rt)) (hcond : Arm.condition w = 14)
    (hset : ∀ v, (frame c m mailbox r f k).set rt v = frame c m mailbox (r' v) f k)
    (h : ∀ v, At (helperBus word half mailbox) c R (frame c m mailbox (r' v) f (k + 4)) (g v)) :
    At (helperBus word half mailbox) c R (frame c m mailbox r f k) (ccnt >>= g) := by
  refine at_step hw hk rfl rfl hdecode (by omega) (.op fun v => ?_)
  show At (helperBus word half mailbox) c R ((frame c m mailbox r f k).set rt v).next (g v)
  rw [hset, next_frame]
  exact h v

/-- One pass of the loop. -/
theorem at_pass {g : Word → KProg β} (hw : Fetches (helperBus word half mailbox) c)
    (hreached : ∀ now f', now - r.r4 ≥ r.r2 → At (helperBus word half mailbox) c R
      (frame c m mailbox { r with r5 := now - r.r4 } f' 172) (g now))
    (hmore : ∀ now f', ¬ now - r.r4 ≥ r.r2 → r.r3 - 1 ≠ 0 → At (helperBus word half mailbox) c R
      (frame c m mailbox { r with r3 := r.r3 - 1, r5 := now - r.r4 } f' 144) (g now))
    (hexpired : ∀ now f', ¬ now - r.r4 ≥ r.r2 → r.r3 - 1 = 0 → At (helperBus word half mailbox) c R
      (frame c m mailbox { r with r3 := r.r3 - 1, r5 := (now - r.r4) ||| 0x80000000 } f' 172) (g now)) :
    At (helperBus word half mailbox) c R (frame c m mailbox r f 144) (ccnt >>= g) := by
  apply at_counter 0xee195f1d 5 (fun v => { r with r5 := v }) hw (by decide) rfl rfl fun _ => rfl
  intro now
  -- sub r5, r5, r4; cmp r5, r2
  apply at_register 0xe0455004 (.sub false 5 5 (.reg 4)) { r with r5 := now - r.r4 } f hw (by decide)
    rfl (by decide) rfl
  apply at_register 0xe1550002 (.cmp 5 (.reg 2)) { r with r5 := now - r.r4 }
    (Arm.Cpu.subFlags (now - r.r4) r.r2) hw (by decide) rfl (by decide) rfl
  -- bhs .Lloop_end
  apply at_branch 0x2a000002 8 172 hw (by decide) rfl (by decide)
  · intro htaken
    refine hreached now _ ?_
    have htaken := htaken.resolve_left (by decide)
    exact of_decide_eq_true htaken
  intro hfalls
  have hless : ¬ now - r.r4 ≥ r.r2 := fun h => hfalls (.inr (decide_eq_true h))
  -- subs r3, r3, #1
  apply at_register 0xe2533001 (.sub true 3 3 (.imm 1 false))
    { r with r3 := r.r3 - 1, r5 := now - r.r4 } (Arm.Cpu.subFlags r.r3 1) hw (by decide) rfl
    (by decide) rfl
  -- bne .Lloop_begin
  apply at_branch 0x1afffff9 (-28) 144 hw (by decide) rfl (by decide)
  · intro htaken
    refine hmore now _ hless fun hzero => ?_
    have htaken := htaken.resolve_left (by decide)
    have hclear : (!decide (r.r3 - 1 = 0)) = true := htaken
    rw [hzero] at hclear
    exact absurd hclear (by decide)
  intro hfalls
  have hzero : r.r3 - 1 = 0 := by
    by_contra hne
    refine hfalls (.inr ?_)
    show (!decide (r.r3 - 1 = 0)) = true
    rw [decide_eq_false hne]
    rfl
  -- orr r5, r5, #0x80000000
  apply at_register 0xe3855102 (.orr false 5 5 (.imm 0x80000000 true))
    { r with r3 := r.r3 - 1, r5 := (now - r.r4) ||| 0x80000000 } (Arm.Cpu.subFlags r.r3 1) hw
    (by decide) rfl (by decide) rfl
  exact hexpired now _ hless hzero

/-- `.Lloop_begin`, with the iterations left: the exits go to `.Lloop_end`. -/
theorem at_loopBegin {n : Nat} {g : Word → KProg β} (hw : Fetches (helperBus word half mailbox) c)
    (hn : (r.r3 - 1).toNat = n)
    (hend : ∀ r3 r5 f', At (helperBus word half mailbox) c R
      (frame c m mailbox { r with r3 := r3, r5 := r5 } f' 172) (g r5)) :
    At (helperBus word half mailbox) c R (frame c m mailbox r f 144)
      (timerLoop r.r2 r.r4 n >>= g) := by
  induction n generalizing r f with
  | zero =>
    have hlast : r.r3 - 1 = 0 := (guard_zero_iff _).mpr hn
    show At _ c R _ ((ccnt >>= _) >>= g)
    rw [bind_assoc]
    apply at_pass hw
    · intro now f' hreached
      show At _ c R _ ((if now - r.r4 ≥ r.r2 then _ else _) >>= g)
      rw [if_pos hreached]
      exact hend r.r3 _ f'
    · intro now f' _ hmore
      exact absurd hlast hmore
    · intro now f' hless _
      show At _ c R _ ((if now - r.r4 ≥ r.r2 then _ else _) >>= g)
      rw [if_neg hless]
      exact hend _ _ f'
  | succ n ih =>
    have hmore : r.r3 - 1 ≠ 0 := fun h0 => by
      have := (guard_zero_iff _).mp h0
      omega
    show At _ c R _ ((ccnt >>= _) >>= g)
    rw [bind_assoc]
    apply at_pass hw
    · intro now f' hreached
      show At _ c R _ ((if now - r.r4 ≥ r.r2 then _ else _) >>= g)
      rw [if_pos hreached]
      exact hend r.r3 _ f'
    · intro now f' hless _
      show At _ c R _ ((if now - r.r4 ≥ r.r2 then _ else _) >>= g)
      rw [if_neg hless]
      apply ih (r := { r with r3 := r.r3 - 1, r5 := now - r.r4 }) (guard_succ hn)
      exact fun r3 r5 f' => hend r3 r5 f'
    · intro now f' _ hzero
      exact absurd hzero hmore

/-- `.Ltimer_start` -/
theorem at_timerStart {g : Word → KProg β} (hw : Fetches (helperBus word half mailbox) c)
    (hend : ∀ r3 r4 r5 f', At (helperBus word half mailbox) c R
      (frame c m mailbox { r with r3 := r3, r4 := r4, r5 := r5 } f' 172) (g r5)) :
    At (helperBus word half mailbox) c R (frame c m mailbox r f 140)
      (timerStart r.r2 r.r3 >>= g) := by
  rw [timerStart, bind_assoc]
  apply at_counter 0xee194f1d 4 (fun v => { r with r4 := v }) hw (by decide) rfl rfl fun _ => rfl
  intro now
  exact at_loopBegin (r := { r with r4 := now }) hw rfl fun r3 r5 f' => hend r3 now r5 f'

theorem aligned_iff (x : Word) : x &&& 3 = 0 ↔ x.toNat % 4 = 0 := by
  rw [← BitVec.toNat_inj, BitVec.toNat_and, show (3 : Word).toNat = 2 ^ 2 - 1 from rfl,
    Nat.and_two_pow_sub_one_eq_mod]
  rfl

/-- A barrier. -/
theorem at_barrier {g : Unit → KProg β} {k : Nat} {w : Word}
    (hw : Fetches (helperBus word half mailbox) c) (hk : (k, w) ∈ spinWords)
    (hdecode : Arm.decode w = some .barrier) (hcond : Arm.condition w = 15)
    (h : At (helperBus word half mailbox) c R (frame c m mailbox r f (k + 4)) (g ())) :
    At (helperBus word half mailbox) c R (frame c m mailbox r f k) (kop .barrier >>= g) := by
  refine at_step hw hk rfl rfl hdecode (by omega) (.op fun _ => ?_)
  show At _ c R (frame c m mailbox r f k).next _
  rw [next_frame]
  exact h

theorem aligned_mailbox {offset : Word} (h : mailbox &&& 3 = 0) (hoffset : offset.toNat % 4 = 0) :
    ¬ (mailbox + offset) &&& 3 ≠ 0 := by
  rw [aligned_iff] at h
  rw [not_not, aligned_iff]
  bv_omega

/-- `str r1, [r6, #DLD_OFF_BANK_GRANT]` -/
theorem at_grant {g : Unit → KProg β} (hw : Fetches (helperBus word half mailbox) c)
    (hmailbox : mailbox &&& 3 = 0)
    (h : At (helperBus word half mailbox) c R (frame c m mailbox r f 136) (g ())) :
    At (helperBus word half mailbox) c R (frame c m mailbox r f 132)
      (writel r.r1 (.mailbox .bankGrant) >>= g) := by
  refine at_step (w := 0xe586103c) (i := .str 1 6 60) hw (by decide) rfl rfl rfl (by decide) ?_
  have hwrite : (frame c m mailbox r f 132).writeWord (helperBus word half mailbox) (mailbox + 60) r.r1 =
      (do
        writel r.r1 (.mailbox .bankGrant)
        pure (some (frame c m mailbox r f 132))) := by
    have hstore : (helperBus word half mailbox).store (mailbox + 60) r.r1 =
        some (writel r.r1 (.mailbox .bankGrant)) := by
      show (mailboxWord mailbox (mailbox + 60)).map _ = _
      rw [mailboxWord_bankGrant]
      rfl
    rw [Arm.Cpu.writeWord, if_neg (aligned_mailbox hmailbox rfl), hstore]
  show Machine.Realizes _ _ R ((frame c m mailbox r f 132).writeWord _ (mailbox + 60) r.r1 >>= _) _
  rw [hwrite, bind_assoc]
  refine .op fun _ => ?_
  show At _ c R (frame c m mailbox r f 132).next _
  rw [next_frame]
  exact h

/-- `ldr r0, [r6, #DLD_OFF_BANK_DONE]` -/
theorem at_observe {g : Word → KProg β} (hw : Fetches (helperBus word half mailbox) c)
    (hmailbox : mailbox &&& 3 = 0)
    (h : ∀ v, At (helperBus word half mailbox) c R
      (frame c m mailbox { r with r0 := v } f 212) (g v)) :
    At (helperBus word half mailbox) c R (frame c m mailbox r f 208)
      (readl (.mailbox .bankDone) >>= g) := by
  refine at_step (w := 0xe5960040) (i := .ldr 0 6 64) hw (by decide) rfl rfl rfl (by decide) ?_
  have hread : (frame c m mailbox r f 208).readWord (helperBus word half mailbox) (mailbox + 64) =
      some <$> readl (.mailbox .bankDone) := by
    have hload : (helperBus word half mailbox).load (mailbox + 64) =
        some (readl (.mailbox .bankDone)) := by
      show (mailboxWord mailbox (mailbox + 64)).map _ = _
      rw [mailboxWord_bankDone]
      rfl
    rw [Arm.Cpu.readWord, if_neg (aligned_mailbox hmailbox rfl), hload]
  show Machine.Realizes _ _ R ((frame c m mailbox r f 208).readWord _ (mailbox + 64) >>= _) _
  rw [hread]
  refine .op fun v => ?_
  show At _ c R (frame c m mailbox { r with r0 := v } f 208).next _
  rw [next_frame]
  exact h v

/-! #### The stack -/

/-- Memory after `push {r4-r8, lr}`. -/
def pushed (c : Arm.Cpu) : Word → Word :=
  let m := Function.update c.mem (c.regs.sp - 24) c.regs.r4
  let m := Function.update m (c.regs.sp - 20) c.regs.r5
  let m := Function.update m (c.regs.sp - 16) c.regs.r6
  let m := Function.update m (c.regs.sp - 12) c.regs.r7
  let m := Function.update m (c.regs.sp - 8) c.regs.r8
  Function.update m (c.regs.sp - 4) c.regs.lr

theorem pushed_apply (c : Arm.Cpu) :
    pushed c (c.regs.sp - 24) = c.regs.r4 ∧ pushed c (c.regs.sp - 20) = c.regs.r5 ∧
      pushed c (c.regs.sp - 16) = c.regs.r6 ∧ pushed c (c.regs.sp - 12) = c.regs.r7 ∧
      pushed c (c.regs.sp - 8) = c.regs.r8 ∧ pushed c (c.regs.sp - 4) = c.regs.lr := by
  have hne {i j : Word} (h : i ≠ j) : c.regs.sp - i ≠ c.regs.sp - j := by
    intro heq
    exact h (by bv_omega)
  simp [pushed, hne]

theorem pushed_other {address : Word}
    (h : ∀ i ∈ [(4 : Word), 8, 12, 16, 20, 24], address ≠ c.regs.sp - i) :
    pushed c address = c.mem address := by
  simp only [List.forall_mem_cons] at h
  obtain ⟨h4, h8, h12, h16, h20, h24, -⟩ := h
  simp only [pushed, Function.update_of_ne h4, Function.update_of_ne h8, Function.update_of_ne h12,
    Function.update_of_ne h16, Function.update_of_ne h20, Function.update_of_ne h24]

end Labels

/-! #### One call -/

section Call

variable {l : Listing} {base mailbox : Word} {word : Word → Option Word}
variable {half : Word → Option (BitVec 16)} {c : Arm.Cpu} {r : SpinRegs} {f : Arm.Flags}

/-- The words of an accepted listing are where the processor looks for them. -/
theorem fetches_of_call (hl : AcceptedListing l) (h : SpinCall l base mailbox word half c) :
    Fetches (helperBus word half mailbox) c := by
  intro p hp
  have hword := h.words _ _ (hl.words p hp)
  rw [BitVec.ofNat_add, ← BitVec.add_assoc, ← h.pc] at hword
  exact hword

/-- The six words of the stack are memory. -/
theorem stack_word (h : SpinCall l base mailbox word half c) {i : Word}
    (hi : i ∈ [(4 : Word), 8, 12, 16, 20, 24]) :
    ¬ (c.regs.sp - i) &&& 3 ≠ 0 ∧ (helperBus word half mailbox).load (c.regs.sp - i) = none ∧
      ∀ v, (helperBus word half mailbox).store (c.regs.sp - i) v = none := by
  have hnone := h.stack i hi
  refine ⟨?_, ?_, fun v => ?_⟩
  · have haligned := h.stackAligned
    have hfour : ∀ i ∈ [(4 : Word), 8, 12, 16, 20, 24], i.toNat % 4 = 0 := by simp
    have hi := hfour i hi
    rw [aligned_iff] at haligned
    rw [not_not, aligned_iff]
    bv_omega
  · show (mailboxWord mailbox _).map _ = _
    rw [hnone]
    rfl
  · show (mailboxWord mailbox _).map _ = _
    rw [hnone]
    rfl

theorem readWord_stack (h : SpinCall l base mailbox word half c) {x : Arm.Cpu} {i : Word}
    (hi : i ∈ [(4 : Word), 8, 12, 16, 20, 24]) :
    x.readWord (helperBus word half mailbox) (c.regs.sp - i) =
      pure (some (x.mem (c.regs.sp - i))) := by
  obtain ⟨haligned, hload, -⟩ := stack_word h hi
  rw [Arm.Cpu.readWord, if_neg haligned, hload]

theorem writeWord_stack (h : SpinCall l base mailbox word half c) {x : Arm.Cpu} {i v : Word}
    (hi : i ∈ [(4 : Word), 8, 12, 16, 20, 24]) :
    x.writeWord (helperBus word half mailbox) (c.regs.sp - i) v =
      pure (some { x with mem := Function.update x.mem (c.regs.sp - i) v }) := by
  obtain ⟨haligned, -, hstore⟩ := stack_word h hi
  rw [Arm.Cpu.writeWord, if_neg haligned, hstore]

/-- The processor behind `pop {r4-r8, pc}`. -/
def popped (c : Arm.Cpu) (r : SpinRegs) (f : Arm.Flags) : Arm.Cpu where
  regs := { c.regs with r0 := r.r0, r1 := r.r1, r2 := r.r2, r3 := r.r3 }
  flags := f
  pc := c.regs.lr &&& ~~~1
  thumb := true
  mem := pushed c

/-- The addresses of a multiple transfer ascend. -/
theorem stack_addresses (sp : Word) :
    sp - 24 + 4 = sp - 20 ∧ sp - 20 + 4 = sp - 16 ∧ sp - 16 + 4 = sp - 12 ∧ sp - 12 + 4 = sp - 8 ∧
      sp - 8 + 4 = sp - 4 := by
  refine ⟨?_, ?_, ?_, ?_, ?_⟩ <;> bv_omega

theorem execute_pop (h : SpinCall l base mailbox word half c) {k : Nat} :
    Arm.execute (helperBus word half mailbox) (frame c (pushed c) mailbox r f k)
      (.pop [4, 5, 6, 7, 8, 15]) = .ret (some (popped c r f)) := by
  obtain ⟨h20, h16, h12, h8, h4⟩ := stack_addresses c.regs.sp
  obtain ⟨hr4, hr5, hr6, hr7, hr8, hlr⟩ := pushed_apply c
  have hload : (frame c (pushed c) mailbox r f k).loadAll (helperBus word half mailbox)
      (c.regs.sp - 24) [4, 5, 6, 7, 8, 15] =
      .ret (some [c.regs.r4, c.regs.r5, c.regs.r6, c.regs.r7, c.regs.r8, c.regs.lr]) := by
    have hmem : (frame c (pushed c) mailbox r f k).mem = pushed c := rfl
    simp only [Arm.Cpu.loadAll, h20, h16, h12, h8, h4,
      readWord_stack h (i := 24) (by simp), readWord_stack h (i := 20) (by simp),
      readWord_stack h (i := 16) (by simp), readWord_stack h (i := 12) (by simp),
      readWord_stack h (i := 8) (by simp), readWord_stack h (i := 4) (by simp), pure_bind, hmem,
      hr4, hr5, hr6, hr7, hr8, hlr]
    rfl
  have hsp : c.regs.sp - 24 + 24 = c.regs.sp := BitVec.sub_add_cancel _ _
  show ((frame c (pushed c) mailbox r f k).loadAll _ (c.regs.sp - 24) [4, 5, 6, 7, 8, 15] >>= _) = _
  rw [hload]
  show Prog.ret (Arm.Cpu.interwork _ c.regs.lr) = _
  rw [Arm.Cpu.interwork, if_pos h.lr]
  show Prog.ret (some (Arm.Cpu.mk { c.regs with
    r0 := r.r0, r1 := r.r1, r2 := r.r2, r3 := r.r3, sp := c.regs.sp - 24 + 24 } f _ _ _)) = _
  rw [hsp]
  rfl

theorem spinReturn_popped :
    SpinReturn c (popped c r f) (r.r0, r.r1) where
  r0 := rfl
  r1 := rfl
  kept := by
    intro i hlow hhigh
    interval_cases i <;> rfl
  pc := rfl
  thumb := rfl
  mem := fun _ haddress => pushed_other haddress

/-- `pop {r4-r8, pc}` -/
theorem at_pop (hl : AcceptedListing l) (h : SpinCall l base mailbox word half c) {k : Nat}
    (hk : (k, 0xe8bd81f0) ∈ spinWords) :
    At (helperBus word half mailbox) c (SpinReturn c) (frame c (pushed c) mailbox r f k)
      (.ret (r.r0, r.r1)) := by
  refine at_step (i := .pop [4, 5, 6, 7, 8, 15]) (fetches_of_call hl h) hk rfl rfl rfl (by decide) ?_
  rw [execute_pop h]
  refine .leave ?_ spinReturn_popped
  exact BitVec.not_lt.mpr h.outside

/-- `.Lobserve` -/
theorem at_lobserve (hl : AcceptedListing l) (h : SpinCall l base mailbox word half c) :
    At (helperBus word half mailbox) c (SpinReturn c) (frame c (pushed c) mailbox r f 204) (do
      kop .barrier
      let observed ← readl (.mailbox .bankDone)
      pure (observed, r.r5)) := by
  have hw := fetches_of_call hl h
  apply at_barrier (w := 0xf57ff05f) hw (by decide) rfl rfl
  apply at_observe hw h.mailboxAligned
  intro observed
  apply at_register 0xe1a01005 (.mov false 1 (.reg 5)) { r with r0 := observed, r1 := r.r5 } f hw
    (by decide) rfl (by decide) rfl
  exact at_pop hl h (by decide)

/-- `dld_quiet_warm_failed` -/
theorem at_warmFailed (hl : AcceptedListing l) (h : SpinCall l base mailbox word half c) :
    At (helperBus word half mailbox) c (SpinReturn c) (frame c (pushed c) mailbox r f 220)
      (.ret (0, r.r5 ||| 0x40000000)) := by
  have hw := fetches_of_call hl h
  apply at_register 0xe3a00000 (.mov false 0 (.imm 0 false)) { r with r0 := 0 } f hw (by decide) rfl
    (by decide) rfl
  apply at_register 0xe3851101 (.orr false 1 5 (.imm 0x40000000 true))
    { r with r0 := 0, r1 := r.r5 ||| 0x40000000 } f hw (by decide) rfl (by decide) rfl
  exact at_pop hl h (by decide)

/-- `.Lloop_end`, the second time. -/
theorem at_loopEnd_timed (hl : AcceptedListing l) (h : SpinCall l base mailbox word half c) (hr0 : r.r0 ≠ 0) :
    At (helperBus word half mailbox) c (SpinReturn c) (frame c (pushed c) mailbox r f 172) (do
      kop .barrier
      let observed ← readl (.mailbox .bankDone)
      pure (observed, r.r5)) := by
  have hw := fetches_of_call hl h
  apply at_register 0xe3500000 (.cmp 0 (.imm 0 false)) r (Arm.Cpu.subFlags r.r0 0) hw (by decide) rfl
    (by decide) rfl
  apply at_branch 0x1a000005 20 204 hw (by decide) rfl (by decide)
  · intro _
    exact at_lobserve hl h
  · intro hfalls
    refine absurd (.inr ?_) hfalls
    have hsub : r.r0 - 0 = r.r0 := BitVec.sub_zero _
    show (!decide (r.r0 - 0 = 0)) = true
    rw [hsub, decide_eq_false hr0]
    rfl

/-- `.Lgrant_begin` -/
theorem at_grantBegin (hl : AcceptedListing l) (h : SpinCall l base mailbox word half c) (hr0 : r.r0 ≠ 0) :
    At (helperBus word half mailbox) c (SpinReturn c) (frame c (pushed c) mailbox r f 128) (do
      kop .barrier
      writel r.r1 (.mailbox .bankGrant)
      kop .barrier
      let elapsed ← timerStart r.r2 r.r3
      kop .barrier
      let observed ← readl (.mailbox .bankDone)
      pure (observed, elapsed)) := by
  have hw := fetches_of_call hl h
  apply at_barrier (w := 0xf57ff04f) hw (by decide) rfl rfl
  apply at_grant hw h.mailboxAligned
  apply at_barrier (w := 0xf57ff04f) hw (by decide) rfl rfl
  apply at_timerStart hw
  intro r3 r4 r5 f'
  exact at_loopEnd_timed (r := { r with r3 := r3, r4 := r4, r5 := r5 }) hl h hr0

/-- `.Lloop_end`, the first time. -/
theorem at_loopEnd_warm (hl : AcceptedListing l) (h : SpinCall l base mailbox word half c) (hr0 : r.r0 = 0) :
    At (helperBus word half mailbox) c (SpinReturn c) (frame c (pushed c) mailbox r f 172)
      (afterWarm r.r1 r.r7 r.r8 r.r5) := by
  have hw := fetches_of_call hl h
  apply at_register 0xe3500000 (.cmp 0 (.imm 0 false)) r (Arm.Cpu.subFlags r.r0 0) hw (by decide) rfl
    (by decide) rfl
  apply at_branch 0x1a000005 20 204 hw (by decide) rfl (by decide)
  · intro htaken
    have htaken : (!decide (r.r0 - 0 = 0)) = true := htaken.resolve_left (by decide)
    rw [hr0] at htaken
    exact absurd htaken (by decide)
  intro _
  -- tst r5, #0x80000000
  apply at_register 0xe3150102 (.tst 5 (.imm 0x80000000 true)) r
    ((frame c (pushed c) mailbox r (Arm.Cpu.subFlags r.r0 0) 180).logicFlags (.imm 0x80000000 true)
      (r.r5 &&& 0x80000000)) hw (by decide) rfl (by decide) rfl
  apply at_branch 0x1a000007 28 220 hw (by decide) rfl (by decide)
  · intro htaken
    have htaken : (!decide (r.r5 &&& 0x80000000 = 0)) = true := htaken.resolve_left (by decide)
    rw [Bool.not_eq_true', decide_eq_false_iff_not] at htaken
    rw [afterWarm, if_pos htaken]
    exact at_warmFailed hl h
  intro hfalls
  have hclear : ¬ r.r5 &&& 0x80000000 ≠ 0 := by
    intro hset
    refine hfalls (.inr ?_)
    show (!decide (r.r5 &&& 0x80000000 = 0)) = true
    rw [decide_eq_false hset]
    rfl
  rw [afterWarm, if_neg hclear]
  -- mov r0, #1; mov r2, r7; mov r3, r8
  apply at_register 0xe3a00001 (.mov false 0 (.imm 1 false)) { r with r0 := 1 } _ hw (by decide) rfl
    (by decide) rfl
  apply at_register 0xe1a02007 (.mov false 2 (.reg 7)) { r with r0 := 1, r2 := r.r7 } _ hw (by decide)
    rfl (by decide) rfl
  apply at_register 0xe1a03008 (.mov false 3 (.reg 8)) { r with r0 := 1, r2 := r.r7, r3 := r.r8 } _ hw
    (by decide) rfl (by decide) rfl
  apply at_goto 0xeaffffec (-80) 128 hw (by decide) rfl rfl (by decide)
  have hone : (1 : Word) ≠ 0 := by decide
  exact at_grantBegin (r := { r with r0 := 1, r2 := r.r7, r3 := r.r8 }) hl h hone

/-- The processor in ARM state with the registers of the caller, `k` bytes
behind the veneer. -/
def called (c : Arm.Cpu) (k : Nat) : Arm.Cpu :=
  { c with pc := c.pc + BitVec.ofNat 32 k, thumb := false }

/-- `push {r4-r8, lr}` -/
theorem execute_push (h : SpinCall l base mailbox word half c) {k : Nat} :
    Arm.execute (helperBus word half mailbox) (called c k) (.push [4, 5, 6, 7, 8, 14]) =
      .ret (some { called c (k + 4) with
        regs := { c.regs with sp := c.regs.sp - 24 }
        mem := pushed c }) := by
  obtain ⟨h20, h16, h12, h8, h4⟩ := stack_addresses c.regs.sp
  have hstore : Arm.Cpu.storeAll (helperBus word half mailbox) (c.regs.sp - 24) (called c k)
      [4, 5, 6, 7, 8, 14] = .ret (some { called c k with mem := pushed c }) := by
    simp only [Arm.Cpu.storeAll, h20, h16, h12, h8, h4,
      writeWord_stack h (i := 24) (by simp), writeWord_stack h (i := 20) (by simp),
      writeWord_stack h (i := 16) (by simp), writeWord_stack h (i := 12) (by simp),
      writeWord_stack h (i := 8) (by simp), writeWord_stack h (i := 4) (by simp), pure_bind]
    rfl
  have hpc : c.pc + BitVec.ofNat 32 k + 4 = c.pc + BitVec.ofNat 32 (k + 4) := by
    rw [BitVec.add_assoc, BitVec.ofNat_add]
    rfl
  show (Arm.Cpu.storeAll _ (c.regs.sp - 24) (called c k) [4, 5, 6, 7, 8, 14] >>= _) = _
  rw [hstore]
  show Prog.ret (some (Arm.Cpu.mk _ c.flags (c.pc + BitVec.ofNat 32 k + 4) _ _)) = _
  rw [hpc]
  rfl

/-- `.Lbank_arm` -/
theorem at_bankArm (hl : AcceptedListing l) (h : SpinCall l base mailbox word half c) :
    At (helperBus word half mailbox) c (SpinReturn c) (called c 64)
      (dldQuietBankEntry c.regs.r1 c.regs.r2 c.regs.r3) := by
  have hw := fetches_of_call hl h
  refine at_step (w := 0xe92d41f0) (i := .push [4, 5, 6, 7, 8, 14]) hw (by decide) rfl rfl rfl
    (by decide) ?_
  rw [execute_push h]
  refine at_step (k := 68) (w := 0xe1a06000) (i := .mov false 6 (.reg 0)) hw (by decide) rfl rfl rfl
    (by decide) ?_
  have hr : Arm.execute (helperBus word half mailbox)
      { called c 68 with
        regs := { c.regs with sp := c.regs.sp - 24 }
        mem := pushed c } (.mov false 6 (.reg 0)) =
      .ret (some (frame c (pushed c) mailbox
        ⟨c.regs.r0, c.regs.r1, c.regs.r2, c.regs.r3, c.regs.r4, c.regs.r5, c.regs.r7, c.regs.r8⟩
        c.flags 68).next) := by
    rw [← h.r0]
    rfl
  rw [hr, next_frame]
  -- mov r7, r2; mov r8, r3; mov r0, #0; mov r2, #16; mov r3, #64
  apply at_register 0xe1a07002 (.mov false 7 (.reg 2))
    ⟨c.regs.r0, c.regs.r1, c.regs.r2, c.regs.r3, c.regs.r4, c.regs.r5, c.regs.r2, c.regs.r8⟩ _ hw
    (by decide) rfl (by decide) rfl
  apply at_register 0xe1a08003 (.mov false 8 (.reg 3))
    ⟨c.regs.r0, c.regs.r1, c.regs.r2, c.regs.r3, c.regs.r4, c.regs.r5, c.regs.r2, c.regs.r3⟩ _ hw
    (by decide) rfl (by decide) rfl
  apply at_register 0xe3a00000 (.mov false 0 (.imm 0 false))
    ⟨0, c.regs.r1, c.regs.r2, c.regs.r3, c.regs.r4, c.regs.r5, c.regs.r2, c.regs.r3⟩ _ hw
    (by decide) rfl (by decide) rfl
  apply at_register 0xe3a02010 (.mov false 2 (.imm 16 false))
    ⟨0, c.regs.r1, 16, c.regs.r3, c.regs.r4, c.regs.r5, c.regs.r2, c.regs.r3⟩ _ hw
    (by decide) rfl (by decide) rfl
  apply at_register 0xe3a03040 (.mov false 3 (.imm 64 false))
    ⟨0, c.regs.r1, 16, 64, c.regs.r4, c.regs.r5, c.regs.r2, c.regs.r3⟩ _ hw
    (by decide) rfl (by decide) rfl
  apply at_goto 0xea00000a 40 140 hw (by decide) rfl rfl (by decide)
  show At _ c _ _ (timerStart 16 64 >>= fun warm => afterWarm c.regs.r1 c.regs.r2 c.regs.r3 warm)
  apply at_timerStart hw
  intro r3 r4 r5 f'
  exact at_loopEnd_warm (r := ⟨0, c.regs.r1, 16, r3, r4, r5, c.regs.r2, c.regs.r3⟩) hl h rfl

/-- The veneer is at a multiple of 64. -/
theorem veneer_aligned (hl : AcceptedListing l) (h : SpinCall l base mailbox word half c) :
    c.pc.toNat % 64 = 0 := by
  have hbase : base.toNat % 64 = 0 := by
    have haligned := h.aligned
    rw [← BitVec.toNat_inj, BitVec.toNat_and, show (63 : Word).toNat = 2 ^ 6 - 1 from rfl,
      Nat.and_two_pow_sub_one_eq_mod] at haligned
    exact haligned
  have hlabel := hl.aligned
  rw [h.pc, BitVec.toNat_add, BitVec.toNat_ofNat]
  omega

/-- `bx pc` enters ARM state four bytes on. -/
theorem thumbStep_veneer (hl : AcceptedListing l) (h : SpinCall l base mailbox word half c) :
    Arm.thumbStep (helperBus word half mailbox) c = some (called c 4) := by
  have hhalf : half c.pc = some 0x4778 := by
    rw [h.pc]
    exact h.halfwords _ _ hl.veneer
  have halign := veneer_aligned hl h
  have hlow : (c.pc + 4).toNat % 4 = 0 := by bv_omega
  have hbit0 : (c.pc + 4).getLsbD 0 = false := by
    rw [BitVec.getLsbD, Nat.testBit_zero, decide_eq_false_iff_not]
    omega
  have hbit1 : (c.pc + 4).getLsbD 1 = false := by
    rw [BitVec.getLsbD, Nat.testBit_succ, Nat.testBit_zero, decide_eq_false_iff_not]
    omega
  have hstep : Arm.thumbStep (helperBus word half mailbox) c = c.interwork (c.pc + 4) := by
    show (half c.pc).bind _ = _
    rw [hhalf]
    rfl
  rw [hstep, Arm.Cpu.interwork, hbit0, hbit1]
  rfl

/-- `bx pc` and the branch behind it. -/
theorem at_veneer (hl : AcceptedListing l) (h : SpinCall l base mailbox word half c) :
    At (helperBus word half mailbox) c (SpinReturn c) c
      (dldQuietBankEntry c.regs.r1 c.regs.r2 c.regs.r3) := by
  have hinside : Inside c c := by
    show c.pc - c.pc < 232
    rw [BitVec.sub_self]
    decide
  refine .jump hinside ?_
  rw [Arm.code, if_pos h.thumb, thumbStep_veneer hl h]
  refine at_step (k := 4) (w := 0xea00000d) (i := .branch 52) (fetches_of_call hl h) (by decide) rfl
    rfl rfl (by decide) ?_
  have hpc : c.pc + BitVec.ofNat 32 4 + 8 + 52 = c.pc + BitVec.ofNat 32 64 := by
    simp only [BitVec.add_assoc]
    rfl
  show At _ c _ { called c 4 with pc := c.pc + BitVec.ofNat 32 4 + 8 + 52 } _
  rw [hpc]
  exact at_bankArm hl h

end Call

end Spin

/-! ### The image -/

section Image

variable {l : Listing} {base mailbox : Word} {word : Word → Option Word}
variable {half : Word → Option (BitVec 16)} {c : Arm.Cpu} {report : AuditReport}

/-- **An audited image is the routine.**  Wherever the words of a listing that
passes are loaded, a call of its veneer does what the structured routine does:
it is never stuck and cannot loop; every run of the routine is one of the
processor, and ends in the caller; and every run of the processor is inside
the routine, or has returned by the calling convention with the accesses and
the result of the routine's contract. -/
theorem audited_image_contract (haudit : audit l = .ok report)
    (h : SpinCall l base mailbox word half c) :
    Machine.Realizes (Arm.code (helperBus word half mailbox)) (Spin.Inside c) (SpinReturn c)
        (.ret (some c)) (dldQuietBankEntry c.regs.r1 c.regs.r2 c.regs.r3) ∧
      (∀ t result, (dldQuietBankEntry c.regs.r1 c.regs.r2 c.regs.r3).Runs t result → ∃ c',
        Machine.Steps (Arm.code (helperBus word half mailbox)) (.ret (some c)) t (.ret (some c')) ∧
          ¬ Spin.Inside c c' ∧ SpinReturn c c' result) ∧
      ∀ t q, Machine.Steps (Arm.code (helperBus word half mailbox)) (.ret (some c)) t q →
        (q ≠ .ret none ∧ ∃ p', (dldQuietBankEntry c.regs.r1 c.regs.r2 c.regs.r3).Steps t p') ∨
          ∃ (t₁ t₂ : List KEvent) (c' : Arm.Cpu) (a : SpinAccount), t = t₁ ++ t₂ ∧
            a.Valid c.regs.r2 (passes c.regs.r3) ∧ t₁ = a.events c.regs.r1 ∧
            SpinContract c.regs.r1 c.regs.r2 (passes c.regs.r3) t₁ (a.result c.regs.r2) ∧
            SpinReturn c c' (a.result c.regs.r2) ∧
            Machine.Steps (Arm.code (helperBus word half mailbox)) (.ret (some c')) t₂ q := by
  have hrealizes := Spin.at_veneer (audit_ok_iff.mp haudit).1 h
  refine ⟨hrealizes, fun t result hruns => hrealizes.steps hruns, fun t q hsteps => ?_⟩
  rcases hrealizes.follows hsteps with ⟨p', hp', hrest⟩ | ⟨t₁, t₂, c', result, rfl, hruns, -, hc', hrest⟩
  · exact .inl ⟨hrest.ne_none, p', hp'⟩
  · obtain ⟨a, ha, rfl, rfl⟩ := Prog.all_iff.mp (dldQuietBankEntry_all _ _ _) _ _ hruns
    exact .inr ⟨_, t₂, c', a, rfl, ha, rfl, ha.contract, hc', hrest⟩

end Image

/-- The listing of the module as it is built, with the veneer at its start. -/
def builtListing : Listing where
  labels name := [("dld_quiet_bank_entry", 0), ("dld_quiet_bank", 64), ("dld_quiet_grant_begin", 128),
    ("dld_quiet_timer_start", 140), ("dld_quiet_loop_begin", 144), ("dld_quiet_loop_end", 172),
    ("dld_quiet_observe", 204), ("dld_quiet_warm_failed", 220)].lookup name
  words n := spinWords.lookup n
  relocations := []
  halfwords n := [(0, 0x4778), (2, 0xbf00)].lookup n
  relocationTypes := [("THM_CALL", "dld_quiet_bank_entry")]

/-- A call with five pixels' budget, in a module at 0xbf001000. -/
def builtCall : Arm.Cpu where
  regs :=
    { r0 := 0xe0a12000, r1 := 3, r2 := 744000, r3 := 30000000, r4 := 4, r5 := 5, r6 := 6, r7 := 7,
      r8 := 8, r9 := 9, r10 := 10, r11 := 11, r12 := 12, sp := 0xde01ff00, lr := 0xbf000401 }
  flags := ⟨false, false, false, false⟩
  pc := 0xbf001000
  thumb := true
  mem _ := 0

theorem accepted_built : AcceptedListing builtListing where
  noArmCall := by decide
  thumbCall := by decide
  present := by decide
  aligned := by decide
  entry := by decide
  grant := by decide
  positions := by decide
  veneer := by decide
  nop := by decide
  words := by decide
  relocations := fun _ hx => nomatch hx

/-- The words and halfwords of a list, loaded at an address. -/
theorem loaded_lookup {α : Type} {entries : List (Nat × α)} {base : Word}
    (hall : ∀ p ∈ entries, entries.lookup (base + BitVec.ofNat 32 p.1 - base).toNat = some p.2) (n : Nat)
    (w : α) (h : entries.lookup n = some w) :
    entries.lookup (base + BitVec.ofNat 32 n - base).toNat = some w := by
  obtain ⟨before, after, rfl, -⟩ := List.lookup_eq_some_iff.mp h
  exact hall (n, w) (by simp)

theorem spinCall_built : SpinCall builtListing 0xbf001000 0xe0a12000
    (fun a => builtListing.words (a - 0xbf001000).toNat)
    (fun a => builtListing.halfwords (a - 0xbf001000).toNat) builtCall where
  aligned := by decide
  words := loaded_lookup (by decide)
  halfwords := loaded_lookup (by decide)
  pc := by decide
  thumb := rfl
  r0 := rfl
  mailboxAligned := by decide
  stackAligned := by decide
  stack := by simp [mailboxWord, mailboxWords, Off.bytes, builtCall]
  lr := by decide
  outside := by decide

/-- The call on a cooperative board. -/
theorem audited_image_contract_built :
    let run := (dldQuietBankEntry 3 744000 30000000).execWith Board.answer oneBankBoard
    ∃ c', Machine.Steps (Arm.code (helperBus (fun a => builtListing.words (a - 0xbf001000).toNat)
        (fun a => builtListing.halfwords (a - 0xbf001000).toNat) 0xe0a12000)) (.ret (some builtCall))
        run.1 (.ret (some c')) ∧ SpinReturn builtCall c' run.2 := by
  intro run
  obtain ⟨-, hruns, -⟩ :=
    audited_image_contract (audit_ok_iff.mpr ⟨accepted_built, rfl⟩) spinCall_built
  obtain ⟨c', hsteps, -, hreturn⟩ := hruns run.1 run.2 (Prog.execWith_runs _ _ _)
  exact ⟨c', hsteps, hreturn⟩

end Dld
