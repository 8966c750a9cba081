/-
DldDriver/Firmware/Clock.lean

The firmware on a clock that counts CPU cycles, five for each PRU cycle.

Register instructions and everything in the timed stream take one PRU cycle;
any other access to the mailbox or to a GPIO block takes no more than a
thousand.  The blocks are weighed one by one: from the gate of a bank to
its `bank_done`, and from there, or from the acceptance of a request, to DONE.
-/
import DldDriver.Interaction.Timed
import DldDriver.Firmware.Conform

namespace Dld

open Interaction

namespace Pru

/-! ### Cycles -/

/-- The CPU cycles of one PRU cycle. -/
def cycle : Nat := 5

/-- The longest access outside the stream. -/
def access : Nat := 1000 * cycle

/-- How long an instruction of a block may last. -/
def Lasts (x : Label × Regs) : PruOp → Nat → Prop
  | .alu, d | .loadDelay _, d | .halt, d => d = cycle
  | _, d => if x.1 = .sendPixel then d = cycle else d ≤ access

abbrev PruInstr := Instr PruOp PruOp.Res (Label × Regs)

/-- Timed runs of the firmware. -/
abbrev TimedRun (tm : Timing) := Machine.Timed (code tm) Lasts

theorem lasts_register {x : Label × Regs} {d : Nat} (h : Lasts x .alu d) : d ≤ cycle := le_of_eq h

/-- In the stream every instruction takes one cycle. -/
theorem lasts_stream {r : Regs} {o : PruOp} {d : Nat} (h : Lasts (.sendPixel, r) o d) :
    d ≤ cycle := by
  cases o <;> exact le_of_eq h

/-- No instruction takes longer than an access. -/
theorem lasts_access {x : Label × Regs} {o : PruOp} {d : Nat} (h : Lasts x o d) : d ≤ access := by
  have hshort (hd : d = cycle) : d ≤ access := hd.trans_le (by decide)
  have hlong (h : if x.1 = .sendPixel then d = cycle else d ≤ access) : d ≤ access := by
    split_ifs at h
    · exact hshort h
    · exact h
  cases o with
  | alu | loadDelay | halt => exact hshort h
  | _ => exact hlong h

/-! ### Weighing instructions -/

section Weigh

variable {α : Type} {x : Label × Regs} {env : Nat → Nat → PruEvent → Prop}
variable {target : PruEvent → Prop} {D n : Nat} {Q : α → Nat → Prop}

/-- Deadlines of the firmware. -/
abbrev Due (x : Label × Regs) (env : Nat → Nat → PruEvent → Prop) (target : PruEvent → Prop) (D : Nat)
    (p : PProg α) (n : Nat) (Q : α → Nat → Prop) : Prop :=
  Machine.Soon (Lasts x) env target D p n Q

theorem due_alu {f : Unit → PProg α} (hle : n ≤ D)
    (hf : Due x env target D (f ()) (n + cycle) Q) : Due x env target D (alu >>= f) n Q :=
  Machine.soon_op (fun _ => lasts_register) hle fun _ => hf

theorem due_movImm {v : Word} {f : Unit → PProg α} (hle : n + 2 * cycle ≤ D)
    (hf : Due x env target D (f ()) (n + 2 * cycle) Q) : Due x env target D (movImm v >>= f) n Q := by
  have hmov : Due x env target D (movImm v) n fun _ t => True ∧ t ≤ n + 2 * cycle := by
    apply due_alu (by omega)
    apply Machine.soon_ite
    · intro _
      apply Machine.soon_op (fun _ => lasts_register) (by omega)
      intro _
      exact Machine.soon_pure (by omega) fun t ht => ⟨trivial, by omega⟩
    · intro _
      exact Machine.soon_pure (by omega) fun t ht => ⟨trivial, by omega⟩
  exact hmov.bind fun _ _ => hf

/-- An access outside the stream. -/
theorem due_access {o : PruOp} {f : o.Res → PProg α} (hle : n ≤ D)
    (hf : ∀ v, Due x env target D (f v) (n + access) Q) : Due x env target D (pop o >>= f) n Q :=
  Machine.soon_op (fun _ => lasts_access) hle hf

theorem due_target {o : PruOp} {f : o.Res → PProg α} (hle : n + access ≤ D)
    (htarget : ∀ v, target ⟨o, v⟩) : Due x env target D (pop o >>= f) n Q :=
  Machine.soon_target (fun _ => lasts_access) hle htarget

/-! #### The drain -/

/-- An attempt of `DRAIN_BANK`: a CLEAR, its readback and four instructions. -/
def attemptTime : Nat := 2 * access + 4 * cycle

theorem due_drainRetry (r7 r8 : Word) (k : Nat) (hle : n + (k + 1) * attemptTime ≤ D) :
    Due x env target D (drainRetry r7 r8 k) n fun _ t => True ∧ t ≤ n + (k + 1) * attemptTime := by
  have hattempt : attemptTime = 2 * access + 4 * cycle := rfl
  induction k generalizing n with
  | zero =>
    apply due_access (by omega)
    intro _
    apply due_access (by omega)
    intro r0
    apply due_alu (by omega)
    apply due_alu (by omega)
    apply Machine.soon_ite
    · intro _
      exact Machine.soon_pure (by omega) fun t ht => ⟨trivial, by omega⟩
    · intro _
      apply due_alu (by omega)
      apply due_alu (by omega)
      exact Machine.soon_pure (by omega) fun t ht => ⟨trivial, by omega⟩
  | succ k ih =>
    have hsucc : (k + 1 + 1) * attemptTime = (k + 1) * attemptTime + attemptTime :=
      Nat.succ_mul _ _
    apply due_access (by omega)
    intro _
    apply due_access (by omega)
    intro r0
    apply due_alu (by omega)
    apply due_alu (by omega)
    apply Machine.soon_ite
    · intro _
      exact Machine.soon_pure (by omega) fun t ht => ⟨trivial, by omega⟩
    · intro _
      apply due_alu (by omega)
      apply due_alu (by omega)
      refine (ih (by omega)).mono fun _ t _ ht => ⟨trivial, ?_⟩
      have ht := ht.2
      omega

end Weigh

/-! ### From the gate to `bank_done` -/

section Bank

variable {tm : Timing} {l : Fin 6 → Word} {b : Bank} {r : Regs} {g D now : Nat}

/-- The store of `bank_done` for bank `b`, or the report that its drain has
failed. -/
def DrainEnds (b : Bank) (e : PruEvent) : Prop :=
  e = ⟨.sbco .bankDone b.ordinal, ()⟩ ∨ e = ⟨.sbco .errorDetail errorBankClear, ()⟩

/-- What the gate of bank `b` reads by time `D` when the grant is stored at
time `g`. -/
def GrantedAt (b : Bank) (g D : Nat) (start stop : Nat) (e : PruEvent) : Prop :=
  stop ≤ D → ∀ v, e = ⟨.lbco .bankGrant, v⟩ → v ≤ b.ordinal ∧ (g ≤ start → v = b.ordinal)

/-- The cycles of `TIMED_END`, up to and including the store. -/
def drainTime : Nat := drainAttempts * attemptTime + 7 * cycle + access

/-- The cycles of `pixels` pixels. -/
def streamTime (tm : Timing) (pixels : Nat) : Nat := pixels * (24 * tm.bit.toNat) * cycle

/-- The cycles from a read of the grant to the store of `bank_done`. -/
def gateTime (tm : Timing) (l : Fin 6 → Word) (b : Bank) : Nat :=
  3 * access + 7 * cycle + streamTime tm (maxOfBank l b).toNat + drainTime

/-- At these labels there is time left before `D`. -/
def BankDue (tm : Timing) (l : Fin 6 → Word) (b : Bank) (D : Nat) : Label × Regs → Nat → Prop
  | (.gateWait, r), now => ∃ r' : Regs, r = r'.atGate b l ∧ r'.Loaded tm ∧ now + gateTime tm l b ≤ D
  | (.sendPixel, r), now => ∃ (r' : Regs) (p : Nat), r = r'.atPixel b l p ∧ r'.Loaded tm ∧
    p < (maxOfBank l b).toNat ∧ now + streamTime tm ((maxOfBank l b).toNat - p) + drainTime ≤ D
  | (.timedEnd, r), now => ∃ (r' : Regs) (p : Nat), r = r'.atPixel b l p ∧ now + drainTime ≤ D
  | _, _ => False

theorem due_timedEnd {env : Nat → Nat → PruEvent → Prop} {Q : Next → Nat → Prop} (p : Nat)
    (hle : now + drainTime ≤ D) :
    Due (.timedEnd, r.atPixel b l p) env (DrainEnds b) D (timedEndBlock (r.atPixel b l p)) now Q := by
  have hdrain : drainTime = 8 * attemptTime + 7 * cycle + access := rfl
  have h26 : (r.atPixel b l p).r26 = b.ordinal := atBank_r26 r b l
  apply due_movImm (by omega)
  apply due_alu (by omega)
  have hbank (n : Nat) (hn : n + 8 * attemptTime + 4 * cycle ≤ D) (r7 r8 : Word) :
      Due (.timedEnd, r.atPixel b l p) env (DrainEnds b) D (drainBank r7 r8) n fun _ t =>
        True ∧ t ≤ n + 8 * attemptTime + 4 * cycle := by
    apply due_movImm (by omega)
    apply due_alu (by omega)
    apply Machine.Soon.bind (due_drainRetry r7 r8 7 (by omega))
    intro low _
    apply due_alu (by omega)
    exact Machine.soon_pure (by omega) fun t ht => ⟨trivial, by omega⟩
  apply Machine.Soon.bind (hbank _ (by omega) _ _)
  intro low _
  apply Machine.soon_ite
  · intro _
    exact due_target (by omega) fun _ => .inr rfl
  · intro _
    exact due_target (by omega) fun _ => .inl (by rw [h26])

theorem meets_sendPixel {env : Nat → Nat → PruEvent → Prop} {p : Nat} (h : tm.Admitted)
    (hr : r.Loaded tm) (hl : (maxOfBank l b).toNat ≤ 300) (hp : p < (maxOfBank l b).toNat)
    (hle : now + streamTime tm ((maxOfBank l b).toNat - p) + drainTime ≤ D) :
    Machine.Meets (Lasts (.sendPixel, r.atPixel b l p)) env (DrainEnds b) D
      (sendPixelBlock (r.atPixel b l p)) now (Machine.Arrives (BankDue tm l b D)) := by
  by_cases hlast : p + 1 = (maxOfBank l b).toNat
  · -- the last pixel: the jump back is not taken
    have hone : (maxOfBank l b).toNat - p = 1 := by omega
    have hlength : (streamFrom tm b l r.r4 p).length ≤ 24 * tm.bit.toNat := by
      rw [streamFrom, hone, List.range_one, List.flatMap_singleton, Nat.add_zero,
        List.length_dropLast, length_pixelEvents h]
      omega
    have htime : cycle * (streamFrom tm b l r.r4 p).length ≤
        streamTime tm ((maxOfBank l b).toNat - p) := by
      rw [hone, streamTime, Nat.one_mul, Nat.mul_comm _ cycle]
      exact Nat.mul_le_mul_left cycle hlength
    refine Machine.meets_of_runs (sendPixel_last h hr hl hlast) (fun e he => ?_)
      (fun e _ d hd => lasts_stream hd) (by omega) fun t ht => ?_
    · obtain ⟨q, hq⟩ := mem_streamFrom he
      exact subsingleton_pixelEvents hq
    · exact ⟨_, rfl, r, p + 1, rfl, by omega⟩
  · have hnext : p + 1 < (maxOfBank l b).toNat := by omega
    have htime : streamTime tm ((maxOfBank l b).toNat - p) =
        cycle * (pixelEvents tm b l r.r4 p).length +
          streamTime tm ((maxOfBank l b).toNat - (p + 1)) := by
      obtain ⟨n, hn⟩ : ∃ n, (maxOfBank l b).toNat - p = n + 1 :=
        ⟨(maxOfBank l b).toNat - (p + 1), by omega⟩
      have hn' : (maxOfBank l b).toNat - (p + 1) = n := by omega
      rw [hn, hn', length_pixelEvents h, streamTime, streamTime]
      ring
    refine Machine.meets_of_runs (sendPixel_next h hr hl hnext) (fun e he => ?_)
      (fun e _ d hd => lasts_stream hd) (by omega) fun t ht => ?_
    · exact subsingleton_pixelEvents he
    · exact ⟨_, rfl, r, p + 1, rfl, hr, hnext, by omega⟩

/-- The gate: a poll that misses the grant began before it. -/
theorem meets_gateWait (hmax : maxOfBank l b ≠ 0) (hr : r.Loaded tm)
    (hD : g + access + 2 * cycle + gateTime tm l b ≤ D) (hle : now + gateTime tm l b ≤ D) :
    Machine.Meets (Lasts (.gateWait, r.atGate b l)) (GrantedAt b g D) (DrainEnds b) D
      (gateWaitBlock (r.atGate b l)) now (Machine.Arrives (BankDue tm l b D)) := by
  have h26 : (r.atGate b l).r26 = b.ordinal := atBank_r26 r b l
  have htime : gateTime tm l b = 3 * access + 7 * cycle +
    streamTime tm (maxOfBank l b).toNat + drainTime := rfl
  apply Machine.meets_op_bind (by omega)
  intro d v hd henv
  have hd := lasts_access hd
  obtain ⟨hsmall, hgranted⟩ := henv (by omega) v rfl
  -- the rest of the block, from the end of the read on
  have hrest : Due (.gateWait, r.atGate b l) (GrantedAt b g D) (DrainEnds b) D
      (do
        alu
        if v ≠ (r.atGate b l).r26 then do
          alu
          if (r.atGate b l).r26 > v then pure (some (.gateWait, r.atGate b l)) else do
          movImm errorGate
          alu
          fatal errorGate
        else do
        movImm 0
        sbco .bankReady 0
        movImm statusRunning
        sbco .status statusRunning
        movImm 0
        pure (some (.sendPixel, { r.atGate b l with r16 := 0 })))
      (now + d) (Machine.Arrives (BankDue tm l b D)) := by
    apply due_alu (by omega)
    apply Machine.soon_ite
    · intro hne
      rw [h26] at hne
      have hless : (r.atGate b l).r26 > v := by
        rw [h26]
        bv_omega
      have hearly : now < g := by
        by_contra hlate
        exact hne (hgranted (by omega))
      apply due_alu (by omega)
      rw [if_pos hless]
      refine Machine.soon_pure (by omega) fun t ht => ⟨_, rfl, ?_⟩
      exact ⟨r, rfl, hr, by omega⟩
    · intro _
      apply due_movImm (by omega)
      apply due_access (by omega)
      intro _
      apply due_movImm (by omega)
      apply due_access (by omega)
      intro _
      apply due_movImm (by omega)
      refine Machine.soon_pure (by omega) fun t ht => ⟨_, rfl, ?_⟩
      refine ⟨r, 0, rfl, hr, ?_, ?_⟩
      · exact Nat.pos_of_ne_zero fun h0 => hmax (BitVec.eq_of_toNat_eq h0)
      · rw [Nat.sub_zero]
        omega
  exact hrest (now + d) le_rfl

/-- **From the gate to `bank_done`**: a bank that waits at its gate when it is
granted has stored `bank_done`, or reported its drain, by the deadline. -/
theorem bank_meets (h : tm.Admitted) (hl : ∀ i, l i ≤ maxLength) (hmax : maxOfBank l b ≠ 0)
    (hD : g + access + 2 * cycle + gateTime tm l b ≤ D) (x : Label × Regs) (now : Nat)
    (hx : BankDue tm l b D x now) :
    Machine.Meets (Lasts x) (GrantedAt b g D) (DrainEnds b) D (code tm x) now
      (Machine.Arrives (BankDue tm l b D)) := by
  obtain ⟨label, r⟩ := x
  cases label with
  | gateWait =>
    obtain ⟨r, rfl, hr, hle⟩ := hx
    exact meets_gateWait hmax hr hD hle
  | sendPixel =>
    obtain ⟨r, p, rfl, hr, hp, hle⟩ := hx
    exact meets_sendPixel h hr (maxOfBank_le b hl) hp hle
  | timedEnd =>
    obtain ⟨r, p, rfl, hle⟩ := hx
    exact due_timedEnd p hle now le_rfl
  | _ => exact hx.elim

end Bank

end Pru

end Dld
