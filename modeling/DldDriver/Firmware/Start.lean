/-
DldDriver/Firmware/Start.lean

The register computations of `START`: the profile and timing guards, the
length checks and the settle count.

A `Register` program executes register instructions only.  What it computes
is its run against the silent environment, wherever it stands in a block.

Concrete runs of `START` are put together from three pieces: the operations
up to the settle wait, answered by a fixed mailbox; the wait, which is never
unfolded; and the publication of READY.
-/
import DldDriver.Firmware.Stream

namespace Dld

open Interaction

namespace Pru

/-- A program of register instructions. -/
abbrev Register {α : Type} (p : PProg α) : Prop := p.Emits (· = aluEv)

section Register

variable {α β : Type}

theorem register_alu : Register alu := by
  refine (Prog.emits_op PruOp.alu).mpr fun _ => ?_
  rfl

theorem register_movImm (v : Word) : Register (movImm v) :=
  Prog.emits_bind register_alu fun _ =>
    Prog.emits_ite (fun _ => register_alu) fun _ => Prog.emits_pure ()

/-- Its result does not depend on the surroundings. -/
theorem Register.all {p : PProg α} (h : Register p) : p.All fun _ a => a = (p.exec silent).2 := by
  rw [Prog.all_iff]
  intro t a ht
  rw [ht.eq_exec silent]
  intro e he
  rw [h.runs ht e he]
  rfl

end Register

@[simp] theorem exec_movImm (v : Word) : ((movImm v).exec silent).2 = () := rfl

/-! ### The guards -/

theorem register_profileSupported (profile : Word) : Register (profileSupported profile) := by
  refine Prog.emits_bind register_alu fun _ => Prog.emits_ite (fun _ => Prog.emits_pure _) fun _ => ?_
  refine Prog.emits_bind register_alu fun _ => Prog.emits_ite (fun _ => Prog.emits_pure _) fun _ => ?_
  refine Prog.emits_bind register_alu fun _ => Prog.emits_ite (fun _ => Prog.emits_pure _) fun _ => ?_
  exact Prog.emits_bind register_alu fun _ => Prog.emits_pure _

theorem register_timingGuard (tm : Timing) : Register (timingGuard tm) := by
  unfold timingGuard
  repeat
    first
    | refine Prog.emits_bind register_alu fun _ => ?_
    | refine Prog.emits_bind (register_movImm _) fun _ => ?_
    | refine Prog.emits_ite (fun _ => Prog.emits_pure _) fun _ => ?_
  exact Prog.emits_pure _

/-! ### The lengths -/

theorem register_checkLength (length r0 r26 : Word) : Register (checkLength length r0 r26) := by
  refine Prog.emits_bind register_alu fun _ => Prog.emits_ite (fun _ => ?_) fun _ => ?_
  · exact Prog.emits_bind (register_movImm _) fun _ =>
      Prog.emits_bind register_alu fun _ => Prog.emits_pure _
  · refine Prog.emits_bind register_alu fun _ => Prog.emits_ite (fun _ => Prog.emits_pure _) ?_
    exact fun _ => Prog.emits_bind register_alu fun _ =>
      Prog.emits_bind register_alu fun _ => Prog.emits_pure _

theorem register_checkLengths (r0 r26 : Word) (ls : List Word) :
    Register (checkLengths r0 r26 ls) := by
  induction ls generalizing r26 with
  | nil => exact Prog.emits_pure _
  | cons length rest ih =>
    refine Prog.emits_bind (register_checkLength length r0 r26) fun max => ?_
    cases max with
    | none => exact Prog.emits_pure _
    | some r26 => exact ih r26

theorem exec_checkLength (length r0 r26 : Word) :
    ((checkLength length r0 r26).exec silent).2 =
      if r0 < length then none else some (maximum r26 length) := by
  rw [checkLength, Prog.exec_bind_snd]
  split
  · rfl
  · rw [Prog.exec_bind_snd, maximum]
    by_cases h : r26 ≥ length
    · rw [if_pos h]
      by_cases h' : r26 > length
      · rw [if_pos h']
        rfl
      · rw [if_neg h', show r26 = length by bv_omega]
        rfl
    · rw [if_neg h, if_neg (by bv_omega)]
      rfl

/-- The lengths are in range, and r26 is their maximum. -/
theorem exec_checkLengths {r0 r26 m : Word} {ls : List Word}
    (h : ((checkLengths r0 r26 ls).exec silent).2 = some m) :
    (∀ x ∈ ls, x ≤ r0) ∧ m = ls.foldl maximum r26 := by
  induction ls generalizing r26 with
  | nil => simpa [checkLengths, eq_comm] using h
  | cons x rest ih =>
    rw [checkLengths, Prog.exec_bind_snd, exec_checkLength] at h
    by_cases hx : r0 < x
    · rw [if_pos hx] at h
      cases h
    · rw [if_neg hx] at h
      obtain ⟨hrest, hm⟩ := ih h
      exact ⟨List.forall_mem_cons.mpr ⟨BitVec.not_lt.mp hx, hrest⟩, hm⟩

/-! ### The settle count -/

theorem register_settleAdd (r0 : Word) (n : Nat) (r5 : Word) : Register (settleAdd r0 n r5) := by
  induction n generalizing r5 with
  | zero => exact Prog.emits_bind register_alu fun _ => Prog.emits_pure _
  | succ n ih =>
    rw [settleAdd]
    repeat refine Prog.emits_bind register_alu fun _ => ?_
    exact ih _

theorem register_settleCount (r26 : Word) : Register (settleCount r26) := by
  refine Prog.emits_bind (register_movImm _) fun _ => Prog.emits_bind (register_movImm _) fun _ => ?_
  refine Prog.emits_bind register_alu fun _ => ?_
  have htail (r5 : Word) : Register (do alu; alu; pure ((r5 + 1) >>> 1) : PProg Word) :=
    Prog.emits_bind register_alu fun _ =>
      Prog.emits_bind register_alu fun _ => Prog.emits_pure _
  refine Prog.emits_ite (fun _ => htail _) fun _ => ?_
  exact Prog.emits_bind register_alu fun _ =>
    Prog.emits_bind (register_settleAdd _ _ _) fun r5 => htail r5

theorem exec_settleAdd (r0 : Word) (n : Nat) (r5 : Word) :
    ((settleAdd r0 n r5).exec silent).2 = r5 + BitVec.ofNat 32 n * r0 := by
  induction n generalizing r5 with
  | zero => simp [settleAdd]
  | succ n ih =>
    simp only [settleAdd, Prog.exec_bind_snd, ih]
    rw [BitVec.ofNat_add, BitVec.add_mul, BitVec.add_comm (_ * r0), ← BitVec.add_assoc]
    simp

/-- Half the settle time, rounded up. -/
theorem exec_settleCount_toNat {r26 : Word} (h : r26.toNat ≤ 300) :
    ((settleCount r26).exec silent).2.toNat =
      (resetCycles + settleMarginCycles + (r26.toNat - 1) * propagationCycles + 1) / 2 := by
  have hr5 : ((settleCount r26).exec silent).2 =
      (BitVec.ofNat 32 (80000 + (r26.toNat - 1) * 200) + 1) >>> 1 := by
    by_cases h0 : r26 = 0
    · subst h0
      rfl
    · have hsub : (r26 - 1).toNat = r26.toNat - 1 := by bv_omega
      simp only [settleCount, if_neg h0, Prog.exec_bind_snd, exec_settleAdd, hsub]
      rw [BitVec.ofNat_add 80000, BitVec.ofNat_mul]
      rfl
  have hone : (1 : Word).toNat = 1 := rfl
  rw [hr5, BitVec.toNat_ushiftRight, Nat.shiftRight_eq_div_pow]
  simp only [BitVec.toNat_add, BitVec.toNat_ofNat, hone, resetCycles, settleMarginCycles,
    propagationCycles]
  omega

/-! ### Against a mailbox -/

/-- The surroundings in which the mailbox reads as `m` and every pin as low. -/
def reading (m : DldCommand) (o : PruOp) : o.Res :=
  match o with
  | .lbco off => m off
  | _ => default

/-- What is read is what the host has left in `m`. -/
def listens (m : DldCommand) (e : PruEvent) : Bool :=
  match e with
  | ⟨.lbco off, v⟩ => v = m off
  | _ => true

theorem listens_read {m : DldCommand} {off : Off} {v : Word}
    (h : listens m ⟨.lbco off, v⟩ = true) : v = m off :=
  of_decide_eq_true h

theorem listens_settle (m : DldCommand) {r5 : Word} :
    ∀ e ∈ delayEv r5 :: idle (2 * r5.toNat) ++ [aluEv], listens m e = true := by
  intro e he
  rcases List.mem_append.mp he with he | he
  · rcases List.mem_cons.mp he with rfl | he
    · rfl
    · rw [List.eq_of_mem_replicate he]
      rfl
  · rw [List.mem_singleton.mp he]
    rfl

theorem listens_bankStream (m : DldCommand) {tm : Timing} {b : Bank} {l : Fin 6 → Word}
    {colour : Word} : ∀ e ∈ bankStream tm b l colour, listens m e = true := by
  intro e he
  obtain ⟨p, hp⟩ := mem_bankStream he
  rcases mem_pixelEvents hp with rfl | ⟨_, rfl⟩ | ⟨_, _, rfl⟩ | rfl | rfl <;> rfl

/-- The first `n` operations, and what is left. -/
def advance (h : (o : PruOp) → o.Res) : Nat → PProg Next → List PruEvent × PProg Next
  | 0, p => ([], p)
  | _ + 1, .ret a => ([], .ret a)
  | n + 1, .call o k => (⟨o, h o⟩ :: (advance h n (k (h o))).1, (advance h n (k (h o))).2)

theorem advance_steps (h : (o : PruOp) → o.Res) (n : Nat) (p : PProg Next) :
    p.Steps (advance h n p).1 (advance h n p).2 := by
  induction n generalizing p with
  | zero => exact .refl p
  | succ n ih =>
    cases p with
    | ret a => exact .refl _
    | call o k => exact .call (h o) (ih _)

/-- The publication of READY at the end of `START`. -/
def publishReady (r : Regs) : PProg Next := do
  movImm 0
  movImm errorNone
  sbco .errorDetail errorNone
  sbco .completionSeq 0
  sbco .bankReady 0
  sbco .bankDone 0
  sbco .acceptedSeq 0
  movImm statusReady
  sbco .status statusReady
  pure (some (.requestLoop, r))

/-- `START` that comes to its settle wait after `n` operations. -/
theorem start_runs {tm : Timing} {r r' : Regs} {h : (o : PruOp) → o.Res} {n : Nat} {r5 : Word}
    (h5 : r5 ≠ 0)
    (hwait : (advance h n (startBlock tm r)).2 = waitSettle r5 >>= fun _ => publishReady r') :
    Prog.Runs (startBlock tm r)
      ((advance h n (startBlock tm r)).1 ++ ((delayEv r5 :: idle (2 * r5.toNat) ++ [aluEv]) ++
        ((publishReady r').exec silent).1))
      (some (.requestLoop, r')) := by
  have hboot := advance_steps h n (startBlock tm r)
  rw [hwait] at hboot
  have hsettle := Prog.exec_runs silent (waitSettle r5)
  rw [exec_waitSettle h5] at hsettle
  exact hboot.runs (hsettle.bind (Prog.exec_runs silent (publishReady r')))

end Pru

end Dld
