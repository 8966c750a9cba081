/-
DldDriver/System/Budget.lean

The budget of a bank covers its stream (`budget_covers_stream`).

The helper counts CPU cycles from its store of the grant and reads
`bank_done` once, when `budget_cycles` of them have passed; the firmware is
bound to nothing but its instructions.  A bank that waits at its gate when
the grant is stored has stored `bank_done` by then, and until the helper has
read it nothing else is stored there.
-/
import DldDriver.Firmware.Deadline
import DldDriver.Kernel.Send
import DldDriver.System.Rehearsal

namespace Dld

open Interaction

/-! ### The budgets -/

/-- `budget_cycles` of bank `b`. -/
def bankBudget (l : Fin 6 → Word) (b : Bank) : Word :=
  if maxOfBank l b ≠ 0 then maxOfBank l b * cpuCyclesPerPixel + bankGuardCycles else 0

section Budgets

variable {l : Fin 6 → Word} {b : Bank}

/-- The multiplication does not wrap. -/
theorem toNat_bankBudget (hl : ∀ i, l i ≤ maxLength) (hmax : maxOfBank l b ≠ 0) :
    (bankBudget l b).toNat = 28800 * (maxOfBank l b).toNat + 600000 := by
  have h300 : (maxOfBank l b).toNat ≤ 300 := Pru.maxOfBank_le b hl
  have hcycles : cpuCyclesPerPixel.toNat = 28800 := rfl
  have hguard : bankGuardCycles.toNat = 600000 := rfl
  rw [bankBudget, if_pos hmax, BitVec.toNat_add, BitVec.toNat_mul, hcycles, hguard]
  omega

theorem bankBudget_lt (hl : ∀ i, l i ≤ maxLength) (b : Bank) : bankBudget l b < bankMaxCycles := by
  by_cases hmax : maxOfBank l b = 0
  · rw [bankBudget, if_neg (not_not.mpr hmax)]
    decide
  · have h300 : (maxOfBank l b).toNat ≤ 300 := Pru.maxOfBank_le b hl
    have hlimit : bankMaxCycles.toNat = 10000000 := rfl
    rw [BitVec.lt_def, toNat_bankBudget hl hmax, hlimit]
    omega

theorem Bank.index_injective : Function.Injective Bank.index := by
  intro a b h
  cases a <;> cases b <;> first | rfl | exact absurd h (by decide)

/-- The budget loop refuses no configuration, and sets every budget. -/
theorem setBudgets_spec (hl : ∀ i, l i ≤ maxLength) {banks : List Bank} (hnodup : banks.Nodup)
    (request : DldQuietSend) (hrequest : request.stringLengths = l) :
    (setBudgets request banks).2 = 0 ∧ ∀ b, (setBudgets request banks).1.budgetCycles b.index =
      if b ∈ banks then bankBudget l b else request.budgetCycles b.index := by
  induction banks generalizing request with
  | nil => exact ⟨rfl, fun b => by simp [setBudgets]⟩
  | cons bank rest ih =>
    obtain ⟨hfresh, hnodup⟩ := List.nodup_cons.mp hnodup
    have hbudget : (if bankLength request bank ≠ 0 then
        bankLength request bank * cpuCyclesPerPixel + bankGuardCycles else 0) = bankBudget l bank := by
      rw [bankLength_eq, hrequest, bankBudget]
    have hbelow : ¬ bankBudget l bank ≥ bankMaxCycles := BitVec.not_le.mpr (bankBudget_lt hl bank)
    simp only [setBudgets, hbudget, if_neg hbelow]
    obtain ⟨hzero, hrest⟩ := ih hnodup { request with
      budgetCycles := Function.update request.budgetCycles bank.index (bankBudget l bank) } hrequest
    refine ⟨hzero, fun b => ?_⟩
    rw [hrest b]
    by_cases hb : b = bank
    · subst hb
      rw [if_neg hfresh, if_pos (.head _)]
      exact Function.update_self ..
    · have hne : b.index ≠ bank.index := fun h => hb (Bank.index_injective h)
      show (if b ∈ rest then bankBudget l b
        else Function.update request.budgetCycles bank.index (bankBudget l bank) b.index) = _
      rw [Function.update_of_ne hne]
      simp [hb]

theorem setBudgets_pass (hl : ∀ i, l i ≤ maxLength) {request : DldQuietSend}
    (hrequest : request.stringLengths = l) :
    (setBudgets request Bank.pass).2 = 0 ∧
      ∀ b, (setBudgets request Bank.pass).1.budgetCycles b.index = bankBudget l b := by
  obtain ⟨hzero, hbudgets⟩ := setBudgets_spec hl (by decide : Bank.pass.Nodup) request hrequest
  refine ⟨hzero, fun b => ?_⟩
  rw [hbudgets b, if_pos b.mem_pass]

end Budgets

namespace Pru

/-! ### From the grant to `bank_done` -/

/-- The store of `bank_ready` for bank `b` in `SEND_GROUP`. -/
def OfferedAt (b : Bank) (e : PruEvent) : Prop := e = ⟨.sbco .bankReady b.ordinal, ()⟩

/-- What `q` leaves of `SEND_GROUP` is the jump to the gate of bank `b`. -/
def AtItsGate (tm : Timing) (l : Fin 6 → Word) (b : Bank) (x : Label × Regs) (q : PProg Next) :
    Prop :=
  ∃ r : Regs, q = pure (some (.gateWait, r.atGate b l)) ∧ Ready tm l r ∧ maxOfBank l b ≠ 0 ∧
    r.r3 = x.2.r3

section Offer

variable {tm : Timing} {l : Fin 6 → Word} {b b' : Bank} {r : Regs}

/-- A register program and the rest, with the value it computes. -/
theorem leaves_register {α : Type} {p : PProg α} {f : α → PProg Next} {K : PruEvent → Prop}
    {P : PProg Next → Prop} (hp : Register p) (hK : ¬ K aluEv)
    (hf : (f (p.exec silent).2).Leaves K P) : (p >>= f).Leaves K P :=
  Prog.leaves_bind (hp.spares hK) hp.all fun a ha => by
    rw [ha]
    exact hf

theorem leaves_sendGroup (hr : Ready tm l r) :
    (sendGroupBlock (r.atBank b' l)).Leaves (OfferedAt b)
      (AtItsGate tm l b (.sendGroup, r.atBank b' l)) := by
  have h26 : (r.atBank b' l).r26 = b'.ordinal := atBank_r26 r b' l
  have hspares : ¬ OfferedAt b aluEv := by simp [OfferedAt, aluEv]
  apply leaves_register (register_movImm _) hspares
  apply leaves_register (register_includePin _ _ _) hspares
  rw [exec_includePin]
  apply leaves_register (register_includePin _ _ _) hspares
  rw [exec_includePin]
  apply leaves_register (register_includePin _ _ _) hspares
  rw [exec_includePin]
  apply leaves_register register_alu hspares
  rw [includePins_eq r b' l]
  apply Prog.leaves_ite
  · intro _
    exact leaves_register register_alu hspares trivial
  intro hmask
  apply leaves_register (register_movImm _) hspares
  apply Prog.leaves_op_bind
  intro _
  refine ⟨fun h => by simp [OfferedAt] at h, ?_⟩
  apply Prog.leaves_op_bind
  intro _
  refine ⟨fun hoffered => ?_, trivial⟩
  have hordinal : b'.ordinal = b.ordinal := by
    rw [← h26]
    simpa [OfferedAt] using hoffered
  obtain rfl : b' = b := Bank.ordinal_injective hordinal
  refine ⟨r, rfl, hr, fun hmax => hmask ?_, by cases b' <;> rfl⟩
  rw [activeMask_eq_zero_iff, hmax]
  exact le_rfl

end Offer

/-! ### Until the helper has read it -/

/-- From its gate on, bank `b` is the last that can be reported as long as
the grant does not go beyond it. -/
def Phase.Held (b : Bank) : Phase → Prop
  | .gate b' bs => b.ordinal ≤ b'.ordinal ∧ ∀ b'' ∈ bs, b.ordinal < b''.ordinal
  | .release b' bs | .rerun b' bs | .stream b' bs _ | .drain b' bs _ =>
    b' = b ∧ ∀ b'' ∈ bs, b.ordinal < b''.ordinal
  | .enter bs => ∀ b' ∈ bs, b.ordinal < b'.ordinal
  | .offer b' bs => b.ordinal < b'.ordinal ∧ ∀ b'' ∈ bs, b.ordinal < b''.ordinal
  | .settle _ | .clearError | .finish | .poll | .fatal _ | .fatalStatus | .halting | .halted => True
  | _ => False

/-- The host offers no later grant and no other sequence. -/
def Withholds (b : Bank) (seq : Word) (e : PruEvent) : Prop :=
  (∀ v : Word, e = ⟨.lbco .bankGrant, v⟩ → v ≤ b.ordinal) ∧
    ∀ v : Word, e = ⟨.lbco .requestSeq, v⟩ → v = seq

section Held

variable {tm : Timing} {l : Fin 6 → Word} {b : Bank} {seq : Word} {s s' : FState} {e : PruEvent}

theorem held_streaming {b' : Bank} {bs : List Bank} {left : List PruEvent} (hb : b' = b)
    (hbs : ∀ b'' ∈ bs, b.ordinal < b''.ordinal) : (streaming b' bs left).Held b := by
  unfold streaming
  split <;> exact ⟨hb, hbs⟩

/-- The only store of `bank_done` is that of bank `b`. -/
theorem held_bankDone {cur : List PruEvent} {v : Word} (h : s.phase.Held b)
    (hrec : Recorded tm l s cur) (hstep : FStep tm l s ⟨.sbco .bankDone v, ()⟩ s') :
    v = b.ordinal := by
  generalize he : (⟨.sbco .bankDone v, ()⟩ : PruEvent) = e at hstep
  cases hstep with
  | drained =>
    cases he
    rw [h.1]
  | stream => exact absurd he.symm (sbco_ne_stream hrec _ _)
  | boot | publish | clearDone => exact h.elim
  | _ => cases he

theorem held_step (h : s.phase.Held b ∧ s.seq = seq) (hstep : FStep tm l s e s')
    (he : Withholds b seq e) : s'.phase.Held b ∧ s'.seq = seq := by
  obtain ⟨hheld, hseq⟩ := h
  refine ⟨?_, ?_⟩
  · cases hstep with
    | alu => exact hheld
    | stream => exact held_streaming hheld.1 hheld.2
    | boot | booted | bootFailed | publish | latch | latchFailed | clearReady | clearDone | accept
    | readColour | colourFailed | start => exact hheld.elim
    | pollSame => trivial
    | pollNew hv => exact absurd ((he.2 _ rfl).trans hseq.symm) hv
    | config => exact hheld
    | wait => exact ⟨hheld _ (.head _), fun b'' hb => hheld b'' (.tail _ hb)⟩
    | offer => exact ⟨BitVec.le_of_lt hheld.1, hheld.2⟩
    | gateWait => exact hheld
    | @gate _ _ _ b' =>
      have hle := he.1 _ rfl
      exact ⟨Bank.ordinal_injective (BitVec.le_antisymm hle hheld.1), hheld.2⟩
    | drained => exact hheld.2
    | _ => trivial
  · cases hstep <;> first | exact hseq | skip
    · exact absurd ((he.2 _ rfl).trans hseq.symm) ‹_›

end Held

/-! ### Along a run -/

section Run

variable {tm : Timing} {l : Fin 6 → Word} {b : Bank} {r₀ : Regs} {now stop : Nat}
variable {y : Label × Regs} {q : PProg Next} {pre post : List PruInstr} {i : PruInstr}

theorem lt_of_mem_laterNonEmpty {b' : Bank} (h : b' ∈ laterNonEmpty l b) : b.ordinal < b'.ordinal := by
  have hlater : b' ∈ later b := List.mem_of_mem_filter h
  cases b <;> cases b' <;> first | decide | exact absurd hlater (by decide)

/-- The firmware after the offer of a bank. -/
theorem FromStart.offered (h : FromStart tm l r₀ now (pre ++ i :: post) y q stop)
    (hlabel : i.label.1 = .sendGroup) (hi : OfferedAt b i.event) :
    ∃ r : Regs, Ready tm l r ∧ maxOfBank l b ≠ 0 ∧
      TimedRun tm i.label (pure (some (.gateWait, r.atGate b l))) i.stop post y q stop ∧
      i.start ≤ i.stop ∧ i.stop ≤ i.start + access ∧
      ((firmware tm l).run started ((pre ++ [i]).map (·.event))).phase.Held b ∧
      ((firmware tm l).run started ((pre ++ [i]).map (·.event))).seq = i.label.2.r3 := by
  have hblock (r : Regs) (s : FState) (hx : Reckoned tm l (some (.sendGroup, r)) s) :
      (sendGroupBlock r).Leaves (OfferedAt b) (AtItsGate tm l b (.sendGroup, r)) := by
    obtain ⟨⟨b', r', rfl, hr, -⟩, -⟩ := hx
    exact leaves_sendGroup hr
  obtain ⟨q', ⟨r, rfl, hr, hmax, hr3⟩, hrun, hgood, hstart, hstop⟩ := h.leaving hlabel hi hblock
  refine ⟨r, hr, hmax, hrun, hstart, hstop, ?_⟩
  rw [List.map_append, Monitor.run_append]
  obtain ⟨⟨b', r', hregs, -, -, hphase, hseq, -⟩, -⟩ := hgood
  have hordinal : b.ordinal = b'.ordinal := by
    have h26 := congrArg Regs.r26 hregs
    exact (atBank_r26 r b l).symm.trans (h26.trans (atBank_r26 r' b' l))
  obtain rfl : b = b' := Bank.ordinal_injective hordinal
  have h3 : (r.atGate b l).r3 = r.r3 := by cases b <;> rfl
  refine ⟨?_, hseq.trans (h3.trans hr3)⟩
  show Phase.Held b ((firmware tm l).next _ i.event).phase
  rw [hphase]
  exact ⟨BitVec.le_refl _, fun b'' hb => lt_of_mem_laterNonEmpty hb⟩

/-- A granted bank has stored `bank_done`, or reported its drain, by `D`;
until then the firmware does not halt. -/
theorem bank_in_time {g D : Nat} (h : FromStart tm l r₀ now (pre ++ i :: post) y q stop)
    (hlabel : i.label.1 = .sendGroup) (hi : OfferedAt b i.event) (hg : i.start ≤ g)
    (hD : g + access + 2 * cycle + gateTime tm l b ≤ D)
    (hgrant : ∀ j ∈ post, GrantedAt b g D j.start j.stop j.event) :
    (∃ j ∈ post, DrainEnds b j.event ∧ j.stop ≤ D) ∨ (stop ≤ D ∧ q ≠ .ret none) := by
  obtain ⟨r, hr, hmax, hrun, -, hstop, -⟩ := h.offered hlabel hi
  refine hrun.meets (fun x now hx => bank_meets hr.admitted hr.lengths hmax hD x now hx) ?_ hgrant
  apply Machine.meets_pure (by omega)
  exact ⟨_, rfl, r, rfl, hr.loaded, by omega⟩

theorem held_run {seq : Word} {s : FState} {t : List PruInstr} (h : s.phase.Held b ∧ s.seq = seq)
    (hsafe : (firmware tm l).SafeAlong s (t.map (·.event)))
    (ht : ∀ j ∈ t, Withholds b seq j.event) :
    ((firmware tm l).run s (t.map (·.event))).phase.Held b := by
  induction t generalizing s with
  | nil => exact h.1
  | cons j t ih =>
    have hnext := held_step h (FStep.of_safe hsafe.1) (ht j (.head _))
    exact ih hnext hsafe.2 fun k hk => ht k (.tail _ hk)

/-- Until the host goes on, `bank_done` gets no other value. -/
theorem bank_only {mid : List PruInstr} {j : PruInstr} {v : Word}
    (h : FromStart tm l r₀ now (pre ++ i :: (mid ++ j :: post)) y q stop)
    (hlabel : i.label.1 = .sendGroup) (hi : OfferedAt b i.event)
    (hhost : ∀ k ∈ mid, Withholds b i.label.2.r3 k.event)
    (hj : j.event = ⟨.sbco .bankDone v, ()⟩) : v = b.ordinal := by
  obtain ⟨-, -, -, -, -, -, hheld⟩ := h.offered hlabel hi
  obtain ⟨s, -, hs, -, -, hsafe⟩ := h.at
  have hlist : pre ++ i :: (mid ++ j :: post) = ((pre ++ [i]) ++ mid) ++ j :: post := by simp
  rw [hlist] at h
  obtain ⟨s', cur, hs', hrec, hstep, -⟩ := h.at
  rw [hj] at hstep
  refine held_bankDone ?_ hrec hstep
  rw [hs', List.map_append, Monitor.run_append]
  refine held_run hheld ?_ hhost
  have hnext : (firmware tm l).run started ((pre ++ [i]).map (·.event)) =
      (firmware tm l).next s i.event := by
    rw [hs, List.map_append, Monitor.run_append]
    rfl
  rw [hnext]
  rw [List.map_append, Monitor.safeAlong_append] at hsafe
  exact hsafe.1

end Run

/-! ### The host on the same clock -/

/-- The frame of a host: the mailbox as the host has left it at each time,
and a run of the firmware from `START` whose reads find what is there at
some moment of the access. -/
structure Hosted (l : Fin 6 → Word) (host : Nat → DldCommand) (r₀ : Regs) (now : Nat)
    (t : List PruInstr) (y : Label × Regs) (q : PProg Next) (stop : Nat) : Prop where
  run : TimedRun profileTiming (.start, r₀) (code profileTiming (.start, r₀)) now t y q stop
  finds : ∀ i ∈ t, ∀ off, ∀ v : Word, i.event = ⟨.lbco off, v⟩ →
    ∃ τ, i.start ≤ τ ∧ τ ≤ i.stop ∧ v = host τ off
  lengths : ∀ τ i, host τ (.lengths i) = l i
  colour : ∀ τ, host τ .wireColor >>> 24 = 0

/-- The host grants bank `b`, which `i` has offered, at time `g`, and leaves
the grant and the request as they are until `ρ`. -/
structure Grants (host : Nat → DldCommand) (b : Bank) (i : PruInstr) (g ρ : Nat) : Prop where
  offered : i.start ≤ g
  before : ∀ τ, i.start ≤ τ → τ < g → host τ .bankGrant < b.ordinal
  granted : ∀ τ, g ≤ τ → τ ≤ ρ → host τ .bankGrant = b.ordinal
  request : ∀ τ, i.start ≤ τ → τ ≤ ρ → host τ .requestSeq = i.label.2.r3

/-- A read of `bank_done` at time `ρ` can return `v`: a store of `v` has
begun, and none after it has ended. -/
def ReadsDone (t : List PruInstr) (ρ : Nat) (v : Word) : Prop :=
  ∃ pre j post, t = pre ++ j :: post ∧ j.event = ⟨.sbco .bankDone v, ()⟩ ∧ j.start ≤ ρ ∧
    ∀ k ∈ post, ∀ w : Word, k.event = ⟨.sbco .bankDone w, ()⟩ → ρ < k.stop

section Hosted

variable {l : Fin 6 → Word} {host : Nat → DldCommand} {r₀ : Regs} {now stop g ρ D : Nat}
variable {t pre post : List PruInstr} {y : Label × Regs} {q : PProg Next} {i : PruInstr} {b : Bank}

theorem Hosted.fromStart (h : Hosted l host r₀ now t y q stop) :
    FromStart profileTiming l r₀ now t y q stop where
  run := h.run
  config := by
    intro i hi
    unfold ConfigReads
    split
    · next s v hevent =>
      obtain ⟨τ, -, -, hv⟩ := h.finds i hi _ _ hevent
      rw [hv]
      exact h.lengths τ s
    · trivial

/-- In its order, what comes later has begun later. -/
theorem Hosted.order (h : Hosted l host r₀ now (pre ++ i :: post) y q stop) :
    i.start ≤ i.stop ∧ ∀ j ∈ post, i.stop ≤ j.start ∧ j.start ≤ j.stop := by
  have hafter := (h.run.paced.after).2.2.start_le
  exact ⟨(h.run.paced.start_le i (by simp)).2, hafter⟩

/-- A read before `ρ` finds the grant the host has left. -/
theorem Grants.read (hgrants : Grants host b i g ρ) {τ : Nat} (hi : i.start ≤ τ) (hρ : τ ≤ ρ) :
    host τ .bankGrant ≤ b.ordinal ∧ (g ≤ τ → host τ .bankGrant = b.ordinal) := by
  refine ⟨?_, fun hg => hgrants.granted τ hg hρ⟩
  rcases Nat.lt_or_ge τ g with hlt | hge
  · exact BitVec.le_of_lt (hgrants.before τ hi hlt)
  · exact BitVec.le_of_eq (hgrants.granted τ hge hρ)

theorem Hosted.grantedAt (h : Hosted l host r₀ now (pre ++ i :: post) y q stop)
    (hgrants : Grants host b i g ρ) (hD : D ≤ ρ) :
    ∀ j ∈ post, GrantedAt b g D j.start j.stop j.event := by
  intro j hj hstop v hevent
  obtain ⟨τ, hstart, hend, rfl⟩ := h.finds j (by simp [hj]) _ v hevent
  obtain ⟨hi, hpost⟩ := h.order
  have hlater := (hpost j hj).1
  obtain ⟨hle, heq⟩ := hgrants.read (τ := τ) (by omega) (by omega)
  exact ⟨hle, fun hg => heq (by omega)⟩

theorem Hosted.withholds (h : Hosted l host r₀ now (pre ++ i :: post) y q stop)
    (hgrants : Grants host b i g ρ) :
    ∀ j ∈ post, j.stop ≤ ρ → Withholds b i.label.2.r3 j.event := by
  intro j hj hρ
  obtain ⟨hi, hpost⟩ := h.order
  have hlater := (hpost j hj).1
  refine ⟨fun v hevent => ?_, fun v hevent => ?_⟩
  · obtain ⟨τ, hstart, hend, rfl⟩ := h.finds j (by simp [hj]) _ v hevent
    exact (hgrants.read (by omega) (by omega)).1
  · obtain ⟨τ, hstart, hend, rfl⟩ := h.finds j (by simp [hj]) _ v hevent
    exact hgrants.request τ (by omega) (by omega)

/-- Whatever `bank_done` is stored by `ρ`, it is this bank's. -/
theorem Hosted.only (h : Hosted l host r₀ now (pre ++ i :: post) y q stop)
    (hlabel : i.label.1 = .sendGroup) (hi : OfferedAt b i.event) (hgrants : Grants host b i g ρ)
    {j : PruInstr} {v : Word} (hj : j ∈ post) (hstart : j.start ≤ ρ)
    (hevent : j.event = ⟨.sbco .bankDone v, ()⟩) : v = b.ordinal := by
  obtain ⟨mid, rest, rfl⟩ := List.append_of_mem hj
  refine bank_only h.fromStart hlabel hi (fun k hk => ?_) hevent
  have hlist : pre ++ i :: (mid ++ j :: rest) = (pre ++ i :: mid) ++ j :: rest := by simp
  have hbefore : k.stop ≤ j.start := by
    obtain ⟨us, vs, rfl⟩ := List.append_of_mem hk
    have hsplit : pre ++ i :: ((us ++ k :: vs) ++ j :: rest) =
        (pre ++ i :: us) ++ k :: (vs ++ j :: rest) := by simp
    rw [hsplit] at h
    exact (h.order.2 j (by simp)).1
  exact h.withholds hgrants k (by simp [hk]) (hbefore.trans hstart)

/-- A read after the store of this bank finds its ordinal. -/
theorem Hosted.reads (h : Hosted l host r₀ now (pre ++ i :: post) y q stop)
    (hlabel : i.label.1 = .sendGroup) (hi : OfferedAt b i.event) (hgrants : Grants host b i g ρ)
    {j : PruInstr} (hj : j ∈ post) (hdrained : DrainedAt b j.event) (hρ : j.stop ≤ ρ) {v : Word}
    (hv : ReadsDone (pre ++ i :: post) ρ v) : v = b.ordinal := by
  obtain ⟨us, k, vs, hsplit, hk, hbegun, hlast⟩ := hv
  have hnot : j ∉ vs := by
    intro hmem
    have hlt := hlast j hmem _ hdrained
    omega
  -- the store that is seen is not before that of the bank
  rcases List.append_eq_append_iff.mp hsplit with ⟨ws, hus, hrest⟩ | ⟨ws, hpre, hrest⟩
  · cases ws with
    | nil =>
      obtain ⟨rfl, rfl⟩ := List.cons.inj hrest
      exact absurd hj hnot
    | cons w ws =>
      obtain ⟨rfl, rfl⟩ := List.cons.inj hrest
      exact h.only hlabel hi hgrants (by simp) hbegun hk
  · cases ws with
    | nil =>
      obtain ⟨rfl, rfl⟩ := List.cons.inj hrest
      exact absurd hj hnot
    | cons w ws =>
      obtain ⟨rfl, rfl⟩ := List.cons.inj hrest
      exact absurd (by simp [hj]) hnot

end Hosted

/-! ### The numbers -/

/-- With the constants of `dld_profiles.h`, the budget leaves room for what
comes between the grant and the store. -/
theorem gateTime_le_bankBudget {l : Fin 6 → Word} {b : Bank} (hl : ∀ i, l i ≤ maxLength)
    (hmax : maxOfBank l b ≠ 0) (g : Nat) :
    g + access + 2 * cycle + gateTime profileTiming l b ≤ g + (bankBudget l b).toNat := by
  have hbit : profileTiming.bit.toNat = 240 := rfl
  have hattempts : drainAttempts = 8 := rfl
  rw [toNat_bankBudget hl hmax]
  simp only [gateTime, streamTime, drainTime, attemptTime, access, cycle, hbit, hattempts]
  omega

/-- The settle time in PRU cycles. -/
theorem settleCycles_eq (l : Fin 6 → Word) :
    settleCycles l = 60000 + 20000 +
      200 * (max (max (maxOfBank l .gpio2).toNat (maxOfBank l .gpio1).toNat)
        (maxOfBank l .gpio0).toNat - 1) := by
  simp only [settleCycles, resetCycles, settleMarginCycles, propagationCycles]
  omega

/-! ### A run from `START`, for one bank -/

theorem lasts_cycle (x : Label × Regs) (o : PruOp) : Lasts x o cycle := by
  cases o with
  | alu | loadDelay | halt => rfl
  | _ =>
    show if x.1 = .sendPixel then cycle = cycle else cycle ≤ access
    split
    · rfl
    · decide

end Pru

section OneBank

open Pru

/-- `START`, and what it and the acceptance read. -/
theorem oneBank_boot_listens : ∃ es,
    Prog.Runs (startBlock profileTiming default) es (some (.requestLoop, oneBankRegs)) ∧
    ∀ e ∈ es ++ oneBankAccept, listens oneBankPublished.mailbox e = true := by
  refine ⟨_, oneBankStart_runs, ?_⟩
  have hheard : ∀ e ∈ oneBankBoot ++ ((publishReady oneBankRegs).exec silent).1 ++ oneBankAccept,
      listens oneBankPublished.mailbox e = true := by
    refine List.all_eq_true.mp ?_
    decide +kernel
  intro e he
  rcases List.mem_append.mp he with he | he
  · rcases List.mem_append.mp he with he | he
    · exact hheard e (by simp [he])
    · rcases List.mem_append.mp he with he | he
      · exact listens_settle _ e he
      · exact hheard e (by simp [he])
  · exact hheard e (by simp [he])

/-- What the frame reads, and its store. -/
theorem oneBank_frame_listens : ∃ es q,
    Machine.Steps (code profileTiming)
      (code profileTiming (.gateWait, oneBankAtBank.atGate .gpio0 oneBankRequest.stringLengths)) es q ∧
    ⟨.sbco .bankDone Bank.gpio0.ordinal, ()⟩ ∈ es ∧
    ∀ e ∈ es, listens oneBankGranted.mailbox e = true := by
  have hdone : ⟨.sbco .bankDone Bank.gpio0.ordinal, ()⟩ ∈ oneBankDrain := by decide +kernel
  have hheard : ∀ e ∈ releaseEvents .gpio0 ++ oneBankDrain ++ doneEvents 1,
      listens oneBankGranted.mailbox e = true := by
    refine List.all_eq_true.mp ?_
    decide +kernel
  refine ⟨_, _, oneBankFrame_steps, by simp [hdone], ?_⟩
  intro e he
  rcases List.mem_append.mp he with he | he
  · exact hheard e (by simp [he])
  rcases List.mem_append.mp he with he | he
  · exact listens_bankStream _ e he
  rcases List.mem_append.mp he with he | he
  · exact hheard e (by simp [he])
  rcases List.mem_append.mp he with he | he
  · rcases List.mem_cons.mp he with rfl | he
    · rfl
    · exact listens_settle _ e he
  · exact hheard e (List.mem_append_right _ he)

/-- The mailbox as the helper leaves it, with the grant at time `g`. -/
def oneBankHost (g τ : Nat) : DldCommand :=
  if τ < g then oneBankPublished.mailbox else oneBankGranted.mailbox

/-- The run up to the grant and the run from it on. -/
theorem hosted_oneBank {g stop : Nat} {x y : Label × Pru.Regs} {p q : PProg Next}
    {t t' : List PruInstr} {es es' : List PruEvent}
    (h : TimedRun profileTiming (.start, default) (code profileTiming (.start, default)) 0 t x p g)
    (heven : Machine.Even cycle es t)
    (hlisten : ∀ e ∈ es, listens oneBankPublished.mailbox e = true)
    (h' : TimedRun profileTiming x p g t' y q stop) (heven' : Machine.Even cycle es' t')
    (hlisten' : ∀ e ∈ es', listens oneBankGranted.mailbox e = true) :
    Hosted oneBankRequest.stringLengths (oneBankHost g) default 0 (t ++ t') y q stop where
  run := h.append h'
  finds := by
    intro i hi off v hevent
    refine ⟨i.start, le_rfl, ?_, ?_⟩
    · exact ((h.append h').paced.start_le i hi).2
    rcases List.mem_append.mp hi with hi | hi
    · -- before the grant
      have hstop := h.stop_le i hi
      have hlength := heven.length i hi
      have hearly : i.start < g := by
        rw [cycle] at hlength
        omega
      have hread := hlisten i.event (heven.events ▸ List.mem_map_of_mem hi)
      rw [hevent] at hread
      rw [oneBankHost, if_pos hearly]
      exact listens_read hread
    · have hlate : ¬ i.start < g := Nat.not_lt.mpr (h'.paced.start_le i hi).1
      have hread := hlisten' i.event (heven'.events ▸ List.mem_map_of_mem hi)
      rw [hevent] at hread
      rw [oneBankHost, if_neg hlate]
      exact listens_read hread
  lengths := by
    have hlengths : ∀ i, oneBankPublished.mailbox (.lengths i) = oneBankRequest.stringLengths i ∧
        oneBankGranted.mailbox (.lengths i) = oneBankRequest.stringLengths i := by
      decide +kernel
    intro τ i
    unfold oneBankHost
    split
    · exact (hlengths i).1
    · exact (hlengths i).2
  colour := by
    intro τ
    unfold oneBankHost
    split <;> decide +kernel

end OneBank

/-! ### The main theorem -/

section Main

open Pru

variable {l : Fin 6 → Word} {host : Nat → DldCommand} {r₀ : Pru.Regs} {now stop : Nat}
variable {t : List PruInstr} {y : Label × Pru.Regs} {q : PProg Next}

/-- **The budget covers the stream.**  For every configuration the budgets
are computed without a wrap and stay below the limit.  In every timed run of
the firmware from `START`, on the constants of the shipped profile:

  * a bank that is granted at `g` has stored `bank_done`, or reported its
    drain, when its budget is over, and a read after its store finds its
    ordinal as long as the host has not gone on;
  * DONE follows the last `bank_done`, or the acceptance of a frame without
    banks, in less than 20 ms;
  * DONE never comes earlier than the settle time after a readback. -/
theorem budget_covers_stream (hl : ∀ i, l i ≤ maxLength)
    (h : Hosted l host r₀ now t y q stop) :
    (∀ request : DldQuietSend, request.stringLengths = l →
      (setBudgets request Bank.pass).2 = 0 ∧
      ∀ b, maxOfBank l b ≠ 0 → (setBudgets request Bank.pass).1.budgetCycles b.index = bankBudget l b ∧
        (bankBudget l b).toNat = 28800 * (maxOfBank l b).toNat + 600000 ∧
        (bankBudget l b).toNat < 10000000) ∧
    (∀ pre i post b g ρ, t = pre ++ i :: post → i.label.1 = .sendGroup → OfferedAt b i.event →
      Grants host b i g ρ → g + (bankBudget l b).toNat ≤ ρ →
      ((∃ j ∈ post, DrainEnds b j.event ∧ j.stop ≤ g + (bankBudget l b).toNat) ∨
        (stop ≤ g + (bankBudget l b).toNat ∧ q ≠ .ret none)) ∧
      ∀ j ∈ post, DrainedAt b j.event → j.stop ≤ ρ → ∀ v, ReadsDone t ρ v → v = b.ordinal) ∧
    (∀ pre i post, t = pre ++ i :: post → LastDone l i →
      (∃ j ∈ post, DoneStore j.event ∧ j.stop < i.start + finalTime) ∨
        (stop < i.start + finalTime ∧ q ≠ .ret none)) ∧
    ∀ pre i mid j post address, ∀ v : Word, t = pre ++ i :: (mid ++ j :: post) →
      i.event = ⟨.lbbo address, v⟩ → DoneStore j.event →
      i.stop + (60000 + 20000 + 200 * (max (max (maxOfBank l .gpio2).toNat (maxOfBank l .gpio1).toNat)
        (maxOfBank l .gpio0).toNat - 1)) * cycle ≤ j.start := by
  refine ⟨?_, ?_, ?_, ?_⟩
  · intro request hrequest
    obtain ⟨hzero, hbudgets⟩ := setBudgets_pass hl hrequest
    refine ⟨hzero, fun b hmax => ⟨hbudgets b, toNat_bankBudget hl hmax, ?_⟩⟩
    exact BitVec.lt_def.mp (bankBudget_lt hl b)
  · rintro pre i post b g ρ rfl hlabel hi hgrants hρ
    obtain ⟨-, -, hmax, -⟩ := h.fromStart.offered hlabel hi
    refine ⟨?_, fun j hj hdrained hstop v hv => h.reads hlabel hi hgrants hj hdrained hstop hv⟩
    exact bank_in_time h.fromStart hlabel hi hgrants.offered (gateTime_le_bankBudget hl hmax g)
      (h.grantedAt hgrants hρ)
  · rintro pre i post rfl hi
    refine done_in_time h.fromStart hi fun j hj v hevent => ?_
    obtain ⟨τ, -, -, rfl⟩ := h.finds j (by simp [hj]) _ v hevent
    exact h.colour τ
  · rintro pre i mid j post address v rfl hi hj
    rw [← settleCycles_eq]
    exact done_not_early h.fromStart hi hj

/-- The firmware through a frame for one bank, every instruction in one
cycle: the helper grants the bank at its gate, and reads its ordinal. -/
theorem budget_covers_stream_oneBank :
    ∃ t y q stop pre i post g,
      Hosted oneBankRequest.stringLengths (oneBankHost g) default 0 t y q stop ∧
      t = pre ++ i :: post ∧ i.label.1 = .sendGroup ∧ OfferedAt .gpio0 i.event ∧
      (∃ j ∈ post, DrainedAt .gpio0 j.event) ∧
      ((∃ j ∈ post, DrainEnds .gpio0 j.event ∧ j.stop ≤ g + 744000) ∨
        (stop ≤ g + 744000 ∧ q ≠ .ret none)) ∧
      ∀ v, ReadsDone t (g + 744000 + stop) v → v = Bank.gpio0.ordinal := by
  obtain ⟨es, hboot, hlisten⟩ := oneBank_boot_listens
  obtain ⟨es₃, q, hframe, hdone, hlisten₃⟩ := oneBank_frame_listens
  -- the pieces on one clock
  obtain ⟨t₀, n₀, hrun₀, heven₀, -⟩ := Machine.Timed.of_runs (code profileTiming) Lasts
    (lasts_cycle (.start, default)) hboot 0
  obtain ⟨t₁, n₁, hrun₁, heven₁⟩ :=
    Machine.Timed.of_exec (code profileTiming) Lasts lasts_cycle oneBankAccept_exec n₀
  obtain ⟨t₂, g, hrun₂, heven₂, hlabel⟩ := Machine.Timed.of_runs (code profileTiming) Lasts
    (lasts_cycle _) (sendGroup_offer (r := oneBankAtBank) (b := .gpio0)
      (l := oneBankRequest.stringLengths) (by decide)) n₁
  obtain ⟨t₃, y, stop, hrun₃, heven₃⟩ := Machine.Timed.of_steps (code profileTiming) Lasts
    lasts_cycle hframe (.gateWait, oneBankAtBank.atGate .gpio0 oneBankRequest.stringLengths) g
  have hoffer : ∀ e ∈ offerEvents .gpio0 oneBankRequest.stringLengths,
      listens oneBankPublished.mailbox e = true := by
    refine List.all_eq_true.mp ?_
    decide
  have hhosted := hosted_oneBank ((hrun₀.append hrun₁).append hrun₂)
    ((heven₀.append heven₁).append heven₂) (fun e he => (List.mem_append.mp he).elim (hlisten e)
      (hoffer e)) hrun₃ heven₃ hlisten₃
  -- the offer is the last event of its block
  have hevents : t₂.map (·.event) = (idle 7 ++ [⟨.sbco .status statusWaitBank, ()⟩]) ++
      [⟨.sbco .bankReady Bank.gpio0.ordinal, ()⟩] := heven₂.events
  obtain ⟨us, vs, rfl, -, hlast⟩ := List.map_eq_append_iff.mp hevents
  obtain ⟨i, ws, rfl, hi, hnil⟩ := List.map_eq_cons_iff.mp hlast
  obtain rfl := List.map_eq_nil_iff.mp hnil
  have hlabel := hlabel i (by simp)
  have hstop : i.start ≤ g := (hrun₂.paced.start_le i (by simp)).2.trans (hrun₂.stop_le i (by simp))
  obtain ⟨j, hj, hdrained⟩ := List.mem_map.mp (heven₃.events ▸ hdone)
  have hsplit : ((t₀ ++ t₁) ++ (us ++ [i])) ++ t₃ = (t₀ ++ t₁ ++ us) ++ i :: t₃ := by simp
  have hgrants : Grants (oneBankHost g) .gpio0 i g (g + 744000 + stop) := by
    have hnone : oneBankPublished.mailbox .bankGrant < Bank.gpio0.ordinal := by decide +kernel
    have hgranted : oneBankGranted.mailbox .bankGrant = Bank.gpio0.ordinal := by decide +kernel
    have hseq : oneBankPublished.mailbox .requestSeq = 1 ∧
        oneBankGranted.mailbox .requestSeq = 1 := by decide +kernel
    refine ⟨hstop, fun τ _ hτ => ?_, fun τ hτ _ => ?_, fun τ _ _ => ?_⟩
    · rw [oneBankHost, if_pos hτ]
      exact hnone
    · rw [oneBankHost, if_neg (by omega)]
      exact hgranted
    · rw [hlabel]
      unfold oneBankHost
      split
      · exact hseq.1
      · exact hseq.2
  have hbudget : (bankBudget oneBankRequest.stringLengths .gpio0).toNat = 744000 := by decide
  obtain ⟨hmet, hreads⟩ := (budget_covers_stream (by decide) hhosted).2.1 _ i t₃ .gpio0 g
    (g + 744000 + stop) hsplit (by rw [hlabel]) hi hgrants (by omega)
  rw [hbudget] at hmet
  have hjstop : j.stop ≤ g + 744000 + stop := (hrun₃.stop_le j hj).trans (by omega)
  exact ⟨_, y, q, stop, _, i, t₃, g, hhosted, hsplit, by rw [hlabel], hi, ⟨j, hj, hdrained⟩, hmet,
    hreads j hj hdrained hjstop⟩

end Main

end Dld
