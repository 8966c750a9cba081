/-
DldDriver/System/Handshake.lean

The helper and the firmware on one frame: what each operation of the helper
does to the invariant of `System/Frame`, and the two parties together.

    handshake        their monitors and the invariant
    underway_frame   it holds where an accepted request meets the firmware
                     in its request loop
-/
import DldDriver.System.Frame

namespace Dld

open Interaction

/-! ### A step of the helper -/

section Helper

variable {request : DldQuietSend} {l : Fin 6 → Word} {m₀ m : DldCommand} {d : Pru.FState}
variable {p : KPhase}

/-- The words of an idle session in which the request is not yet published. -/
theorem Progress.idle (hp : Progress request l m₀ d) (hphase : d.phase = .poll)
    (hseq : d.seq = request.previousSeq) : d.out = m₀ := by
  obtain ⟨phase, seq, colour, out⟩ := d
  obtain rfl : phase = .poll := hphase
  rcases hp with ⟨-, hout⟩ | hcarried
  · exact hout
  · have hnew := hcarried.seq.symm.trans hseq
    exact absurd hnew (by simp)

/-- The wait for a bank ends at its gate. -/
theorem Before.ready {b : Bank} {bs : List Bank} (h : Before request l (b :: bs) d)
    (hframe : Frame request l m₀) (hp : Progress request l m₀ d)
    (hready : d.out .bankReady = b.ordinal) : d.phase = .gate b bs := by
  have hnone {P : Prop} (h0 : d.out .bankReady = 0) : P :=
    absurd (hready.symm.trans h0) b.ordinal_ne_zero
  have hold {P : Prop} (hout : d.out = m₀) : P := hnone (by rw [hout, hframe.ready])
  obtain ⟨phase, seq, colour, out⟩ := d
  cases phase with
  | poll =>
    rcases hp with ⟨-, hout⟩ | hcarried
    · exact hold hout
    · exact hnone hcarried.ready
  | latch | clearReady | clearDone => exact hold hp.2
  | accept | readColour =>
    have hout : out = _ := hp.2
    refine hnone ?_
    show out .bankReady = 0
    rw [hout]
    exact hframe.ready
  | start => exact hnone hp.ready
  | enter | offer =>
    obtain ⟨sent, -, hcarried⟩ := hp
    exact hnone hcarried.ready
  | gate b' bs' =>
    obtain ⟨rfl, rfl⟩ : b' = b ∧ bs' = bs := List.cons.inj h
    rfl
  | settle | clearError | finish => exact hnone hp.ready
  | _ => exact h.elim

/-- `bank_done` does not name the granted bank before it is sent. -/
theorem AtBank.not_done {b : Bank} {bs : List Bank} (h : AtBank b bs d)
    (hp : Progress request l m₀ d) : d.out .bankDone ≠ b.ordinal := by
  have hearlier {status ready : Word} {seq colour : Word} {out : DldCommand} (hp : ∃ sent, sent ++ b :: bs = Pru.nonEmpty l ∧
      Carried request seq colour out sent status ready request.previousSeq) :
      out .bankDone ≠ b.ordinal := by
    obtain ⟨sent, hsent, hcarried⟩ := hp
    intro hdone
    have hlast : lastOf sent = b.ordinal := hcarried.done.symm.trans hdone
    exact absurd (lastOf_lt hsent) (hlast ▸ BitVec.lt_irrefl _)
  obtain ⟨phase, seq, colour, out⟩ := d
  cases phase with
  | gate | release | rerun | stream | drain =>
    obtain ⟨rfl, rfl⟩ : _ ∧ _ := h
    exact hearlier hp
  | fatalStatus | halting | halted => exact h
  | _ => exact h.elim

/-- The final wait does not end on the DONE of an earlier frame. -/
theorem Before.matched (h : Before request l [] d) (hp : Progress request l m₀ d)
    (hdone : d.out .status = statusDone) : Matched request l m₀ [] d := by
  intro hfresh
  -- where no bank is to be sent, the session starts READY
  have hold {P : Prop} (hnone : [] = Pru.nonEmpty l) (hstatus : m₀ .status = statusDone) : P := by
    rcases hfresh with hsome | hready
    · exact absurd hnone.symm hsome
    · exact absurd (hready.symm.trans hstatus) (by decide)
  have hrunning {P : Prop} (h : d.out .status = statusRunning) : P :=
    absurd (h.symm.trans hdone) (by decide)
  obtain ⟨phase, seq, colour, out⟩ := d
  cases phase with
  | poll =>
    rcases h with ⟨hseq, hnone⟩ | ⟨hseq, -⟩
    · exact hold hnone ((hp.idle rfl hseq) ▸ hdone)
    · exact ⟨rfl, hseq⟩
  | latch | clearReady | clearDone =>
    have hout : out = m₀ := hp.2
    exact hold h (hout ▸ hdone)
  | accept | readColour =>
    have hout : out = _ := hp.2
    refine hold h ?_
    rw [← hdone]
    show _ = out .status
    rw [hout]
    rfl
  | start => exact hold h (hp.status.symm.trans hdone)
  | enter =>
    obtain ⟨sent, -, hcarried⟩ := hp
    exact hrunning hcarried.status
  | offer | gate => cases h
  | settle | clearError | finish => exact hrunning hp.status
  | _ => exact h.elim

/-- A read of the helper. -/
theorem Sync.read (h : Sync request l m₀ m p d) (hframe : Frame request l m₀)
    (hp : Progress request l m₀ d) (hkept : ∀ off ∈ Pru.firmwareWords, m off = d.out off)
    (off : Off) : Sync request l m₀ m (p.read request off (m off)) d := by
  cases p with
  | waiting bs isMatched =>
    obtain ⟨hwords, hgrant, hbefore, hmatched⟩ := h
    cases bs with
    | cons b bs =>
      cases off with
      | bankReady =>
        refine ⟨hwords, hgrant, hbefore, fun hread => ?_⟩
        rcases Bool.or_eq_true_iff.mp hread with hmatched' | hready
        · exact hmatched hmatched'
        · rw [hkept _ (by decide)] at hready
          exact hbefore.ready hframe hp (of_decide_eq_true hready)
      | _ => exact ⟨hwords, hgrant, hbefore, hmatched⟩
    | nil =>
      cases off with
      | status =>
        refine ⟨hwords, hgrant, hbefore, fun hread => ?_⟩
        rcases Bool.or_eq_true_iff.mp hread with hmatched' | hdone
        · exact hmatched hmatched'
        · rw [hkept _ (by decide)] at hdone
          exact hbefore.matched hp (of_decide_eq_true hdone)
      | completionSeq =>
        cases isMatched with
        | false => exact ⟨hwords, hgrant, hbefore, hmatched⟩
        | true =>
          show Sync request l m₀ m (if _ then _ else _) d
          split
          · rename_i hcompleted
            obtain ⟨sent, hsent, hlast⟩ := hgrant
            rw [List.append_nil] at hsent
            rw [hkept _ (by decide)] at hcompleted
            exact ⟨hwords, hsent ▸ hlast, hbefore, hcompleted, hmatched rfl⟩
          · exact ⟨hwords, hgrant, hbefore, hmatched⟩
      | _ => exact ⟨hwords, hgrant, hbefore, hmatched⟩
  | granted b bs =>
    cases off with
    | bankDone =>
      obtain ⟨hwords, ⟨sent, hsent⟩, hgrant, hwhere⟩ := h
      show Sync request l m₀ m (if _ then _ else _) d
      split
      · rename_i hdone
        rw [hkept _ (by decide)] at hdone
        have hbefore := hwhere.resolve_left fun hat => hat.not_done hp hdone
        refine ⟨hwords, ⟨sent ++ [b], by simpa using hsent, ?_⟩, hbefore, fun h => by cases h⟩
        rw [hgrant, lastOf_snoc]
      · trivial
    | _ => exact h
  | _ => exact h

/-- A store of the helper. -/
theorem Sync.store (h : Sync request l m₀ m p d) (hframe : Frame request l m₀) {off : Off}
    {v : Word} (hmay : p.mayStore request off v) :
    Sync request l m₀ (Function.update m off v) (p.store request off) d := by
  unfold KPhase.mayStore at hmay
  split at hmay
  · -- `bank_grant` is cleared
    exact ⟨h.1, h.2.1, h.2.2, hmay.1⟩
  · exact ⟨h.1, h.2.1, h.2.2.1, h.2.2.2, hmay⟩
  · -- the publication
    obtain ⟨-, hphase, hseq, hgrant, hcolour⟩ := h
    have hbanks := banksOf_eq hframe.lengths
    refine ⟨⟨hmay, hcolour⟩, ⟨[], hbanks, hgrant⟩, ?_, fun h => by cases h⟩
    obtain ⟨phase, seq, colour, out⟩ := d
    obtain rfl : phase = .poll := hphase
    exact .inl ⟨hseq, hbanks⟩
  · -- a grant
    obtain ⟨hwords, ⟨sent, hsent, -⟩, -, hmatched⟩ := h
    refine ⟨hwords, ⟨sent, hsent⟩, hmay, .inl ?_⟩
    obtain ⟨phase, seq, colour, out⟩ := d
    obtain rfl : phase = _ := hmatched rfl
    exact ⟨rfl, rfl⟩
  · rw [KPhase.store_magic hmay.2]
    trivial
  · exact hmay.elim

/-- A frame that is given up stays given up. -/
theorem KPhase.lost_read (hlost : p.lost = true) (off : Off) (v : Word) :
    (p.read request off v).lost = true := by
  cases p with
  | missed | failed | broken => exact hlost
  | _ => cases hlost

theorem KPhase.lost_store (hlost : p.lost = true) {off : Off} {v : Word}
    (hmay : p.mayStore request off v) : (p.store request off).lost = true := by
  unfold KPhase.mayStore at hmay
  split at hmay
  · cases hlost
  · cases hlost
  · cases hlost
  · cases hlost
  · rw [KPhase.store_magic hmay.2]
    rfl
  · exact hmay.elim

theorem KPhase.lost_unlock (hlost : p.lost = true) : p.unlock.lost = true := by
  cases p with
  | missed | failed | broken => rfl
  | _ => cases hlost

theorem Sync.unlock (h : Sync request l m₀ m p d) : Sync request l m₀ m p.unlock d := by
  cases p with
  | failed => trivial
  | _ => exact h

end Helper

/-! ### The two parties together -/

/-- The words of a completed frame. -/
def Final (request : DldQuietSend) (l : Fin 6 → Word) : Off → Word → Prop
  | .requestSeq, v | .completionSeq, v | .acceptedSeq, v => v = request.previousSeq + 1
  | .status, v => v = statusDone
  | .errorDetail, v | .bankReady, v => v = 0
  | .bankGrant, v | .bankDone, v => v = lastOrdinal l
  | _, _ => True

/-- What the helper is promised to read once the final wait has matched. -/
def FinalIfFresh (request : DldQuietSend) (l : Fin 6 → Word) (m₀ : DldCommand) (off : Off)
    (v : Word) : Prop :=
  Fresh l m₀ → Final request l off v

section Board

variable (request : DldQuietSend) (tm : Pru.Timing) (l : Fin 6 → Word) (m₀ : DldCommand)
variable (pruss : Prop)

/-- The monitors of the helper and of the firmware, and the invariant. -/
def handshake : Proofs Unit KOp KOp.Res Pru.PruOp Pru.PruOp.Res (Pru.Label × Pru.Regs)
    (Shared Unit) KState Pru.FState where
  client _ := helper request pruss (FinalIfFresh request l m₀)
  device := Pru.firmware tm l
  label := Pru.Control tm l
  inv m g d := Handshake request l m₀ tm m (g ()).phase d

variable {request tm l m₀ pruss} {m m' : Shared Unit} {p p' : KPhase} {d : Pru.FState}

/-- The words of the snapshot are those of the completed frame. -/
theorem Sync.final (h : Sync request l m₀ m.mailbox .complete d) (hp : Progress request l m₀ d)
    (hkept : ∀ off ∈ Pru.firmwareWords, m.mailbox off = d.out off) (off : Off) :
    FinalIfFresh request l m₀ off (m.mailbox off) := by
  intro hfresh
  obtain ⟨hwords, hgrant, -, -, hmatched⟩ := h
  obtain ⟨hphase, hseq⟩ := hmatched hfresh
  obtain ⟨phase, seq, colour, out⟩ := d
  obtain rfl : phase = .poll := hphase
  have hcarried := hp.resolve_left fun hold => by
    have hboth := hold.1.symm.trans hseq
    exact absurd hboth.symm (by simp)
  cases off with
  | requestSeq => exact hwords.1
  | bankGrant => exact hgrant.trans (lastOf_nonEmpty l)
  | completionSeq => exact (hkept _ (by decide)).trans hcarried.completion
  | status => exact (hkept _ (by decide)).trans hcarried.status
  | errorDetail => exact (hkept _ (by decide)).trans hcarried.error
  | bankReady => exact (hkept _ (by decide)).trans hcarried.ready
  | bankDone =>
    exact ((hkept _ (by decide)).trans hcarried.done).trans (lastOf_nonEmpty l)
  | acceptedSeq => exact (hkept _ (by decide)).trans hcarried.accepted
  | _ => trivial

/-- The helper moves on without a store. -/
theorem Handshake.move (h : Handshake request l m₀ tm m p d) {owner : Option Unit}
    (hlost : p.lost = true → p'.lost = true)
    (hsync : Progress request l m₀ d → Sync request l m₀ m.mailbox p d →
      Sync request l m₀ m.mailbox p' d) :
    Handshake request l m₀ tm { m with owner := owner } p' d := by
  refine ⟨h.config, h.record, h.kept, fun hp' => ?_⟩
  have hp : p.lost = false := by
    by_contra hp
    rw [hlost (by simpa using hp)] at hp'
    cases hp'
  obtain ⟨hprogress, hs⟩ := h.agreed hp
  exact ⟨hprogress, hsync hprogress hs⟩

/-- The helper stores a word: none of the configuration, none of the
firmware's. -/
theorem Handshake.store (h : Handshake request l m₀ tm m p d) (hframe : Frame request l m₀)
    {off : Off} {v : Word} (hmay : p.mayStore request off v) :
    Handshake request l m₀ tm (m.store off v) (p.store request off) d := by
  have hoff : off ∉ Pru.firmwareWords ∧ ∀ i, off ≠ .lengths i := by
    unfold KPhase.mayStore at hmay
    split at hmay
    iterate 5 exact ⟨by decide, by simp⟩
    exact hmay.elim
  refine ⟨fun i => ?_, h.record, fun off' hoff' => ?_, fun hlost => ?_⟩
  · exact (Shared.store_of_ne (hoff.2 i).symm).trans (h.config i)
  · have hne : off' ≠ off := by
      rintro rfl
      exact hoff.1 hoff'
    exact (Shared.store_of_ne hne).trans (h.kept off' hoff')
  · have hp : p.lost = false := by
      by_contra hp
      rw [KPhase.lost_store (by simpa using hp) hmay] at hlost
      cases hlost
    obtain ⟨hprogress, hs⟩ := h.agreed hp
    exact ⟨hprogress, hs.store hframe hmay⟩

/-- An operation of the helper keeps the invariant. -/
theorem Handshake.client {s : KState} (h : Handshake request l m₀ tm m s.phase d)
    (hframe : Frame request l m₀) {e : KEvent} (hstep : helperStep pruss () m e m')
    (hmay : s.may request pruss e) :
    Handshake request l m₀ tm m' (s.next request e).phase d := by
  have hsame (hm : m' = m) : Handshake request l m₀ tm m' s.phase d := by
    rw [hm]
    exact h
  obtain ⟨op, v⟩ := e
  cases op with
  | readl reg =>
    cases reg with
    | mailbox off =>
      obtain ⟨rfl, rfl⟩ := hstep
      refine h.move (fun hlost => KPhase.lost_read hlost off _) fun hp hs => ?_
      exact hs.read hframe hp h.kept off
    | clocks c => exact hsame hstep.2
    | _ => exact hsame hstep
  | writel w reg =>
    cases reg with
    | mailbox off =>
      obtain rfl : m' = m.store off w := hstep
      exact h.store hframe hmay
    | _ => exact hsame hstep
  | enter f =>
    cases f with
    | failedFrameCleanup =>
      obtain rfl : m' = m := hstep
      obtain ⟨isCleared, hfailed⟩ := KPhase.giveUp_published hmay.1
      show Handshake request l m₀ tm m' s.phase.giveUp d
      rw [hfailed]
      exact h.move (fun _ => rfl) fun _ _ => trivial
    | _ => exact hsame hstep
  | leave f result => cases f <;> exact hsame hstep
  | mutexTrylock =>
    obtain ⟨-, rfl⟩ := hstep
    cases v with
    | false => exact hsame rfl
    | true =>
      have hidle : s.phase = .idle := hmay
      rw [hidle] at h
      exact h.move (fun hlost => by cases hlost) fun _ hs => hs
  | mutexUnlock =>
    obtain rfl : m' = _ := hstep
    exact h.move KPhase.lost_unlock fun _ hs => hs.unlock
  | _ => exact hsame hstep

/-- An operation of the firmware, on the mailbox. -/
theorem firmwareStep_stored {e : Pru.PruEvent} (h : firmwareStep m e m') :
    m' = { m with mailbox := Pru.stored e m.mailbox } ∧ Loads m.mailbox e := by
  obtain ⟨op, v⟩ := e
  cases op with
  | lbco off =>
    refine ⟨h.2, ?_⟩
    rintro off' v' ⟨⟩
    exact h.1
  | sbco off w => exact ⟨h, by rintro off' v' ⟨⟩⟩
  | _ => exact ⟨h, by rintro off' v' ⟨⟩⟩

/-- An operation of the firmware keeps the invariant. -/
theorem Handshake.device (h : Handshake request l m₀ tm m p d) (hframe : Frame request l m₀)
    {e : Pru.PruEvent} {d' : Pru.FState} (hstep : firmwareStep m e m')
    (hd : Pru.FStep tm l d e d') : Handshake request l m₀ tm m' p d' := by
  obtain ⟨cur, hrec⟩ := h.record
  obtain ⟨rfl, hloads⟩ := firmwareStep_stored hstep
  have hout := hd.out_eq hrec
  -- the host's words are those of before
  have hhost (off : Off) (hoff : off ∉ Pru.firmwareWords) :
      Pru.stored e m.mailbox off = m.mailbox off := by
    obtain ⟨op, v⟩ := e
    cases op with
    | sbco off' w =>
      refine Function.update_of_ne ?_ _ _
      rintro rfl
      exact hoff (hd.store_mem hrec)
    | _ => rfl
  refine ⟨fun i => ?_, ⟨_, Pru.recorded_next (h := ⟨d, [], cur⟩) hrec hd⟩, fun off hoff => ?_,
    fun hlost => ?_⟩
  · exact (hhost _ (by simp [Pru.firmwareWords])).trans (h.config i)
  · rw [hout]
    have hkept := h.kept off hoff
    obtain ⟨op, v⟩ := e
    cases op with
    | sbco off' w =>
      show Function.update m.mailbox off' w off = Function.update d.out off' w off
      rw [Function.update_apply, Function.update_apply, hkept]
    | _ => exact hkept
  · obtain ⟨hprogress, hs⟩ := h.agreed hlost
    exact hs.device hframe hlost hprogress hloads hd hhost

/-- **The helper and the firmware uphold the invariant of the frame.** -/
theorem handshake_upholds (hframe : Frame request l m₀) :
    (handshake request tm l m₀ pruss).Upholds (board Unit tm pruss) where
  label := Pru.firmware_invariant tm l
  client := by
    intro m g d i e m' hinv hstep
    refine ⟨?_, fun hmay => ?_⟩
    · obtain ⟨op, v⟩ := e
      cases op with
      | readl reg =>
        cases reg with
        | mailbox off =>
          intro hphase
          have hcomplete : (g ()).phase = .complete := hphase
          have hinv : Handshake request l m₀ tm m (g ()).phase d := hinv
          rw [hcomplete] at hinv
          obtain ⟨hprogress, hs⟩ := hinv.agreed rfl
          rw [show v = m.mailbox off from hstep.1]
          exact hs.final hprogress hinv.kept off
        | clocks c => exact hstep.1
        | _ => trivial
      | _ => trivial
    · show Handshake request l m₀ tm m' (Function.update g i _ ()).phase d
      rw [Function.update_self]
      exact Handshake.client hinv hframe hstep hmay
  device := by
    intro m g d e m' hinv hstep
    refine ⟨?_, fun hsafe => hinv.device hframe hstep (Pru.FStep.of_safe hsafe)⟩
    obtain ⟨op, v⟩ := e
    cases op with
    | lbco off =>
      cases off with
      | lengths i => exact hstep.1.trans (hinv.config i)
      | _ => trivial
    | _ => trivial

end Board

/-! ### The start -/

/-- Every wire colour has 24 bits. -/
theorem wireColor_top (profileId : Word) {rgb : Word} (h : rgb ≤ 0xffffff) :
    wireColor profileId rgb >>> 24 = 0 := by
  have hmask (x m : Word) (hm : m.toNat < 2 ^ 24) : (x &&& m).toNat < 2 ^ 24 := by
    rw [BitVec.toNat_and]
    exact Nat.and_lt_two_pow _ hm
  have hshift (x m : Word) (n : Nat) (hm : m.toNat * 2 ^ n < 2 ^ 24) :
      ((x &&& m) <<< n).toNat < 2 ^ 24 := by
    have hle : (x &&& m).toNat ≤ m.toNat := by
      rw [BitVec.toNat_and]
      exact Nat.and_le_right
    rw [BitVec.toNat_shiftLeft, Nat.shiftLeft_eq]
    exact (Nat.mod_le _ _).trans_lt ((Nat.mul_le_mul_right _ hle).trans_lt hm)
  have hor (x y : Word) (hx : x.toNat < 2 ^ 24) (hy : y.toNat < 2 ^ 24) :
      (x ||| y).toNat < 2 ^ 24 := by
    rw [BitVec.toNat_or]
    exact Nat.or_lt_two_pow hx hy
  have hsmall : (wireColor profileId rgb).toNat < 2 ^ 24 := by
    unfold wireColor
    split_ifs
    · refine hor _ _ (hor _ _ ?_ (hshift _ _ _ (by decide))) (hmask _ _ (by decide))
      bv_omega
    · bv_omega
    · exact hor _ _ (hor _ _ (hshift _ _ _ (by decide)) (hmask _ _ (by decide)))
        (hmask _ _ (by decide))
  bv_omega

/-- An accepted request and an idle session. -/
theorem frame_of_validate {request : DldQuietSend} {m₀ : DldCommand}
    (h : ((validate request).exec (holding m₀)).2.2 = 0) :
    Frame request (fun i => m₀ (.lengths i)) m₀ := by
  obtain ⟨hrequest, -, hprevious, hidle⟩ := (validate_zero_iff request m₀).mp h
  exact ⟨hrequest.lengths, wireColor_top _ hrequest.rgb, hidle.noError, hidle.status,
    hidle.completed.trans hprevious.symm, hidle.ready⟩

/-- What is left of the firmware, `q`, goes on as from its request loop: it
waits for a sequence other than that of the block `m`, and has stored what
`m` says. -/
def Awaits (tm : Pru.Timing) (m : DldCommand) (q : Pru.PProg Pru.Next) : Prop :=
  ∃ d : Pru.FState, d.phase = .poll ∧ d.seq = m .requestSeq ∧
    (∀ off ∈ Pru.firmwareWords, m off = d.out off) ∧
    Machine.Good (Pru.firmware tm m.stringLengths) (Pru.Control tm m.stringLengths) q d

/-- The firmware in its request loop. -/
theorem awaits_requestLoop {m₀ : DldCommand} {tm : Pru.Timing} {r : Pru.Regs}
    (hready : Pru.Ready tm m₀.stringLengths r) (hseq : r.r3 = m₀ .requestSeq) :
    Awaits tm m₀ (Pru.code tm (.requestLoop, r)) :=
  ⟨⟨.poll, m₀ .requestSeq, 0, m₀⟩, rfl, rfl, fun _ _ => rfl,
    Pru.firmware_invariant tm _ (.requestLoop, r) _ ⟨hready, rfl, hseq.symm⟩⟩

/-- A firmware that waits has no frame behind it that matters. -/
theorem recorded_poll {tm : Pru.Timing} {l : Fin 6 → Word} {d : Pru.FState}
    (hphase : d.phase = .poll) : Pru.Recorded tm l d [] := by
  unfold Pru.Recorded
  rw [hphase]
  exact .inl rfl

/-- A caller about to perform `request`, and a firmware that waits for it. -/
theorem underway_awaits {request : DldQuietSend} {m₀ : DldCommand} {tm : Pru.Timing}
    {q : Pru.PProg Pru.Next} (pruss : Prop) (h : ((validate request).exec (holding m₀)).2.2 = 0)
    (hawaits : Awaits tm m₀ q) :
    ∃ d : Pru.FState, d.phase = .poll ∧ d.seq = request.previousSeq ∧
      Frame request m₀.stringLengths d.out ∧
      (handshake request tm m₀.stringLengths d.out pruss).Good
        (fun _ => Outcome (FinalIfFresh request m₀.stringLengths d.out))
        (callers (fun _ => request) m₀ q) (fun _ => ⟨.idle, .never⟩) d := by
  obtain ⟨d, hphase, hseq, hwords, hgood⟩ := hawaits
  obtain ⟨-, -, hprevious, -⟩ := (validate_zero_iff request m₀).mp h
  have hold : d.seq = request.previousSeq := hseq.trans hprevious.symm
  have hframe := frame_of_validate h
  refine ⟨d, hphase, hold, ?_, ?_, fun _ => wp_performSend, hgood⟩
  · exact
      { lengths := hframe.lengths
        colour := hframe.colour
        noError := by rw [← hwords .errorDetail (by decide), hframe.noError]
        status := by
          rw [← hwords .status (by decide)]
          exact hframe.status
        completed := by rw [← hwords .completionSeq (by decide), hframe.completed]
        ready := by rw [← hwords .bankReady (by decide), hframe.ready] }
  · refine ⟨fun _ => rfl, ⟨[], recorded_poll hphase⟩, hwords, fun _ =>
      ⟨?_, hprevious.symm, hphase, hold⟩⟩
    unfold Progress
    rw [hphase]
    exact .inl ⟨hold, rfl⟩

/-- A caller about to perform `request`, and the firmware in its request
loop. -/
theorem underway_frame {request : DldQuietSend} {m₀ : DldCommand} {tm : Pru.Timing} {r : Pru.Regs}
    (pruss : Prop) (h : ((validate request).exec (holding m₀)).2.2 = 0)
    (hready : Pru.Ready tm (fun i => m₀ (.lengths i)) r) (hseq : r.r3 = m₀ .requestSeq)
    (colour : Word) :
    (handshake request tm (fun i => m₀ (.lengths i)) m₀ pruss).Good
      (fun _ => Outcome (FinalIfFresh request (fun i => m₀ (.lengths i)) m₀))
      (callers (fun _ => request) m₀ (Pru.code tm (.requestLoop, r)))
      (fun _ => ⟨.idle, .never⟩) ⟨.poll, request.previousSeq, colour, m₀⟩ where
  inv := by
    obtain ⟨-, -, hprevious, -⟩ := (validate_zero_iff request m₀).mp h
    exact
      { config := fun _ => rfl
        record := ⟨[], .inl rfl⟩
        kept := fun _ _ => rfl
        agreed := fun _ => ⟨.inl ⟨rfl, rfl⟩, hprevious.symm, rfl, rfl⟩ }
  client := fun _ => wp_performSend
  device := by
    obtain ⟨-, -, hprevious, -⟩ := (validate_zero_iff request m₀).mp h
    exact Pru.firmware_invariant tm _ (.requestLoop, r) _
      ⟨hready, rfl, hprevious.trans hseq.symm⟩

end Dld
