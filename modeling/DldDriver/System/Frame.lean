/-
DldDriver/System/Frame.lean

One frame between `perform_send` and the firmware, from an idle session to
the return of the helper: where each of the two is when the other is in a
given phase, and what the words between them say.

    Progress d     the firmware's words, phase by phase, within this frame
    Sync m p d     the host's words, and how far the firmware can be while
                   the helper is in phase p

The banks of the frame are those of `nonEmpty`.  While the helper waits for
the first bank of `bs` the firmware has not passed its gate (`Before`); once
the helper has granted `b` the firmware is at bank `b` (`AtBank`) or already
on its way to the next one.  A helper that has given the frame up says
nothing any more (`KPhase.lost`).
-/
import DldDriver.System.Sequencing

namespace Dld

open Interaction

/-! ### The banks of a frame -/

/-- What `bank_done` reads after the banks `sent`. -/
def lastOf (sent : List Bank) : Word := sent.foldl (fun _ b => b.ordinal) 0

@[simp] theorem lastOf_nil : lastOf [] = 0 := rfl

@[simp] theorem lastOf_snoc (sent : List Bank) (b : Bank) : lastOf (sent ++ [b]) = b.ordinal := by
  simp [lastOf]

theorem lastOf_eq (sent : List Bank) : lastOf sent = 0 ∨ ∃ b ∈ sent, lastOf sent = b.ordinal := by
  induction sent using List.reverseRecOn with
  | nil => exact .inl rfl
  | append_singleton sent b _ => exact .inr ⟨b, by simp, lastOf_snoc sent b⟩

/-- The last bank of all is that of `last_bank`. -/
theorem lastOf_nonEmpty (l : Fin 6 → Word) : lastOf (Pru.nonEmpty l) = lastOrdinal l := by
  unfold lastOf Pru.nonEmpty lastOrdinal
  rw [List.foldl_filter]
  simp

theorem ordinal_pos (b : Bank) : 0 < b.ordinal := by
  cases b <;> decide

/-- The ordinals of a frame increase. -/
theorem nonEmpty_sorted (l : Fin 6 → Word) :
    (Pru.nonEmpty l).Pairwise fun b b' => b.ordinal < b'.ordinal := by
  have hpass : Bank.pass.Pairwise fun b b' => b.ordinal < b'.ordinal := by decide
  exact hpass.filter _

theorem lastOf_lt {l : Fin 6 → Word} {sent bs : List Bank} {b : Bank}
    (h : sent ++ b :: bs = Pru.nonEmpty l) : lastOf sent < b.ordinal := by
  have hsorted := nonEmpty_sorted l
  rw [← h, List.pairwise_append] at hsorted
  rcases lastOf_eq sent with hnone | ⟨b', hmem, hlast⟩
  · rw [hnone]
    exact ordinal_pos b
  · rw [hlast]
    exact hsorted.2.2 b' hmem b (.head _)

theorem ordinal_lt {l : Fin 6 → Word} {sent bs : List Bank} {b b' : Bank}
    (h : sent ++ b :: b' :: bs = Pru.nonEmpty l) : b.ordinal < b'.ordinal := by
  have hsorted := nonEmpty_sorted l
  rw [← h, List.pairwise_append, List.pairwise_cons] at hsorted
  exact hsorted.2.1.1 b' (.head _)

/-- The banks of the helper are the banks of the firmware. -/
theorem banksOf_eq {request : DldQuietSend} {l : Fin 6 → Word}
    (h : ∀ i, request.stringLengths i = l i) : banksOf request = Pru.nonEmpty l := by
  unfold banksOf Pru.nonEmpty
  simp only [bankLength_eq, show request.stringLengths = l from funext h]

/-! ### The invariant -/

/-- What the two parties start from: an idle session with the configuration
`l`, and a request that `validate` accepts for it. -/
structure Frame (request : DldQuietSend) (l : Fin 6 → Word) (m₀ : DldCommand) : Prop where
  lengths : ∀ i, request.stringLengths i = l i
  colour : wireColor request.profileId request.rgb >>> 24 = 0
  noError : m₀ .errorDetail = 0
  status : m₀ .status = statusReady ∨ m₀ .status = statusDone
  completed : m₀ .completionSeq = request.previousSeq
  ready : m₀ .bankReady = 0

/-- The helper has given the frame up. -/
def KPhase.lost : KPhase → Bool
  | .missed | .failed _ | .broken => true
  | _ => false

section Invariant

variable (request : DldQuietSend) (l : Fin 6 → Word) (m₀ : DldCommand)

/-- The firmware's words and registers after the banks `sent` of this frame. -/
structure Carried (seq colour : Word) (out : DldCommand) (sent : List Bank)
    (status ready completion : Word) : Prop where
  seq : seq = request.previousSeq + 1
  colour : colour = wireColor request.profileId request.rgb
  accepted : out .acceptedSeq = request.previousSeq + 1
  done : out .bankDone = lastOf sent
  error : out .errorDetail = 0
  status : out .status = status
  ready : out .bankReady = ready
  completion : out .completionSeq = completion

/-- The words of the frame, phase by phase. -/
def Progress (d : Pru.FState) : Prop :=
  match d.phase with
  | .poll => (d.seq = request.previousSeq ∧ d.out = m₀) ∨
    Carried request d.seq d.colour d.out (Pru.nonEmpty l) statusDone 0 (request.previousSeq + 1)
  | .latch | .clearReady | .clearDone => d.seq = request.previousSeq + 1 ∧ d.out = m₀
  | .accept =>
    d.seq = request.previousSeq + 1 ∧ d.out = Function.update m₀ .bankDone 0
  | .readColour =>
    d.seq = request.previousSeq + 1 ∧ d.out = Function.update
      (Function.update m₀ .bankDone 0) .acceptedSeq (request.previousSeq + 1)
  | .start => Carried request d.seq d.colour d.out [] (m₀ .status) 0 request.previousSeq
  | .enter bs => ∃ sent, sent ++ bs = Pru.nonEmpty l ∧
    Carried request d.seq d.colour d.out sent statusRunning 0 request.previousSeq
  | .offer b bs | .rerun b bs => ∃ sent, sent ++ b :: bs = Pru.nonEmpty l ∧
    Carried request d.seq d.colour d.out sent statusWaitBank 0 request.previousSeq
  | .gate b bs | .release b bs => ∃ sent, sent ++ b :: bs = Pru.nonEmpty l ∧
    Carried request d.seq d.colour d.out sent statusWaitBank b.ordinal request.previousSeq
  | .stream b bs _ | .drain b bs _ => ∃ sent, sent ++ b :: bs = Pru.nonEmpty l ∧
    Carried request d.seq d.colour d.out sent statusRunning 0 request.previousSeq
  | .settle _ => Carried request d.seq d.colour d.out (Pru.nonEmpty l) statusRunning 0 request.previousSeq
  | .clearError | .finish =>
    Carried request d.seq d.colour d.out (Pru.nonEmpty l) statusRunning 0 (request.previousSeq + 1)
  | .fatalStatus | .halting | .halted => d.seq = request.previousSeq + 1
  | .boot | .publish _ | .fatal _ => False

/-- The firmware has sent what comes before the banks `bs`, and has not
passed the gate of the first of them. -/
def Before (bs : List Bank) (d : Pru.FState) : Prop :=
  match d.phase with
  | .poll => (d.seq = request.previousSeq ∧ bs = Pru.nonEmpty l) ∨
    (d.seq = request.previousSeq + 1 ∧ bs = [])
  | .latch | .clearReady | .clearDone | .accept | .readColour | .start => bs = Pru.nonEmpty l
  | .enter bs' => bs' = bs
  | .offer b bs' | .gate b bs' => b :: bs' = bs
  | .settle _ | .clearError | .finish => bs = []
  | _ => False

/-- The firmware is at bank `b`, or has stopped there. -/
def AtBank (b : Bank) (bs : List Bank) (d : Pru.FState) : Prop :=
  match d.phase with
  | .gate b' bs' | .release b' bs' | .rerun b' bs' | .stream b' bs' _ | .drain b' bs' _ =>
    b' = b ∧ bs' = bs
  | .fatalStatus | .halting | .halted => d.out .bankDone ≠ b.ordinal
  | _ => False

/-- No DONE that the helper can read is that of an earlier frame: a bank is
to be sent, or the session is fresh. -/
def Fresh : Prop := Pru.nonEmpty l ≠ [] ∨ m₀ .status = statusReady

/-- What the helper knows after it has read the word it waits for. -/
def Matched (bs : List Bank) (d : Pru.FState) : Prop :=
  match bs with
  | b :: bs => d.phase = .gate b bs
  | [] => Fresh l m₀ → d.phase = .poll ∧ d.seq = request.previousSeq + 1

/-- The words of a published request. -/
def PublishedWords (m : DldCommand) : Prop :=
  m .requestSeq = request.previousSeq + 1 ∧ m .wireColor = wireColor request.profileId request.rgb

/-- The host's words, and the firmware, as far as a phase of the helper
tells. -/
def Sync (m : DldCommand) (p : KPhase) (d : Pru.FState) : Prop :=
  match p with
  | .idle | .held _ | .refused =>
    m .requestSeq = request.previousSeq ∧ d.phase = .poll ∧ d.seq = request.previousSeq
  | .zeroed =>
    m .requestSeq = request.previousSeq ∧ d.phase = .poll ∧ d.seq = request.previousSeq ∧
      m .bankGrant = 0
  | .coloured =>
    m .requestSeq = request.previousSeq ∧ d.phase = .poll ∧ d.seq = request.previousSeq ∧
      m .bankGrant = 0 ∧ m .wireColor = wireColor request.profileId request.rgb
  | .waiting bs isMatched =>
    PublishedWords request m ∧ (∃ sent, sent ++ bs = Pru.nonEmpty l ∧ m .bankGrant = lastOf sent) ∧
      Before request l bs d ∧ (isMatched = true → Matched request l m₀ bs d)
  | .granted b bs =>
    PublishedWords request m ∧ (∃ sent, sent ++ b :: bs = Pru.nonEmpty l) ∧
      m .bankGrant = b.ordinal ∧ (AtBank b bs d ∨ Before request l bs d)
  | .complete | .sent =>
    PublishedWords request m ∧ m .bankGrant = lastOf (Pru.nonEmpty l) ∧ Before request l [] d ∧
      d.out .completionSeq = request.previousSeq + 1 ∧ Matched request l m₀ [] d
  | .missed | .failed _ | .broken => True

/-- The invariant of a frame. -/
structure Handshake (tm : Pru.Timing) (m : Shared Unit) (p : KPhase) (d : Pru.FState) : Prop where
  config : ∀ i, m.mailbox (.lengths i) = l i
  record : ∃ cur, Pru.Recorded tm l d cur
  kept : ∀ off ∈ Pru.firmwareWords, m.mailbox off = d.out off
  agreed : p.lost = false → Progress request l m₀ d ∧ Sync request l m₀ m.mailbox p d

end Invariant

/-! ### A step of the firmware -/

/-- The automaton records what the firmware stores. -/
theorem Pru.FStep.out_eq {tm : Pru.Timing} {l : Fin 6 → Word} {d d' : Pru.FState}
    {e : Pru.PruEvent} {cur : List Pru.PruEvent} (hrec : Pru.Recorded tm l d cur)
    (hstep : Pru.FStep tm l d e d') : d'.out = Pru.stored e d.out := by
  cases hstep with
  | boot h => cases h <;> rfl
  | stream =>
    -- no instruction of a stream stores to the mailbox
    rcases List.mem_cons.mp (Pru.mem_stream_of_recorded hrec rfl) with rfl | hmem
    · rfl
    · obtain ⟨p, hp⟩ := Pru.mem_bankStream hmem
      rcases Pru.mem_pixelEvents hp with rfl | ⟨_, rfl⟩ | ⟨_, _, rfl⟩ | rfl | rfl <;> rfl
  | _ => rfl

section Firmware

variable {request : DldQuietSend} {l : Fin 6 → Word} {m₀ m : DldCommand} {tm : Pru.Timing}
variable {d d' : Pru.FState} {e : Pru.PruEvent} {b : Bank} {bs : List Bank}

/-- What the firmware may rely on when it reads a word of the host. -/
structure Host (request : DldQuietSend) (m : DldCommand) (d : Pru.FState) : Prop where
  seq : (d.phase = .poll ∧ m .requestSeq = d.seq) ∨ PublishedWords request m
  latch : d.phase = .latch → m .bankGrant = 0
  gate : ∀ b bs, d.phase = .gate b bs → m .bankGrant ≤ b.ordinal

/-- The event reads what the mailbox holds. -/
def Loads (m : DldCommand) (e : Pru.PruEvent) : Prop :=
  ∀ off v, e = ⟨.lbco off, v⟩ → v = m off

/-- At the poll of a sequence that does not change, nothing changes. -/
theorem poll_stays (hphase : d.phase = .poll) (hseq : m .requestSeq = d.seq) (hloads : Loads m e)
    (hstep : Pru.FStep tm l d e d') : d' = d := by
  obtain ⟨phase, seq, colour, out⟩ := d
  obtain rfl : phase = .poll := hphase
  cases hstep with
  | alu | pollSame => rfl
  | pollNew hnew => exact absurd ((hloads _ _ rfl).trans hseq) hnew

/-- Past the poll the request is published. -/
theorem Host.published (h : Host request m d) (hphase : d.phase ≠ .poll) :
    PublishedWords request m :=
  h.seq.resolve_left fun hpoll => hphase hpoll.1

/-- The acceptance of the sequence: the words of the last frame, cleared one
after the other. -/
theorem Progress.accepting (hframe : Frame request l m₀)
    (h : d.seq = request.previousSeq + 1 ∧ d.out = Function.update (Function.update m₀ .bankDone 0)
      .acceptedSeq (request.previousSeq + 1)) {v : Word}
    (hv : v = wireColor request.profileId request.rgb) :
    Carried request d.seq v d.out [] (m₀ .status) 0 request.previousSeq := by
  obtain ⟨phase, seq, colour, out⟩ := d
  obtain ⟨rfl, rfl⟩ : _ ∧ _ := h
  exact ⟨rfl, hv, rfl, rfl, hframe.noError, rfl, hframe.ready, hframe.completed⟩

theorem Progress.step (hframe : Frame request l m₀) (h : Progress request l m₀ d)
    (hhost : Host request m d) (hloads : Loads m e) (hstep : Pru.FStep tm l d e d') :
    Progress request l m₀ d' := by
  cases hstep with
  | alu => exact h
  | boot | booted | bootFailed | publish | fatal => exact h.elim
  | pollSame => exact h
  | pollNew hnew =>
    have hread := hloads _ _ rfl
    rcases hhost.seq with ⟨-, hseq⟩ | hpublished
    · exact absurd (hread.trans hseq) hnew
    have hv := hread.trans hpublished.1
    rcases h with ⟨-, hout⟩ | hcarried
    · exact ⟨hv, hout⟩
    · exact absurd (hv.trans hcarried.seq.symm) hnew
  | latch => exact h
  | latchFailed hv => exact absurd ((hloads _ _ rfl).trans (hhost.latch rfl)) hv
  | @clearReady seq colour out =>
    refine ⟨h.1, ?_⟩
    have hout : out = m₀ := h.2
    show Function.update out .bankReady 0 = m₀
    rw [hout, ← hframe.ready, Function.update_eq_self]
  | clearDone => exact ⟨h.1, congrArg (Function.update · _ _) h.2⟩
  | accept =>
    obtain ⟨rfl, rfl⟩ : _ ∧ _ := h
    exact ⟨rfl, rfl⟩
  | readColour =>
    have hpublished := hhost.published (by simp)
    exact Progress.accepting hframe h ((hloads _ _ rfl).trans hpublished.2)
  | colourFailed hv =>
    have hpublished := hhost.published (by simp)
    rw [(hloads _ _ rfl).trans hpublished.2] at hv
    exact absurd hframe.colour hv
  | start =>
    obtain ⟨hseq, hcolour, haccepted, hdone, herror, -, hready, hcompletion⟩ := h
    exact ⟨[], rfl, hseq, hcolour, haccepted, hdone, herror, rfl, hready, hcompletion⟩
  | config => exact h
  | wait =>
    obtain ⟨sent, hsent, hseq, hcolour, haccepted, hdone, herror, -, hready, hcompletion⟩ := h
    exact ⟨sent, hsent, hseq, hcolour, haccepted, hdone, herror, rfl, hready, hcompletion⟩
  | offer =>
    obtain ⟨sent, hsent, hseq, hcolour, haccepted, hdone, herror, hstatus, -, hcompletion⟩ := h
    exact ⟨sent, hsent, hseq, hcolour, haccepted, hdone, herror, hstatus, rfl, hcompletion⟩
  | gateWait | gate => exact h
  | @gateFailed seq colour out b bs v hv =>
    have hle := hhost.gate b bs rfl
    rw [← hloads _ _ rfl] at hle
    exact absurd hv (BitVec.not_lt.mpr hle)
  | release =>
    obtain ⟨sent, hsent, hseq, hcolour, haccepted, hdone, herror, hstatus, -, hcompletion⟩ := h
    exact ⟨sent, hsent, hseq, hcolour, haccepted, hdone, herror, hstatus, rfl, hcompletion⟩
  | rerun =>
    obtain ⟨sent, hsent, hseq, hcolour, haccepted, hdone, herror, -, hready, hcompletion⟩ := h
    exact ⟨sent, hsent, hseq, hcolour, haccepted, hdone, herror, rfl, hready, hcompletion⟩
  | @stream seq colour out b bs e left =>
    unfold Pru.streaming
    split <;> exact h
  | drainClear | drainRead => exact h
  | @drained seq colour out b bs n hn =>
    obtain ⟨sent, hsent, hseq, hcolour, haccepted, -, herror, hstatus, hready, hcompletion⟩ := h
    exact ⟨sent ++ [b], by simpa using hsent, hseq, hcolour, haccepted, (lastOf_snoc sent b).symm,
      herror, hstatus, hready, hcompletion⟩
  | drainFailed =>
    obtain ⟨sent, hsent, hcarried⟩ := h
    exact hcarried.seq
  | fatalStatus | halt => exact h
  | settleStart =>
    obtain ⟨sent, hsent, hcarried⟩ := h
    rw [List.append_nil] at hsent
    subst hsent
    exact hcarried
  | settle => exact h
  | settled hn =>
    obtain ⟨hseq, hcolour, haccepted, hdone, herror, hstatus, hready, -⟩ := h
    exact ⟨hseq, hcolour, haccepted, hdone, herror, hstatus, hready, hseq⟩
  | clearError =>
    obtain ⟨hseq, hcolour, haccepted, hdone, -, hstatus, hready, hcompletion⟩ := h
    exact ⟨hseq, hcolour, haccepted, hdone, rfl, hstatus, hready, hcompletion⟩
  | finish =>
    obtain ⟨hseq, hcolour, haccepted, hdone, herror, -, hready, hcompletion⟩ := h
    exact .inr ⟨hseq, hcolour, haccepted, hdone, herror, rfl, hready, hcompletion⟩

/-- The firmware does not pass the gate of a bank that is not granted. -/
theorem Before.step (h : Before request l bs d) (hp : Progress request l m₀ d)
    (hp' : Progress request l m₀ d') (hhost : Host request m d)
    (hgrant : ∀ b bs', bs = b :: bs' → m .bankGrant < b.ordinal) (hloads : Loads m e)
    (hstep : Pru.FStep tm l d e d') : Before request l bs d' := by
  cases hstep with
  | alu => exact h
  | pollSame => exact h
  | pollNew hnew =>
    have hread := hloads _ _ rfl
    rcases hhost.seq with ⟨-, hseq⟩ | hpublished
    · exact absurd (hread.trans hseq) hnew
    rcases h with ⟨-, hbs⟩ | ⟨hseq, -⟩
    · exact hbs
    · exact absurd ((hread.trans hpublished.1).trans hseq.symm) hnew
  | latch | clearReady | clearDone | accept | readColour => exact h
  | latchFailed | colourFailed | gateFailed => exact hp'.elim
  | start => exact Eq.symm h
  | config => exact h
  | wait | offer | gateWait => exact h
  | gate =>
    have hlt := hgrant _ _ (Eq.symm h)
    rw [← hloads _ _ rfl] at hlt
    exact absurd hlt (BitVec.lt_irrefl _)
  | settleStart => exact Eq.symm h
  | settle | settled | clearError => exact h
  | finish => exact .inr ⟨hp.seq, h⟩
  | _ => exact h.elim

/-- At a granted bank the firmware goes on to its end, or stops there. -/
theorem AtBank.step (h : AtBank b bs d) (hp : Progress request l m₀ d)
    (hp' : Progress request l m₀ d') (hstep : Pru.FStep tm l d e d') :
    AtBank b bs d' ∨ Before request l bs d' := by
  cases hstep with
  | alu => exact .inl h
  | gateWait | gate | release | rerun | drainClear | drainRead => exact .inl h
  | gateFailed => exact hp'.elim
  | @stream seq colour out b' bs' e left =>
    unfold Pru.streaming
    split <;> exact .inl h
  | drained =>
    obtain ⟨-, rfl⟩ := h
    exact .inr rfl
  | drainFailed =>
    -- the bank has not been counted
    obtain ⟨rfl, rfl⟩ := h
    obtain ⟨sent, hsent, hcarried⟩ := hp
    refine .inl fun hdone => ?_
    have hlast : lastOf sent = _ := hcarried.done.symm.trans hdone
    exact absurd (lastOf_lt hsent) (hlast ▸ BitVec.lt_irrefl _)
  | fatalStatus | halt => exact .inl h
  | _ => exact h.elim

/-- What the helper has read stays so. -/
theorem Matched.step (h : Matched request l m₀ bs d)
    (hgrant : ∀ b bs', bs = b :: bs' → m .bankGrant < b.ordinal)
    (hseq : m .requestSeq = request.previousSeq + 1) (hloads : Loads m e)
    (hstep : Pru.FStep tm l d e d') : Matched request l m₀ bs d' := by
  cases bs with
  | nil =>
    intro hfresh
    obtain ⟨hphase, hnew⟩ := h hfresh
    rw [poll_stays hphase (hseq.trans hnew.symm) hloads hstep]
    exact ⟨hphase, hnew⟩
  | cons b bs =>
    obtain ⟨phase, seq, colour, out⟩ := d
    obtain rfl : phase = .gate b bs := h
    have hlt := hgrant _ _ rfl
    cases hstep with
    | alu | gateWait => rfl
    | gate =>
      rw [← hloads _ _ rfl] at hlt
      exact absurd hlt (BitVec.lt_irrefl _)
    | gateFailed hv =>
      rw [← hloads _ _ rfl] at hlt
      exact absurd (BitVec.lt_trans hlt hv) (BitVec.lt_irrefl _)

/-- A completed sequence stays completed. -/
theorem completed_step (h : Before request l [] d) (hp : Progress request l m₀ d)
    (hout : d.out .completionSeq = request.previousSeq + 1)
    (hstep : Pru.FStep tm l d e d') : d'.out .completionSeq = request.previousSeq + 1 := by
  cases hstep with
  | publish => exact h.elim
  | settled => exact hp.seq
  | _ => exact hout

/-- What the firmware may rely on, from what the helper knows. -/
theorem Sync.host {p : KPhase} (h : Sync request l m₀ m p d) (hlost : p.lost = false) :
    Host request m d := by
  obtain ⟨phase, seq, colour, out⟩ := d
  have hidle (hseq : m .requestSeq = request.previousSeq) (hphase : phase = .poll)
      (hprevious : seq = request.previousSeq) : Host request m ⟨phase, seq, colour, out⟩ := by
    subst hphase
    refine ⟨.inl ⟨rfl, hseq.trans hprevious.symm⟩, ?_, ?_⟩
    · rintro ⟨⟩
    · rintro b bs ⟨⟩
  cases p with
  | idle | held | refused => exact hidle h.1 h.2.1 h.2.2
  | zeroed | coloured => exact hidle h.1 h.2.1 h.2.2.1
  | waiting bs isMatched =>
    obtain ⟨hpublished, ⟨sent, hsent, hgrant⟩, hbefore, -⟩ := h
    refine ⟨.inr hpublished, ?_, ?_⟩
    · rintro rfl
      have hbs : bs = Pru.nonEmpty l := hbefore
      rw [hgrant, List.append_left_eq_self.mp (hsent.trans hbs.symm)]
      rfl
    · rintro b bs' rfl
      obtain rfl : b :: bs' = bs := hbefore
      rw [hgrant]
      exact BitVec.le_of_lt (lastOf_lt hsent)
  | granted b bs =>
    obtain ⟨hpublished, ⟨sent, hsent⟩, hgrant, hwhere⟩ := h
    refine ⟨.inr hpublished, ?_, ?_⟩
    · rintro rfl
      have hbs : bs = Pru.nonEmpty l := hwhere.resolve_left id
      rw [← hbs] at hsent
      have hlength := congrArg List.length hsent
      simp at hlength
      omega
    · rintro b' bs' rfl
      rw [hgrant]
      rcases hwhere with ⟨rfl, -⟩ | hbefore
      · exact BitVec.le_refl _
      · obtain rfl : b' :: bs' = bs := hbefore
        exact BitVec.le_of_lt (ordinal_lt hsent)
  | complete | sent =>
    obtain ⟨hpublished, hgrant, hbefore, -⟩ := h
    refine ⟨.inr hpublished, ?_, ?_⟩
    · rintro rfl
      have hnone : [] = Pru.nonEmpty l := hbefore
      rw [hgrant, ← hnone]
      rfl
    · rintro b bs rfl
      have hnone : b :: bs = [] := hbefore
      cases hnone
  | missed | failed | broken => cases hlost

/-- A step of the firmware under the helper's phase. -/
theorem Sync.device {p : KPhase} {m' : DldCommand} (hframe : Frame request l m₀)
    (h : Sync request l m₀ m p d) (hlost : p.lost = false) (hp : Progress request l m₀ d)
    (hloads : Loads m e) (hstep : Pru.FStep tm l d e d')
    (hm' : ∀ off, off ∉ Pru.firmwareWords → m' off = m off) :
    Progress request l m₀ d' ∧ Sync request l m₀ m' p d' := by
  have hhost := h.host hlost
  have hp' := hp.step hframe hhost hloads hstep
  refine ⟨hp', ?_⟩
  have hseq : m' .requestSeq = m .requestSeq := hm' _ (by decide)
  have hcolour : m' .wireColor = m .wireColor := hm' _ (by decide)
  have hgrant : m' .bankGrant = m .bankGrant := hm' _ (by decide)
  have hpublished (hw : PublishedWords request m) : PublishedWords request m' :=
    ⟨hseq.trans hw.1, hcolour.trans hw.2⟩
  cases p with
  | idle | held | refused =>
    obtain ⟨hprevious, hphase, hd⟩ := h
    rw [poll_stays hphase (hprevious.trans hd.symm) hloads hstep]
    exact ⟨hseq.trans hprevious, hphase, hd⟩
  | zeroed =>
    obtain ⟨hprevious, hphase, hd, hzero⟩ := h
    rw [poll_stays hphase (hprevious.trans hd.symm) hloads hstep]
    exact ⟨hseq.trans hprevious, hphase, hd, hgrant.trans hzero⟩
  | coloured =>
    obtain ⟨hprevious, hphase, hd, hzero, hwire⟩ := h
    rw [poll_stays hphase (hprevious.trans hd.symm) hloads hstep]
    exact ⟨hseq.trans hprevious, hphase, hd, hgrant.trans hzero, hcolour.trans hwire⟩
  | waiting bs isMatched =>
    obtain ⟨hwords, ⟨sent, hsent, hlast⟩, hbefore, hmatched⟩ := h
    have hless : ∀ b bs', bs = b :: bs' → m .bankGrant < b.ordinal := by
      rintro b bs' rfl
      rw [hlast]
      exact lastOf_lt hsent
    refine ⟨hpublished hwords, ⟨sent, hsent, hgrant.trans hlast⟩, ?_, fun h => ?_⟩
    · exact hbefore.step hp hp' hhost hless hloads hstep
    · exact (hmatched h).step hless hwords.1 hloads hstep
  | granted b bs =>
    obtain ⟨hwords, ⟨sent, hsent⟩, hlast, hwhere⟩ := h
    refine ⟨hpublished hwords, ⟨sent, hsent⟩, hgrant.trans hlast, ?_⟩
    rcases hwhere with hat | hbefore
    · exact hat.step hp hp' hstep
    · refine .inr (hbefore.step hp hp' hhost ?_ hloads hstep)
      rintro b' bs' rfl
      rw [hlast]
      exact ordinal_lt hsent
  | complete | sent =>
    obtain ⟨hwords, hlast, hbefore, hcompleted, hdone⟩ := h
    refine ⟨hpublished hwords, hgrant.trans hlast, ?_, ?_, ?_⟩
    · exact hbefore.step hp hp' hhost (by simp) hloads hstep
    · exact completed_step hbefore hp hcompleted hstep
    · exact hdone.step (by simp) hwords.1 hloads hstep
  | missed | failed | broken => trivial

end Firmware

end Dld
