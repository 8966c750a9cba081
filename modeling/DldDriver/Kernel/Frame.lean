/-
DldDriver/Kernel/Frame.lean

The automaton of `Kernel/Protocol.lean` along the code, from the publication
to the return of `perform_send`.

* `Going`: the frame is published and not given up without its cleanup
* `wp_waitGate`, `wp_tryBank`, `wp_runBank`: one phase each
* `wp_sendBanks`: by recursion on the banks that are left
* `wp_performSend`: every run ends in a final phase, with `Outcome`
-/
import DldDriver.Kernel.Protocol

namespace Dld

open Interaction

section Frame

variable {request r : DldQuietSend} {pruss : Prop} {answer : Off → Word → Prop}
variable {b : Bank} {bs : List Bank} {s : KState}

/-- The frame is published, and cleared if it has been withdrawn. -/
structure Going (s : KState) : Prop where
  published : s.phase.published = true
  notCleaned : s.cleanup = .never
  withdrawn : ∀ isCleared, s.phase = .failed isCleared → isCleared = true

/-! ### wait_gate -/

/-- Reading a mailbox word never leaves a published frame. -/
theorem KPhase.read_published {p : KPhase} (hp : p.published = true) (off : Off) (v : Word) :
    (p.read request off v).published = true := by
  unfold KPhase.read
  split
  · cases hp
  · rfl
  · rfl
  · split <;> rfl
  · split <;> rfl
  · exact hp

theorem KPhase.read_failed {p : KPhase} {off : Off} {v : Word} {isCleared : Bool}
    (hp : p.read request off v = .failed isCleared) : p = .failed isCleared := by
  unfold KPhase.read at hp
  split at hp
  · cases hp
  · cases hp
  · cases hp
  · split at hp <;> cases hp
  · split at hp <;> cases hp
  · exact hp

/-- A program that only reads and masks is safe, and keeps what every read keeps. -/
theorem wp_polling {α : Type} {p : KProg α} {I : KState → Prop} {a : Access}
    (hp : p.Emits a.allows) (hwrites : ∀ r, ¬ a.writes r)
    (hcalls : ¬ a.calls .failedFrameCleanup) (hI : I s)
    (hread : ∀ s off v, I s → I { s with phase := s.phase.read request off v }) :
    (helper request pruss answer).wp p s fun s' _ => I s' := by
  refine Monitor.wp_invariant hp hI ?_
  rintro s ⟨op, v⟩ he hs -
  cases op with
  | readl reg =>
    cases reg with
    | mailbox off => exact ⟨trivial, hread s off v hs⟩
    | _ => exact ⟨trivial, hs⟩
  | writel w reg => exact absurd he (hwrites reg)
  | enter f | leave f =>
    cases f with
    | failedFrameCleanup => exact absurd he hcalls
    | _ => exact ⟨trivial, hs⟩
  | mutexTrylock | mutexUnlock | copyFromUser | copyToUser => exact he.elim
  | _ => exact ⟨trivial, hs⟩

theorem Going.read (hs : Going s) (off : Off) (v : Word) :
    Going { s with phase := s.phase.read request off v } :=
  ⟨KPhase.read_published hs.published off v, hs.notCleaned,
    fun isCleared hfailed => hs.withdrawn isCleared (KPhase.read_failed hfailed)⟩

/-- What only polls keeps the frame going. -/
theorem wp_going {α : Type} {p : KProg α} {a : Access} (hp : p.Emits a.allows)
    (hwrites : ∀ r, ¬ a.writes r) (hcalls : ¬ a.calls .failedFrameCleanup) (hs : Going s) :
    (helper request pruss answer).wp p s fun s' _ => Going s' :=
  wp_polling hp hwrites hcalls hs fun _ off v hs => hs.read off v

/-- Waiting for the first bank of `b :: bs`, or for the end of the frame. -/
def Waiting (banks : List Bank) (s : KState) : Prop :=
  s.cleanup = .never ∧
    ((∃ isMatched, s.phase = .waiting banks isMatched) ∨ banks = [] ∧ s.phase = .complete)

theorem KPhase.read_waiting (request : DldQuietSend) (banks : List Bank) (isMatched : Bool) (off : Off)
    (v : Word) :
    (∃ isMatched', (KPhase.waiting banks isMatched).read request off v =
        .waiting banks isMatched') ∨
      banks = [] ∧ (KPhase.waiting banks isMatched).read request off v = .complete := by
  cases banks with
  | cons b bs => cases off <;> exact .inl ⟨_, rfl⟩
  | nil =>
    cases off with
    | completionSeq =>
      cases isMatched with
      | false => exact .inl ⟨_, rfl⟩
      | true =>
        by_cases hv : v = request.previousSeq + 1
        · exact .inr ⟨rfl, if_pos hv⟩
        · exact .inl ⟨true, if_neg hv⟩
    | _ => exact .inl ⟨_, rfl⟩

theorem Waiting.read {banks : List Bank} (hs : Waiting banks s) (off : Off) (v : Word) :
    Waiting banks { s with phase := s.phase.read request off v } := by
  obtain ⟨phase, cleanup⟩ := s
  obtain ⟨hcleanup, ⟨isMatched, rfl⟩ | ⟨rfl, rfl⟩⟩ := hs
  · exact ⟨hcleanup, KPhase.read_waiting request banks isMatched off v⟩
  · exact ⟨hcleanup, .inr ⟨rfl, by cases off <;> rfl⟩⟩

theorem Waiting.going {banks : List Bank} (hs : Waiting banks s) : Going s := by
  obtain ⟨hcleanup, ⟨isMatched, hp⟩ | ⟨-, hp⟩⟩ := hs
  · exact ⟨by rw [hp]; rfl, hcleanup, fun c h => by rw [hp] at h; cases h⟩
  · exact ⟨by rw [hp]; rfl, hcleanup, fun c h => by rw [hp] at h; cases h⟩

/-- The polls before the one that matched change nothing but `isMatched`. -/
theorem Waiting.polls {banks : List Bank} {polls : List KEvent} (hs : Waiting banks s)
    (hpolls : ∀ e ∈ polls, polling.allows e) :
    Waiting banks ((helper request pruss answer).run s polls) := by
  refine Monitor.run_invariant _ hs fun e he s hs => ?_
  have hallowed := hpolls e he
  obtain ⟨op, v⟩ := e
  cases op with
  | readl reg =>
    cases reg with
    | mailbox off => exact hs.read off v
    | _ => exact hs
  | writel | enter | leave | mutexTrylock | mutexUnlock | copyToUser => exact hallowed.elim
  | _ => exact hs

/-- A wait that returns zero has matched. -/
theorem wp_waitGate (final : Bool) (banks : List Bank) (ordinal : Word) (hs : Waiting banks s)
    (hseq : r.requestSeq = request.previousSeq + 1)
    (hbanks : match banks with
      | [] => final = true
      | b :: _ => final = false ∧ ordinal = b.ordinal) :
    (helper request pruss answer).wp (waitGate r ordinal final) s fun s' error =>
      Waiting banks s' ∧ (error = 0 → s' = match banks with
        | [] => ⟨.complete, .never⟩
        | b :: bs => ⟨.waiting (b :: bs) true, .never⟩) := by
  have hwait : (helper request pruss answer).wp (waitGate r ordinal final) s
      fun s' _ => Waiting banks s' :=
    wp_polling (emits_waitGate (a := { polling with calls := (· = .waitGate) }) trivial
      (fun _ => trivial) (fun _ => trivial) rfl r ordinal final) (fun _ h => h) (by nofun) hs
      fun _ off v hs => hs.read off v
  refine Monitor.wp_mono (Monitor.wp_all hwait (waitGate_all r ordinal final)) ?_
  rintro s' error ⟨hs', t, rfl, ht⟩
  refine ⟨hs', fun h0 => ?_⟩
  obtain ⟨start, now, later, polls, flags, clock, rfl, hpolls, -⟩ := ht h0
  have hwaiting : Waiting banks ((helper request pruss answer).run s polls) := hs.polls hpolls
  rw [List.append_assoc, List.cons_append, List.cons_append, Monitor.run_cons, Monitor.run_cons,
    Monitor.run_append]
  show (helper request pruss answer).run ((helper request pruss answer).run s polls) _ = _
  generalize (helper request pruss answer).run s polls = s₁ at hwaiting ⊢
  obtain ⟨phase, cleanup⟩ := s₁
  obtain ⟨hcleanup, hp⟩ := hwaiting
  obtain rfl : cleanup = .never := hcleanup
  cases banks with
  | nil =>
    subst hbanks
    rw [hseq]
    rcases hp with ⟨isMatched, rfl⟩ | ⟨-, rfl⟩
    · simp [gatePoll, helper, KState.next, KPhase.read, wantedStatus, wantedOff, wantedValue, hseq]
    · rfl
  | cons b bs =>
    obtain ⟨rfl, rfl⟩ := hbanks
    rcases hp with ⟨isMatched, rfl⟩ | ⟨h, -⟩
    · simp [gatePoll, helper, KState.next, KPhase.read, wantedStatus, wantedOff, wantedValue]
    · cases h

/-! ### try_bank -/

/-- The store of zero to `magic` gives the frame up, and clears it. -/
theorem KPhase.store_magic {p : KPhase} (hp : p.published = true) :
    p.store request .magic = .failed true := by
  cases p with
  | waiting banks isMatched => cases banks <;> rfl
  | idle | held | zeroed | coloured | refused | sent | broken => cases hp
  | _ => rfl

theorem KPhase.mayStore_magic {p : KPhase} (hp : p.published = true) :
    p.mayStore request .magic 0 := by
  cases p with
  | waiting banks isMatched => cases banks <;> cases isMatched <;> exact ⟨rfl, rfl⟩
  | idle | held | zeroed | coloured | refused | sent | broken => cases hp
  | _ => exact ⟨rfl, rfl⟩

/-- Store zero to `magic` in a published frame. -/
theorem wp_clearMagic {α : Type} {f : Unit → KProg α} {Q : KState → α → Prop}
    (hs : s.phase.published = true)
    (hf : (helper request pruss answer).wp (f ()) { s with phase := .failed true } Q) :
    (helper request pruss answer).wp (writel 0 (.mailbox .magic) >>= f) s Q := by
  refine Monitor.wp_op_bind fun _ _ => ⟨KPhase.mayStore_magic hs, ?_⟩
  show (helper request pruss answer).wp _ { s with phase := s.phase.store request .magic } Q
  rw [KPhase.store_magic hs]
  exact hf

theorem wp_grantBank_going :
    (helper request pruss answer).wp (grantBank r b) ⟨.waiting (b :: bs) true, .never⟩ fun s' a =>
      Going s' ∧ (a.2 = 0 → s' = ⟨.waiting bs false, .never⟩) := by
  have htime : (-eTime : Int) ≠ 0 := by decide
  have htimedout : (-eTimedout : Int) ≠ 0 := by decide
  refine Monitor.wp_bind.mpr (Monitor.wp_bind.mpr (wp_looking' (emits_timerStart 16 64) fun warm =>
    Monitor.wp_ite.mpr ⟨fun hfault => ?_, fun _ => ?_⟩))
  · -- the grant is withheld
    have hflag : (warm ||| 0x40000000) &&& timerFault = warm &&& 0x80000000 := by
      rw [BitVec.and_comm, BitVec.and_or_distrib_left, BitVec.and_comm]
      simp
    refine Monitor.wp_ite.mpr ⟨fun _ => ⟨⟨rfl, rfl, nofun⟩, fun h0 => absurd h0 htime⟩, fun h => ?_⟩
    exact absurd (hflag.trans_ne hfault) h
  · -- the grant, the timer, and the single read of `bank_done`
    refine Monitor.wp_op_bind fun _ _ => ⟨trivial, ?_⟩
    refine Monitor.wp_op_bind fun _ _ => ⟨rfl, ?_⟩
    refine Monitor.wp_op_bind fun _ _ => ⟨trivial, ?_⟩
    refine Monitor.wp_bind.mpr (wp_looking' (emits_timerStart _ _) fun elapsed => ?_)
    refine Monitor.wp_op_bind fun _ _ => ⟨trivial, ?_⟩
    refine Monitor.wp_op_bind fun observed _ => ⟨trivial, ?_⟩
    have hread : (KPhase.granted b bs).read request .bankDone observed =
        if observed = b.ordinal then .waiting bs false else .missed := rfl
    show (helper request pruss answer).wp _ ⟨(KPhase.granted b bs).read request .bankDone observed,
      .never⟩ _
    have hgoing : Going ⟨(KPhase.granted b bs).read request .bankDone observed, .never⟩ := by
      rw [hread]
      split <;> exact ⟨rfl, rfl, nofun⟩
    refine Monitor.wp_ite.mpr ⟨fun _ => ⟨hgoing, fun h0 => absurd h0 htime⟩, fun _ => ?_⟩
    refine Monitor.wp_ite.mpr ⟨fun _ => ⟨hgoing, fun h0 => absurd h0 htimedout⟩, fun hdone => ?_⟩
    refine ⟨hgoing, fun _ => ?_⟩
    rw [hread, if_pos (not_not.mp hdone)]

/-- Only a granted bank that failed is withdrawn. -/
theorem wp_withdrawBank_going (error : Int) (hs : Going s) :
    (helper request pruss answer).wp (withdrawBank r b error) s fun s' _ =>
      Going s' ∧ (error = 0 ∨ r.grantedMask &&& b.bit = 0 → s' = s) := by
  refine Monitor.wp_ite.mpr ⟨fun hfailed => ?_, fun _ => ⟨hs, fun _ => rfl⟩⟩
  have hnot : ¬ (error = 0 ∨ r.grantedMask &&& b.bit = 0) := not_or.mpr hfailed
  refine Monitor.wp_bind.mpr (wp_pruss fun ok _ => Monitor.wp_ite.mpr
    ⟨fun _ => ?_, fun _ => ⟨hs, fun _ => rfl⟩⟩)
  refine Monitor.wp_op_bind fun _ _ => ⟨hs.published, wp_clearMagic hs.published ?_⟩
  refine fun _ _ => ⟨trivial, ⟨rfl, hs.notCleaned, ?_⟩, fun h => absurd h hnot⟩
  rintro isCleared ⟨⟩
  rfl

theorem wp_finishBank_going (changedDma : Option Word) (flags start : Word) (error : Int) (hs : Going s) :
    (helper request pruss answer).wp (finishBank r b changedDma flags start error) s fun s' a =>
      Going s' ∧ (error = 0 ∨ a.1.grantedMask &&& b.bit = 0 → s' = s) ∧
        (a.2 = error ∨ a.2 = -eIo) := by
  have hmask : (restoreDma r b changedDma error).All fun _ a =>
      a.1.grantedMask = r.grantedMask ∧ (a.2 = error ∨ a.2 = -eIo) := by
    cases changedDma with
    | none => exact ⟨rfl, .inl rfl⟩
    | some saved =>
      refine Prog.all_op_bind.mpr fun _ => Prog.all_op_bind.mpr fun _ => Prog.all_op_bind.mpr fun _ => ?_
      refine Prog.all_op_bind.mpr fun _ => Prog.all_ite.mpr ⟨fun _ => ⟨rfl, .inr rfl⟩, fun _ => ?_⟩
      exact ⟨rfl, .inl rfl⟩
  refine Monitor.wp_bind.mpr (Monitor.wp_mono (wp_withdrawBank_going error hs) ?_)
  rintro s' _ ⟨hs', hsame⟩
  refine Monitor.wp_bind.mpr (wp_aside hs'.published
    (emits_restoreDma (fun _ => rfl) (fun _ => rfl) r b changedDma error) hmask ?_)
  rintro t ⟨r', error'⟩ ⟨hmask', herror⟩
  refine Monitor.wp_op_bind fun _ _ => ⟨trivial, Monitor.wp_bind.mpr (wp_unmask ⟨hs', ?_, herror⟩)⟩
  rintro (h0 | hclear)
  · exact hsame (.inl h0)
  · rw [show r'.grantedMask = r.grantedMask from hmask'] at hclear
    exact hsame (.inr hclear)

/-- One attempt: the bank is done, or it may be tried again, or it failed. -/
theorem wp_tryBank (policy : Bool) :
    (helper request pruss answer).wp (tryBank r policy b) ⟨.waiting (b :: bs) true, .never⟩
      fun s' a => Going s' ∧ (a.2 = 0 → s' = ⟨.waiting bs false, .never⟩) ∧
        (a.2 = -eAgain ∧ a.1.grantedMask &&& b.bit = 0 →
          s' = ⟨.waiting (b :: bs) true, .never⟩) := by
  have hio : (-eIo : Int) ≠ -eAgain := by decide
  have hio' : (-eIo : Int) ≠ 0 := by decide
  have hstart : Going ⟨.waiting (b :: bs) true, .never⟩ := ⟨rfl, rfl, nofun⟩
  refine Monitor.wp_op_bind fun _ _ => ⟨trivial, Monitor.wp_bind.mpr (Monitor.wp_bind.mpr ?_)⟩
  refine wp_mask fun flags => Monitor.wp_op_bind fun start _ => ⟨trivial, Monitor.wp_bind.mpr ?_⟩
  refine wp_aside hstart.published (emits_admitBank (fun _ => rfl) (fun _ _ => rfl) (fun _ => rfl)
    (fun _ => rfl) _ policy b) (Prog.all_of_forall fun _ _ => trivial) fun _ attempt (_ : True) => ?_
  refine Monitor.wp_ite.mpr ⟨fun herror => ?_, fun _ => ?_⟩
  · -- the admission failed
    refine Monitor.wp_mono (wp_finishBank_going _ flags start _ hstart) ?_
    rintro s' a ⟨hs', hsame, hresult⟩
    refine Monitor.wp_op_bind fun _ _ => ⟨trivial, hs', fun h0 => ?_, fun h => hsame (.inr h.2)⟩
    rcases hresult with hresult | hresult
    · exact absurd (hresult.symm.trans h0) herror
    · exact absurd (hresult.symm.trans h0) hio'
  · -- the grant routine ran
    refine Monitor.wp_bind.mpr (Monitor.wp_mono (Monitor.wp_all wp_grantBank_going
      (grantBank_all attempt.request b)) ?_)
    rintro s₁ ⟨r', error⟩ ⟨⟨hs₁, hdone⟩, -, -, -, -, hretry, -⟩
    refine Monitor.wp_mono (wp_finishBank_going _ flags start _ hs₁) ?_
    rintro s' a ⟨hs', hsame, hresult⟩
    refine Monitor.wp_op_bind fun _ _ => ⟨trivial, hs', fun h0 => ?_, fun h => ?_⟩
    · rcases hresult with hresult | hresult
      · have herror : error = 0 := hresult.symm.trans h0
        exact (hsame (.inl herror)).trans (hdone herror)
      · exact absurd (hresult.symm.trans h0) hio'
    · rcases hresult with hresult | hresult
      · exact absurd (hresult.symm.trans h.1) hretry
      · exact absurd (hresult.symm.trans h.1) hio

/-! ### The loops -/

/-- A bank that is run to its end is done, or the frame has failed. -/
theorem wp_runBank (policy : Bool) :
    (helper request pruss answer).wp (runBank r policy b) ⟨.waiting (b :: bs) true, .never⟩
      fun s' a => Going s' ∧ (a.2 = 0 → s' = ⟨.waiting bs false, .never⟩) ∧
        a.1.core = r.core ∧ a.1.requestSeq = r.requestSeq := by
  have htimedout : (-eTimedout : Int) ≠ 0 := by decide
  have hstart : Going ⟨.waiting (b :: bs) true, .never⟩ := ⟨rfl, rfl, nofun⟩
  -- an attempt that is retried leaves the automaton where it was
  have hloop (deadline : Int) (n : Nat) (r' : DldQuietSend) (hcore : r'.core = r.core)
      (hseq : r'.requestSeq = r.requestSeq) :
      (helper request pruss answer).wp
        (admissionLoop ktimeGet (bankAdmissionAttempt policy b) usleepRange false deadline n r')
        ⟨.waiting (b :: bs) true, .never⟩ fun s' a =>
          Going s' ∧ (a.2 = 0 → s' = ⟨.waiting bs false, .never⟩) ∧
            a.1.core = r.core ∧ a.1.requestSeq = r.requestSeq := by
    induction n generalizing r' with
    | zero => exact ⟨hstart, fun h0 => absurd h0 htimedout, hcore, hseq⟩
    | succ n ih =>
      refine Monitor.wp_op_bind fun now _ => ⟨trivial, Monitor.wp_ite.mpr
        ⟨fun _ => ⟨hstart, fun h0 => absurd h0 htimedout, hcore, hseq⟩, fun _ => ?_⟩⟩
      refine Monitor.wp_bind.mpr (Monitor.wp_bind.mpr (Monitor.wp_mono (Monitor.wp_all
        (wp_tryBank policy) (tryBank_all r' policy b)) ?_))
      rintro s' ⟨r'', error⟩ ⟨⟨hs', hdone, hretry⟩, t, -, ht⟩
      have hcore' := ht.inputs.trans hcore
      have hseq' := ht.requestSeq.trans hseq
      refine Monitor.wp_ite.mpr ⟨fun hagain => ?_, fun _ => Monitor.wp_ite.mpr
        ⟨fun hidle => (nomatch hidle.2), fun _ => ⟨hs', hdone, hcore', hseq'⟩⟩⟩
      have hclear : r''.grantedMask &&& b.bit = 0 := not_not.mp (of_decide_eq_false hagain.2)
      obtain rfl := hretry ⟨hagain.1, hclear⟩
      exact Monitor.wp_op_bind fun _ _ => ⟨trivial, ih r'' hcore' hseq'⟩
  refine Monitor.wp_op_bind fun _ _ => ⟨trivial, Monitor.wp_bind.mpr ?_⟩
  refine Monitor.wp_op_bind fun now _ => ⟨trivial, Monitor.wp_mono (hloop _ _ r rfl rfl) ?_⟩
  rintro s' a hpost
  exact Monitor.wp_op_bind fun _ _ => ⟨trivial, hpost⟩

/-- The banks that are left, one phase each, and the end of the frame. -/
theorem wp_sendBanks (policy : Bool) (banks : List Bank)
    (hlength : ∀ b, bankLength r b = bankLength request b)
    (hseq : r.requestSeq = request.previousSeq + 1) :
    (helper request pruss answer).wp (sendBanks r policy banks)
      ⟨.waiting (banks.filter fun b => bankLength request b ≠ 0) false, .never⟩ fun s' a =>
        Going s' ∧ (a.2 = 0 → s' = ⟨.complete, .never⟩) ∧ a.1.core = r.core := by
  induction banks generalizing r with
  | nil =>
    have hs : Waiting [] ⟨.waiting [] false, .never⟩ := ⟨rfl, .inl ⟨false, rfl⟩⟩
    refine Monitor.wp_bind.mpr (Monitor.wp_mono (wp_waitGate (r := { r with stage := stageFinal })
      true [] 0 hs hseq rfl) ?_)
    rintro s' error ⟨hs', hdone⟩
    exact Monitor.wp_ite.mpr ⟨fun h0 => ⟨hs'.going, fun _ => hdone h0, rfl⟩,
      fun h0 => ⟨hs'.going, fun h => absurd h h0, rfl⟩⟩
  | cons bank rest ih =>
    refine Monitor.wp_ite.mpr ⟨fun hempty => ?_, fun hnonempty => ?_⟩
    · -- an empty bank is skipped
      have hskip : bankLength request bank = 0 := (hlength bank).symm.trans hempty
      rw [List.filter_cons_of_neg (by simp [hskip])]
      exact ih hlength hseq
    have hkeep : bankLength request bank ≠ 0 := fun h0 => hnonempty ((hlength bank).trans h0)
    rw [List.filter_cons_of_pos (by simpa using hkeep)]
    generalize hleft : rest.filter (fun b => bankLength request b ≠ 0) = left at ih ⊢
    have hs : Waiting (bank :: left) ⟨.waiting (bank :: left) false, .never⟩ :=
      ⟨rfl, .inl ⟨false, rfl⟩⟩
    refine Monitor.wp_bind.mpr (Monitor.wp_mono (wp_waitGate (r := { r with stage := stageGate })
      false (bank :: left) bank.ordinal hs hseq ⟨rfl, rfl⟩) ?_)
    rintro s' error ⟨hs', hmatched⟩
    refine Monitor.wp_ite.mpr ⟨fun h0 => ⟨hs'.going, fun h => absurd h h0, rfl⟩, fun h0 => ?_⟩
    obtain rfl := hmatched (not_not.mp h0)
    refine Monitor.wp_bind.mpr (Monitor.wp_mono (wp_runBank policy) ?_)
    rintro s' ⟨r', error⟩ ⟨hs', hdone, hcore, hseq'⟩
    refine Monitor.wp_ite.mpr ⟨fun h0 => ⟨hs', fun h => absurd h h0, hcore⟩, fun h0 => ?_⟩
    obtain rfl := hdone (not_not.mp h0)
    refine Monitor.wp_op_bind fun _ _ => ⟨trivial, ?_⟩
    refine Monitor.wp_mono (ih (fun b => (bankLength_congr hcore b).trans (hlength b))
      (hseq'.trans hseq)) ?_
    rintro s'' a ⟨hs'', hend, hcore'⟩
    exact ⟨hs'', hend, hcore'.trans hcore⟩

/-! ### The cleanup -/

/-- The cleanup keeps the input fields. -/
theorem failedFrameCleanup_core (r : DldQuietSend) :
    (failedFrameCleanup r).All fun _ a => a.core = r.core := by
  have hdisable (r : DldQuietSend) : (disableCores r).All fun _ a => a.core = r.core := by
    refine Prog.all_bind.mpr (Prog.all_of_forall fun _ flags => Prog.all_bind.mpr ?_)
    refine Prog.all_of_forall fun _ ok => Prog.all_ite.mpr ⟨fun _ => ?_, fun _ => ?_⟩
    · exact Prog.all_op_bind.mpr fun _ => Prog.all_op_bind.mpr fun _ => Prog.all_op_bind.mpr
        fun _ => Prog.all_op_bind.mpr fun _ => Prog.all_bind.mpr
          (Prog.all_bind.mpr (Prog.all_of_forall fun _ _ => rfl))
    · exact Prog.all_bind.mpr (Prog.all_bind.mpr (Prog.all_of_forall fun _ _ => rfl))
  have hpoll (r : DldQuietSend) (pending : Word) (cores : List (Fin 2)) :
      (pollCores r pending cores).All fun _ a => a.1.core = r.core := by
    induction cores generalizing r pending with
    | nil => exact rfl
    | cons core rest ih =>
      refine Prog.all_ite.mpr ⟨fun _ => ih r pending, fun _ => Prog.all_op_bind.mpr fun control => ?_⟩
      refine Prog.all_ite.mpr ⟨fun _ => Prog.all_op_bind.mpr fun _ => ih _ _, fun _ => ih r pending⟩
  have hstop (deadline : Int) (n : Nat) (r : DldQuietSend) (pending : Word) :
      (stopLoop deadline n r pending).All fun _ a => a.1.core = r.core := by
    induction n generalizing r pending with
    | zero => exact rfl
    | succ n ih =>
      refine Prog.all_ite.mpr ⟨fun _ => rfl, fun _ => Prog.all_op_bind.mpr fun now => ?_⟩
      refine Prog.all_ite.mpr ⟨fun _ => rfl, fun _ => Prog.all_bind.mpr ?_⟩
      refine Prog.all_of_forall fun _ flags => Prog.all_bind.mpr ?_
      refine Prog.all_of_forall fun _ ok => Prog.all_ite.mpr ⟨fun _ => ?_, fun _ => ?_⟩
      · exact Prog.all_bind.mpr (Prog.all_of_forall fun _ _ => rfl)
      refine Prog.all_bind.mpr (Prog.all_mono (hpoll r pending _) fun _ a ha => ?_)
      refine Prog.all_op_bind.mpr fun _ => Prog.all_bind.mpr (Prog.all_of_forall fun _ _ => ?_)
      have hnext : (stopLoop deadline n a.1 a.2).All fun _ a => a.1.core = r.core :=
        Prog.all_mono (ih a.1 a.2) fun _ _ h => h.trans ha
      exact Prog.all_ite.mpr ⟨fun _ => Prog.all_op_bind.mpr fun _ => hnext, fun _ => hnext⟩
  have hclear (r : DldQuietSend) (banks : List (Fin 3)) :
      (clearBanks r banks).All fun _ a => a.core = r.core := by
    induction banks generalizing r with
    | nil => exact rfl
    | cons bank rest ih =>
      refine Prog.all_op_bind.mpr fun clock => Prog.all_ite.mpr ⟨fun _ => ih _, fun _ => ?_⟩
      refine Prog.all_bind.mpr (Prog.all_of_forall fun _ low => ?_)
      exact Prog.all_ite.mpr ⟨fun _ => ih _, fun _ => ih _⟩
  apply traced_all
  refine Prog.all_bind.mpr (Prog.all_mono (hdisable r) fun _ r₁ h₁ => Prog.all_op_bind.mpr fun now => ?_)
  refine Prog.all_bind.mpr (Prog.all_mono (hstop _ _ r₁ 3) fun _ r₂ h₂ => Prog.all_bind.mpr ?_)
  refine Prog.all_of_forall fun _ flags => Prog.all_bind.mpr ?_
  refine Prog.all_mono (hclear _ _) fun _ r₃ h₃ => Prog.all_bind.mpr (Prog.all_of_forall fun _ _ => ?_)
  have hmark : (if r₂.2 ≠ 0 then { r₂.1 with cleanupFailedMask := r₂.1.cleanupFailedMask ||| 1 }
      else r₂.1).core = r₂.1.core := by
    split <;> rfl
  exact h₃.trans (hmark.trans (h₂.trans h₁))

theorem KPhase.giveUp_published {p : KPhase} (hp : p.published = true) :
    ∃ isCleared, p.giveUp = .failed isCleared := by
  cases p <;> first | exact ⟨_, rfl⟩ | cases hp

/-- The cleanup gives the frame up; with PRUSS on, it clears the magic. -/
theorem wp_failedFrameCleanup (hs : Going s) :
    (helper request pruss answer).wp (failedFrameCleanup r) s fun s' _ =>
      ∃ isCleared, s' = ⟨.failed isCleared, .over⟩ ∧ (pruss → isCleared = true) := by
  obtain ⟨phase, cleanup⟩ := s
  obtain ⟨hpublished, rfl, hwithdrawn⟩ := hs
  obtain ⟨wasCleared, hgiveUp⟩ := KPhase.giveUp_published hpublished
  refine Monitor.wp_op_bind fun _ _ => ⟨⟨hpublished, rfl⟩, Monitor.wp_bind.mpr ?_⟩
  show (helper request pruss answer).wp _ ⟨phase.giveUp, .running⟩ _
  rw [hgiveUp]
  -- what follows the first window stores nothing that matters
  have hrest (r : DldQuietSend) (isCleared : Bool) :
      (helper request pruss answer).wp (ktimeGet >>= fun now =>
          stopLoop (now + gateTimeoutNs) 200 r 3 >>= fun a =>
          maskCpu >>= fun flags =>
          clearBanks (if a.2 ≠ 0 then { a.1 with cleanupFailedMask := a.1.cleanupFailedMask ||| 1 }
            else a.1) (List.finRange 3) >>= fun r =>
          unmaskCpu flags >>= fun _ => pure r) ⟨.failed isCleared, .running⟩
        fun s' _ => s' = ⟨.failed isCleared, .running⟩ := by
    refine wp_aside rfl (Prog.emits_op_bind.mpr fun now => ⟨trivial, ?_⟩)
      (Prog.all_of_forall fun _ _ => trivial) fun _ _ (_ : True) => rfl
    refine Prog.emits_bind (emits_stopLoop trivial (fun _ => rfl) (fun _ => rfl) (fun _ => rfl)
      _ _ _ _) fun a => Prog.emits_bind (emits_maskCpu trivial) fun flags => ?_
    refine Prog.emits_bind (emits_clearBanks (fun _ => rfl) (fun _ _ => rfl) (fun _ _ => rfl) _ _)
      fun _ => Prog.emits_bind (emits_unmaskCpu trivial flags) fun _ => Prog.emits_pure _
  have hleave (r : DldQuietSend) (s : KState) (isCleared : Bool)
      (hs : s = ⟨.failed isCleared, .running⟩) (hcleared : pruss → isCleared = true) :
      (helper request pruss answer).wp (kop (.leave .failedFrameCleanup 0) >>= fun _ => pure r) s
        fun s' _ => ∃ isCleared, s' = ⟨.failed isCleared, .over⟩ ∧ (pruss → isCleared = true) := by
    subst hs
    exact fun _ _ => ⟨⟨rfl, rfl⟩, isCleared, rfl, hcleared⟩
  -- the first window
  refine Monitor.wp_bind.mpr (Monitor.wp_bind.mpr (wp_mask fun flags => Monitor.wp_bind.mpr ?_))
  refine wp_pruss fun ok hok => Monitor.wp_ite.mpr ⟨fun _ => ?_, fun hno => ?_⟩
  · refine wp_clearMagic rfl ?_
    refine Monitor.wp_op_bind fun _ _ => ⟨rfl, Monitor.wp_op_bind fun _ _ => ⟨rfl, ?_⟩⟩
    refine Monitor.wp_op_bind fun _ _ => ⟨trivial, ?_⟩
    show (helper request pruss answer).wp (unmaskCpu flags >>= fun _ => pure r) _ _
    refine Monitor.wp_bind.mpr (wp_unmask ?_)
    exact (Monitor.wp_pure r).mpr (Monitor.wp_mono (hrest r true) fun s' a hs' =>
      hleave a s' true hs' fun _ => rfl)
  · refine Monitor.wp_bind.mpr (Monitor.wp_bind.mpr (wp_unmask ?_))
    exact (Monitor.wp_pure _).mpr (Monitor.wp_mono (hrest _ wasCleared) fun s' a hs' =>
      hleave a s' wasCleared hs' fun hpruss => absurd (hok hpruss) hno)

/-! ### The exit path -/

/-- The end of a published frame. -/
def FrameEnd (answer : Off → Word → Prop) (pruss : Prop) (s : KState) (a : DldQuietSend × Int) :
    Prop :=
  a.1.submitted = 1 ∧
    ((s = ⟨.complete, .never⟩ ∧ a.2 = 0 ∧ Answered answer a.1) ∨
      ∃ isCleared, s = ⟨.failed isCleared, .over⟩ ∧ (pruss → isCleared = true) ∧ a.2 ≠ 0)

/-- The snapshot of a complete frame. -/
theorem wp_snapshot :
    (helper request pruss answer).wp (snapshot r) ⟨.complete, .never⟩ fun s' a =>
      s' = ⟨.complete, .never⟩ ∧ a.submitted = r.submitted ∧ Answered answer a := by
  refine Monitor.wp_op_bind fun _ h₁ => ⟨trivial, Monitor.wp_op_bind fun _ h₂ => ⟨trivial, ?_⟩⟩
  refine Monitor.wp_op_bind fun _ h₃ => ⟨trivial, Monitor.wp_op_bind fun _ h₄ => ⟨trivial, ?_⟩⟩
  refine Monitor.wp_op_bind fun _ h₅ => ⟨trivial, Monitor.wp_op_bind fun _ h₆ => ⟨trivial, ?_⟩⟩
  refine Monitor.wp_op_bind fun _ h₇ => ⟨trivial, Monitor.wp_op_bind fun _ h₈ => ⟨trivial, ?_⟩⟩
  exact ⟨rfl, rfl, h₁ rfl, h₂ rfl, h₃ rfl, h₄ rfl, h₅ rfl, h₆ rfl, h₇ rfl, h₈ rfl⟩

theorem snapshot_core (r : DldQuietSend) : (snapshot r).All fun _ a => a.core = r.core := by
  unfold snapshot readl kop
  simp only [Prog.all_op_bind, Prog.all_pure]
  exact fun _ _ _ _ _ _ _ _ => rfl

/-- The exit path, from a complete frame or from one that failed. -/
theorem wp_submittedDone {error : Int} (hs : Going s) (hsubmitted : r.core.submitted = 1)
    (hdone : error = 0 → s = ⟨.complete, .never⟩) :
    (helper request pruss answer).wp (submittedDone r error) s (FrameEnd answer pruss) := by
  have hnodev : (-eNodev : Int) ≠ 0 := by decide
  -- an error ends in the cleanup
  have hfail {s : KState} (r : DldQuietSend) {error : Int} (flags : Word) (hs : Going s)
      (hsubmitted : r.core.submitted = 1) (herror : error ≠ 0) :
      (helper request pruss answer).wp (unmaskCpu flags >>= fun _ => if error ≠ 0 then
        failedFrameCleanup r >>= fun r => pure (r, error) else pure (r, error)) s
          (FrameEnd answer pruss) := by
    refine Monitor.wp_bind.mpr (wp_unmask (Monitor.wp_ite.mpr
      ⟨fun _ => Monitor.wp_bind.mpr ?_, fun h => absurd herror h⟩))
    refine Monitor.wp_mono (Monitor.wp_all (wp_failedFrameCleanup hs) (failedFrameCleanup_core r)) ?_
    rintro s' a ⟨⟨isCleared, rfl, hcleared⟩, -, -, hcore⟩
    have hsubmitted' : a.core.submitted = 1 := by rw [hcore, hsubmitted]
    exact ⟨hsubmitted', .inr ⟨isCleared, rfl, hcleared, herror⟩⟩
  refine Monitor.wp_bind.mpr (wp_mask fun flags => Monitor.wp_bind.mpr (wp_pruss fun ok _ => ?_))
  refine Monitor.wp_ite.mpr ⟨fun _ => Monitor.wp_bind.mpr ?_, fun _ => ?_⟩
  · by_cases herror : error = 0
    · -- the snapshot of a complete frame is handed out
      obtain rfl := hdone herror
      refine Monitor.wp_mono wp_snapshot ?_
      rintro s' a ⟨rfl, hsubmitted', hanswered⟩
      refine Monitor.wp_bind.mpr ((Monitor.wp_pure _).mpr (Monitor.wp_bind.mpr (wp_unmask
        (Monitor.wp_ite.mpr ⟨fun h => absurd herror h, fun _ => ?_⟩))))
      exact ⟨hsubmitted'.trans hsubmitted, .inl ⟨rfl, herror, hanswered⟩⟩
    · refine Monitor.wp_mono (Monitor.wp_all (wp_going (a := { reads := fun _ => True })
        (emits_snapshot (fun _ => trivial) r) (fun _ h => h) (fun h => h) hs) (snapshot_core r)) ?_
      rintro s' a ⟨hs', -, -, hcore⟩
      exact hfail a flags hs' (by rw [hcore, hsubmitted]) herror
  · refine hfail r flags hs hsubmitted ?_
    split
    · exact hnodev
    · assumption

/-! ### perform_send -/

/-- From the publication to `done`: refused with nothing stored, or sent to
its end. -/
theorem wp_sendFrame (policy : Bool) {seen : Off → Option Word} (hvalid : Validated request seen)
    (hcore : r.core = request.clearOutputs.core) :
    (helper request pruss answer).wp (sendFrame r policy) ⟨.held seen, .never⟩ fun s' a =>
      (s' = ⟨.held seen, .never⟩ ∧ a.1.submitted = 0 ∧ a.2 < 0) ∨ FrameEnd answer pruss s' a := by
  have hnodev : (-eNodev : Int) < 0 := by decide
  have hfield {β : Type} (f : DldQuietSend → β) : f r.core = f request.clearOutputs.core :=
    congrArg f hcore
  have hprevious : r.previousSeq = request.previousSeq := hfield (·.previousSeq)
  have hcolour : wireColor r.profileId r.rgb = wireColor request.profileId request.rgb :=
    hfield fun r => wireColor r.profileId r.rgb
  have hlength (b : Bank) : bankLength r b = bankLength request b := by
    have hinputs : bankLength request.clearOutputs b = bankLength request b := by cases b <;> rfl
    exact (bankLength_congr hcore b).trans hinputs
  refine Monitor.wp_bind.mpr (wp_mask fun flags => Monitor.wp_bind.mpr (wp_pruss fun ok _ => ?_))
  refine Monitor.wp_ite.mpr ⟨fun _ => ?_, fun _ => ?_⟩
  · exact Monitor.wp_bind.mpr (wp_unmask (.inl ⟨rfl, hfield (·.submitted), hnodev⟩))
  -- the three stores of the publication
  refine Monitor.wp_bind.mpr (Monitor.wp_op_bind fun _ _ => ⟨⟨rfl, hvalid⟩, ?_⟩)
  refine Monitor.wp_op_bind fun _ _ => ⟨hcolour, Monitor.wp_op_bind fun _ _ => ⟨trivial, ?_⟩⟩
  refine Monitor.wp_op_bind fun _ _ => ⟨congrArg (· + 1) hprevious, ?_⟩
  refine fun _ _ => ⟨trivial, Monitor.wp_bind.mpr (wp_unmask (Monitor.wp_bind.mpr ?_))⟩
  refine Monitor.wp_mono (wp_sendBanks policy Bank.pass hlength (congrArg (· + 1) hprevious)) ?_
  rintro s' ⟨r', error⟩ ⟨hs', hdone, hcore'⟩
  have hsubmitted : r'.core.submitted = 1 := congrArg (·.submitted) hcore'
  exact Monitor.wp_mono (wp_submittedDone hs' hsubmitted hdone) fun _ _ hend => .inr hend

/-- The label `done` releases the mutex, last. -/
theorem wp_sendDone (held : Held) {Q : KState → Unit → Prop}
    (hsafe : KState.may request pruss s ⟨.mutexUnlock, ()⟩)
    (hQ : Q { s with phase := s.phase.unlock } ()) :
    (helper request pruss answer).wp (sendDone r held) s Q := by
  have hop (o : KOp) (ho : ∀ r, (helper request pruss answer).safe s ⟨o, r⟩ ∧
      (helper request pruss answer).next s ⟨o, r⟩ = s) {f : o.Res → KProg Unit} {q : KProg Unit}
      {c : Prop} [Decidable c] (hf : ∀ r, (helper request pruss answer).wp (f r) s Q)
      (hq : (helper request pruss answer).wp q s Q) :
      (helper request pruss answer).wp (if c then kop o >>= f else q) s Q := by
    refine Monitor.wp_ite.mpr ⟨fun _ => Monitor.wp_op_bind fun r _ => ⟨(ho r).1, ?_⟩, fun _ => hq⟩
    rw [(ho r).2]
    exact hf r
  have hlast : (helper request pruss answer).wp (kop .putOnlineCpus >>= fun _ => kop .mutexUnlock)
      s Q :=
    fun _ _ => ⟨trivial, fun _ _ => ⟨hsafe, hQ⟩⟩
  have hpolicy := hop .cpufreqCpuPut (fun _ => ⟨trivial, rfl⟩) (c := held.policy = true)
    (fun _ => hlast) hlast
  have hrtnl := hop .rtnlUnlock (fun _ => ⟨trivial, rfl⟩) (c := held.rtnl = true)
    (fun _ => hpolicy) hpolicy
  have hnet := hop .devPut (fun _ => ⟨trivial, rfl⟩) (c := held.net = true) (fun _ => hrtnl) hrtnl
  have hpower := hop .pmRuntimePut (fun _ => ⟨trivial, rfl⟩) (c := held.power = true)
    (fun _ => hnet) hnet
  exact hop .prErrRatelimited (fun _ => ⟨trivial, rfl⟩) (fun _ => hpower) hpower

/-- Every run of `perform_send` follows the automaton to a final phase. -/
theorem wp_performSend :
    (helper request pruss answer).wp (performSend request.clearOutputs) ⟨.idle, .never⟩
      (Outcome answer) := by
  have hbusy : (-eBusy : Int) < 0 := by decide
  refine Monitor.wp_op_bind fun locked _ => ⟨rfl, Monitor.wp_ite.mpr ⟨fun hlocked => ?_, fun hlocked => ?_⟩⟩
  · subst hlocked
    exact ⟨rfl, hbusy, rfl⟩
  obtain rfl : locked = true := by simpa using hlocked
  refine Monitor.wp_op_bind fun _ _ => ⟨trivial, Monitor.wp_bind.mpr ?_⟩
  refine Monitor.wp_mono (wp_preflight (r := { request.clearOutputs with stage := stageValidate }) rfl) ?_
  rintro s ⟨r, held, error⟩ ⟨⟨seen, rfl, hvalid⟩, hle, hcore⟩
  have hunsubmitted : r.submitted = 0 := by
    have hfield : r.core.submitted = request.clearOutputs.core.submitted := congrArg _ hcore
    exact hfield
  -- the two ways to the label `done`
  have hrefused (r : DldQuietSend) (error : Int) (hr : r.submitted = 0) (herror : error < 0) :
      (helper request pruss answer).wp (sendDone r held >>= fun _ => pure (r, error))
        ⟨.held seen, .never⟩ (Outcome answer) :=
    Monitor.wp_bind.mpr (wp_sendDone held rfl ⟨hr, herror, rfl⟩)
  refine Monitor.wp_ite.mpr ⟨fun h0 => ?_, fun h0 => ?_⟩
  · exact hrefused r error hunsubmitted (lt_of_le_of_ne hle h0)
  refine Monitor.wp_bind.mpr (Monitor.wp_mono (wp_sendFrame held.policy (hvalid (not_not.mp h0)) hcore) ?_)
  rintro s' ⟨r', error'⟩ (⟨rfl, hr', herror'⟩ | ⟨hr', ⟨rfl, herror', hanswered⟩ | ⟨c, rfl, hc, herror'⟩⟩)
  · exact hrefused r' error' hr' herror'
  · exact Monitor.wp_bind.mpr (wp_sendDone held rfl ⟨hr', herror', rfl, hanswered⟩)
  · exact Monitor.wp_bind.mpr (wp_sendDone held ⟨rfl, hc⟩ ⟨hr', herror', rfl⟩)

end Frame

end Dld
