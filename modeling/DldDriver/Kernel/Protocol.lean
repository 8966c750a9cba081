/-
DldDriver/Kernel/Protocol.lean

`perform_send` as the mailbox sees it: an automaton over its events.

A phase says how far a frame has come and which stores may come next; only
the words that matter in a phase are watched.  `waiting bs` is the wait for
the first bank of `bs`, and with `bs = []` the final wait; `matched` says
that the word a grant (or the end) depends on has been read since.

    helper request pruss answer

is the automaton as a monitor.  `pruss` is what the run relies on: that the
PRUSS clock always reads as functional; and `answer` is what the words of
the mailbox are promised to be once the frame is complete.  With `False`
and no promise the surroundings are arbitrary.
-/
import Mathlib.Data.List.Nodup
import DldDriver.Session
import DldDriver.Kernel.Discipline

namespace Dld

open Interaction

/-! ### The automaton -/

inductive KPhase
  /-- the mutex has not been taken -/
  | idle
  /-- the mutex is held; the words read since -/
  | held (seen : Off → Option Word)
  /-- `bank_grant` is stored, `wire_color` not yet -/
  | zeroed
  /-- `wire_color` is stored, `request_seq` not yet -/
  | coloured
  | waiting (banks : List Bank) (isMatched : Bool)
  | granted (b : Bank) (banks : List Bank)
  /-- `bank_done` did not read as the granted bank -/
  | missed
  /-- the final wait has matched -/
  | complete
  /-- the frame is given up; whether the magic is cleared -/
  | failed (isCleared : Bool)
  /-- the mutex has been released: not published, sent, or broken -/
  | refused
  | sent
  | broken

/-- How far `failed_frame_cleanup` has come: it runs at most once. -/
inductive Cleanup
  | never
  | running
  | over

structure KState where
  phase : KPhase
  cleanup : Cleanup

/-- The frame is published, and the mutex held. -/
def KPhase.published : KPhase → Bool
  | .waiting .. | .granted .. | .missed | .complete | .failed _ => true
  | _ => false

/-- The non-empty banks of the request, in pass order. -/
def banksOf (request : DldQuietSend) : List Bank :=
  Bank.pass.filter fun b => bankLength request b ≠ 0

/-- What `validate` concluded from the words it has read. -/
def Validated (request : DldQuietSend) (seen : Off → Option Word) : Prop :=
  ∃ m : DldCommand, (∀ off, off ≠ .wireColor → seen off = some (m off)) ∧
    ((validate request).exec (holding m)).2.2 = 0

variable (request : DldQuietSend)

/-- The phase after a read of a mailbox word. -/
def KPhase.read (p : KPhase) (off : Off) (v : Word) : KPhase :=
  match p, off with
  | .held seen, off => .held (Function.update seen off (some v))
  | .waiting (b :: bs) isMatched, .bankReady =>
    .waiting (b :: bs) (isMatched || decide (v = b.ordinal))
  | .waiting [] isMatched, .status => .waiting [] (isMatched || decide (v = statusDone))
  | .waiting [] true, .completionSeq =>
    if v = request.previousSeq + 1 then .complete else .waiting [] true
  | .granted b bs, .bankDone => if v = b.ordinal then .waiting bs false else .missed
  | p, _ => p

/-- The phase after a store to a mailbox word. -/
def KPhase.store (p : KPhase) (off : Off) : KPhase :=
  match p, off with
  | .held _, .bankGrant => .zeroed
  | .zeroed, .wireColor => .coloured
  | .coloured, .requestSeq => .waiting (banksOf request) false
  | .waiting (b :: bs) _, .bankGrant => .granted b bs
  | p, .magic => if p.published then .failed true else p
  | p, _ => p

/-- The phase after the entry to the cleanup. -/
def KPhase.giveUp : KPhase → KPhase
  | .failed isCleared => .failed isCleared
  | p => if p.published then .failed false else p

/-- The phase after the release of the mutex. -/
def KPhase.unlock : KPhase → KPhase
  | .held _ => .refused
  | .complete => .sent
  | .failed _ => .broken
  | p => p

/-- The state after an event. -/
def KState.next (s : KState) (e : KEvent) : KState :=
  match e with
  | ⟨.mutexTrylock, locked⟩ => if locked then { s with phase := .held fun _ => none } else s
  | ⟨.readl (.mailbox off), v⟩ => { s with phase := s.phase.read request off v }
  | ⟨.writel _ (.mailbox off), _⟩ => { s with phase := s.phase.store request off }
  | ⟨.enter .failedFrameCleanup, _⟩ => ⟨s.phase.giveUp, .running⟩
  | ⟨.leave .failedFrameCleanup _, _⟩ => { s with cleanup := .over }
  | ⟨.mutexUnlock, _⟩ => { s with phase := s.phase.unlock }
  | _ => s

/-- The stores to the mailbox that may happen in a phase. -/
def KPhase.mayStore (p : KPhase) (off : Off) (v : Word) : Prop :=
  match p, off with
  | .held seen, .bankGrant => v = 0 ∧ Validated request seen
  | .zeroed, .wireColor => v = wireColor request.profileId request.rgb
  | .coloured, .requestSeq => v = request.previousSeq + 1
  | .waiting (b :: _) true, .bankGrant => v = b.ordinal
  | p, .magic => v = 0 ∧ p.published = true
  | _, _ => False

/-- The events that may happen in a state. -/
def KState.may (pruss : Prop) (s : KState) (e : KEvent) : Prop :=
  match e with
  | ⟨.mutexTrylock, _⟩ => s.phase = .idle
  | ⟨.writel v (.mailbox off), _⟩ => s.phase.mayStore request off v
  | ⟨.writel _ _, _⟩ => s.phase.published = true
  | ⟨.enter .failedFrameCleanup, _⟩ => s.phase.published = true ∧ s.cleanup = .never
  | ⟨.leave .failedFrameCleanup result, _⟩ => result = 0 ∧ s.cleanup = .running
  | ⟨.mutexUnlock, _⟩ =>
    match s.phase with
    | .held _ | .complete => s.cleanup = .never
    | .failed isCleared => s.cleanup = .over ∧ (pruss → isCleared = true)
    | _ => False
  | ⟨.copyFromUser, _⟩ | ⟨.copyToUser _, _⟩ => False
  | _ => True

/-- The automaton as a monitor. -/
def helper (pruss : Prop) (answer : Off → Word → Prop) : Monitor KOp KOp.Res KState where
  env s e := match e with
    | ⟨.readl (.clocks c), v⟩ => pruss → c = prussClock → Functional v
    | ⟨.readl (.mailbox off), v⟩ => s.phase = .complete → answer off v
    | _ => True
  safe := KState.may request pruss
  next := KState.next request

/-- The words of the snapshot are as promised. -/
structure Answered (answer : Off → Word → Prop) (r : DldQuietSend) : Prop where
  requestSeq : answer .requestSeq r.requestSeq
  completionSeq : answer .completionSeq r.completionSeq
  status : answer .status r.status
  errorDetail : answer .errorDetail r.errorDetail
  acceptedSeq : answer .acceptedSeq r.acceptedSeq
  bankReady : answer .bankReady r.bankReady
  bankGrant : answer .bankGrant r.bankGrant
  bankDone : answer .bankDone r.bankDone

/-- What `perform_send` returns in each of its final phases. -/
def Outcome (answer : Off → Word → Prop) (s : KState) (a : DldQuietSend × Int) : Prop :=
  match s.phase with
  | .idle | .refused => a.1.submitted = 0 ∧ a.2 < 0 ∧ s.cleanup = .never
  | .sent => a.1.submitted = 1 ∧ a.2 = 0 ∧ s.cleanup = .never ∧ Answered answer a.1
  | .broken => a.1.submitted = 1 ∧ a.2 ≠ 0 ∧ s.cleanup = .over
  | _ => False

/-! ### What the automaton ignores -/

/-- Reads outside the mailbox. -/
def looking : Access :=
  { reads := (Reg.isMailbox · = false), masks := True, calls := (· ≠ .failedFrameCleanup) }

/-- Reads and stores outside the mailbox. -/
def aside : Access :=
  { reads := (Reg.isMailbox · = false)
    writes := (Reg.isMailbox · = false)
    masks := True
    calls := (· ≠ .failedFrameCleanup) }

section Rules

variable {request : DldQuietSend} {pruss : Prop} {answer : Off → Word → Prop} {s : KState}
variable {α : Type} {p : KProg α} {Q : KState → α → Prop}

theorem helper_aside {e : KEvent} (he : aside.allows e) (hs : s.phase.published = true) :
    (helper request pruss answer).safe s e ∧ (helper request pruss answer).next s e = s := by
  obtain ⟨op, v⟩ := e
  cases op with
  | readl r =>
    cases r with
    | mailbox => cases he
    | _ => exact ⟨trivial, rfl⟩
  | writel w r =>
    cases r with
    | mailbox => cases he
    | _ => exact ⟨hs, rfl⟩
  | enter f | leave f =>
    cases f with
    | failedFrameCleanup => exact absurd rfl he
    | _ => exact ⟨trivial, rfl⟩
  | mutexTrylock | mutexUnlock | copyFromUser | copyToUser => exact he.elim
  | _ => exact ⟨trivial, rfl⟩

theorem helper_looking {e : KEvent} (he : looking.allows e) :
    (helper request pruss answer).safe s e ∧ (helper request pruss answer).next s e = s := by
  obtain ⟨op, v⟩ := e
  cases op with
  | readl r =>
    cases r with
    | mailbox => cases he
    | _ => exact ⟨trivial, rfl⟩
  | writel => exact he.elim
  | enter f | leave f =>
    cases f with
    | failedFrameCleanup => exact absurd rfl he
    | _ => exact ⟨trivial, rfl⟩
  | mutexTrylock | mutexUnlock | copyFromUser | copyToUser => exact he.elim
  | _ => exact ⟨trivial, rfl⟩

/-- A program the automaton ignores, with what its complete runs satisfy. -/
theorem wp_looking {R : List KEvent → α → Prop} (hp : p.Emits looking.allows) (hR : p.All R)
    (hQ : ∀ t a, R t a → Q s a) : (helper request pruss answer).wp p s Q := by
  have hinv : (helper request pruss answer).wp p s fun s' _ => s' = s := by
    refine Monitor.wp_invariant hp rfl ?_
    rintro s' e he rfl -
    exact helper_looking he
  refine Monitor.wp_mono (Monitor.wp_all hinv hR) ?_
  rintro s' a ⟨rfl, t, -, ht⟩
  exact hQ t a ht

theorem wp_looking' (hp : p.Emits looking.allows) (hQ : ∀ a, Q s a) :
    (helper request pruss answer).wp p s Q :=
  wp_looking hp (Prog.all_of_forall fun _ _ => trivial) fun _ a (_ : True) => hQ a

/-- The same in a published frame, where devices may be written. -/
theorem wp_aside {R : List KEvent → α → Prop} (hs : s.phase.published = true)
    (hp : p.Emits aside.allows) (hR : p.All R) (hQ : ∀ t a, R t a → Q s a) :
    (helper request pruss answer).wp p s Q := by
  have hinv : (helper request pruss answer).wp p s fun s' _ => s' = s := by
    refine Monitor.wp_invariant hp rfl ?_
    rintro s' e he rfl -
    exact helper_aside he hs
  refine Monitor.wp_mono (Monitor.wp_all hinv hR) ?_
  rintro s' a ⟨rfl, t, -, ht⟩
  exact hQ t a ht

/-- The clock of PRUSS, as the run relies on it. -/
theorem wp_pruss {Q : KState → Bool → Prop} (hQ : ∀ ok, (pruss → ok = true) → Q s ok) :
    (helper request pruss answer).wp mailboxFunctional s Q := by
  refine Monitor.wp_op_bind fun clock hclock => ⟨trivial, hQ _ fun hpruss => ?_⟩
  exact decide_eq_true (hclock hpruss rfl)

theorem wp_mask {Q : KState → Word → Prop} (hQ : ∀ flags, Q s flags) :
    (helper request pruss answer).wp maskCpu s Q :=
  wp_looking' (emits_maskCpu trivial) hQ

theorem wp_unmask {flags : Word} {Q : KState → Unit → Prop} (hQ : Q s ()) :
    (helper request pruss answer).wp (unmaskCpu flags) s Q :=
  wp_looking' (emits_unmaskCpu trivial flags) fun _ => hQ

end Rules

/-! ### validate -/

/-- The words of a snapshot, in order. -/
def snapshotWords : List Off :=
  [.requestSeq, .completionSeq, .status, .errorDetail, .acceptedSeq, .bankReady, .bankGrant,
    .bankDone]

/-- The words `validate` reads, in order. -/
def checkedWords : List Off :=
  .magic :: .abiVersion :: .profileId :: ((List.finRange 6).map .lengths ++ snapshotWords)

/-- The read of a mailbox word. -/
abbrev readOf (off : Off) : KOp := .readl (.mailbox off)

theorem lengthsMatch_ops (r : DldQuietSend) (is : List (Fin 6)) :
    (lengthsMatch r is).All fun t same =>
      t.map Sigma.fst <+: is.map (readOf ∘ Off.lengths) ∧
        (same = true → t.map Sigma.fst = is.map (readOf ∘ Off.lengths)) := by
  induction is with
  | nil => exact ⟨List.nil_prefix, fun _ => rfl⟩
  | cons i rest ih =>
    refine Prog.all_op_bind.mpr fun v => Prog.all_ite.mpr ⟨fun _ => ?_, fun _ => ?_⟩
    · exact ⟨List.cons_prefix_cons.mpr ⟨rfl, List.nil_prefix⟩, fun h => nomatch h⟩
    · refine Prog.all_mono ih fun t same ht => ⟨?_, fun hsame => ?_⟩
      · exact List.cons_prefix_cons.mpr ⟨rfl, ht.1⟩
      · exact congrArg (List.cons _) (ht.2 hsame)

/-- `validate` reads each word at most once, and all of them if it accepts. -/
theorem validate_ops (r : DldQuietSend) :
    (validate r).All fun t a => t.map Sigma.fst <+: checkedWords.map readOf ∧
      (a.2 = 0 → t.map Sigma.fst = checkedWords.map readOf) ∧ a.2 ≤ 0 := by
  have hinval : (-eInval : Int) ≠ 0 ∧ (-eInval : Int) ≤ 0 := by decide
  have hproto : (-eProto : Int) ≠ 0 ∧ (-eProto : Int) ≤ 0 := by decide
  have hle (r : DldQuietSend) : validateSnapshot r ≤ 0 := by
    unfold validateSnapshot
    split_ifs <;> decide
  refine Prog.all_ite.mpr ⟨fun _ => ⟨List.nil_prefix, fun h => absurd h hinval.1, hinval.2⟩, fun _ => ?_⟩
  refine Prog.all_ite.mpr ⟨fun _ => ⟨List.nil_prefix, fun h => absurd h hinval.1, hinval.2⟩, fun _ => ?_⟩
  refine Prog.all_op_bind.mpr fun magic => Prog.all_ite.mpr ⟨fun _ => ?_, fun _ => ?_⟩
  · exact ⟨⟨_, rfl⟩, fun h => absurd h hproto.1, hproto.2⟩
  refine Prog.all_op_bind.mpr fun abi => Prog.all_ite.mpr ⟨fun _ => ?_, fun _ => ?_⟩
  · exact ⟨⟨_, rfl⟩, fun h => absurd h hproto.1, hproto.2⟩
  refine Prog.all_op_bind.mpr fun profile => Prog.all_ite.mpr ⟨fun _ => ?_, fun _ => ?_⟩
  · exact ⟨⟨_, rfl⟩, fun h => absurd h hproto.1, hproto.2⟩
  refine Prog.all_bind.mpr (Prog.all_mono (lengthsMatch_ops r _) fun t same ht => ?_)
  have hwords : checkedWords.map readOf = readOf .magic :: readOf .abiVersion ::
      readOf .profileId :: ((List.finRange 6).map (readOf ∘ Off.lengths) ++
        snapshotWords.map readOf) := by
    simp [checkedWords]
  refine Prog.all_ite.mpr ⟨fun _ => ?_, fun hsame => ?_⟩
  · refine ⟨?_, fun h => absurd h hproto.1, hproto.2⟩
    rw [hwords, List.append_nil]
    refine List.prefix_cons_inj _ |>.mpr (List.prefix_cons_inj _ |>.mpr ?_)
    exact List.prefix_cons_inj _ |>.mpr (ht.1.trans (List.prefix_append _ _))
  · -- the snapshot is taken
    have hall : (snapshot r).All fun t' _ => t'.map Sigma.fst = snapshotWords.map readOf := by
      unfold snapshot readl kop
      simp only [Prog.all_op_bind, Prog.all_pure]
      exact fun _ _ _ _ _ _ _ _ => rfl
    refine Prog.all_bind.mpr (Prog.all_mono hall fun t' r' ht' => ?_)
    have hops : (⟨readOf .magic, magic⟩ :: ⟨readOf .abiVersion, abi⟩ ::
        ⟨readOf .profileId, profile⟩ :: (t ++ t') : List KEvent).map Sigma.fst =
          checkedWords.map readOf := by
      rw [hwords, ← ht.2 (by simpa using hsame), ← ht']
      simp
    refine ⟨?_, fun _ => ?_, hle r'⟩
    · rw [← hops]
      simp
    · rw [← hops]
      simp

/-- Reads of distinct words, each remembered. -/
theorem run_reads {request : DldQuietSend} {pruss : Prop} {answer : Off → Word → Prop}
    {c : Cleanup} {t : List KEvent} {ws : List Off} (ht : t.map Sigma.fst <+: ws.map readOf)
    (hws : ws.Nodup) (seen : Off → Option Word) :
    ∃ seen', (helper request pruss answer).run ⟨.held seen, c⟩ t = ⟨.held seen', c⟩ ∧
      (∀ off, readOf off ∉ t.map Sigma.fst → seen' off = seen off) ∧
      ∀ off v, (⟨readOf off, v⟩ : KEvent) ∈ t → seen' off = some v := by
  induction t generalizing ws seen with
  | nil => exact ⟨seen, rfl, fun _ _ => rfl, by simp⟩
  | cons e t ih =>
    obtain ⟨op, v⟩ := e
    cases ws with
    | nil => exact absurd (List.prefix_nil.mp ht) (by simp)
    | cons w ws =>
      obtain ⟨hop, ht'⟩ := List.cons_prefix_cons.mp ht
      obtain rfl : op = readOf w := hop
      clear ht
      obtain ⟨hw, hws⟩ := List.nodup_cons.mp hws
      obtain ⟨seen', hrun, hkeep, hread⟩ := ih ht' hws (Function.update seen w (some v))
      have hfresh : readOf w ∉ t.map Sigma.fst := by
        intro hmem
        obtain ⟨w', hw', heq⟩ := List.mem_map.mp (ht'.subset hmem)
        obtain rfl : w' = w := by simpa [readOf] using heq
        exact hw hw'
      refine ⟨seen', hrun, fun off hoff => ?_, fun off u hu => ?_⟩
      · rw [List.map_cons, List.mem_cons, not_or] at hoff
        rw [hkeep off hoff.2, Function.update_of_ne]
        rintro rfl
        exact hoff.1 rfl
      · rcases List.mem_cons.mp hu with heq | hu
        · cases heq
          rw [hkeep _ hfresh, Function.update_self]
        · exact hread off u hu

section Preflight

variable {request r : DldQuietSend} {pruss : Prop} {answer : Off → Word → Prop}

/-- `validate` depends on the input fields only. -/
theorem validate_congr {m : DldCommand} (h : r.core = request.clearOutputs.core) :
    ((validate r).exec (holding m)).2.2 = 0 ↔ ((validate request).exec (holding m)).2.2 = 0 := by
  have hfield {β : Type} (f : DldQuietSend → β) : f r.core = f request.clearOutputs.core :=
    congrArg f h
  have hiff : RequestFor r m ↔ RequestFor request m := by
    constructor
    · intro hr
      exact ⟨(hfield (·.apiVersion)).symm.trans hr.api, (hfield (·.rgb)) ▸ hr.rgb,
        (hfield (·.reserved)) ▸ hr.reserved, (hfield (·.profileId)) ▸ hr.profile,
        (hfield (·.stringLengths)) ▸ hr.lengths⟩
    · intro hr
      exact ⟨(hfield (·.apiVersion)).trans hr.api, (hfield (·.rgb)).symm ▸ hr.rgb,
        (hfield (·.reserved)).symm ▸ hr.reserved, (hfield (·.profileId)).symm ▸ hr.profile,
        (hfield (·.stringLengths)).symm ▸ hr.lengths⟩
  have hprevious : r.previousSeq = request.previousSeq := hfield (·.previousSeq)
  rw [validate_zero_iff, validate_zero_iff, hiff, hprevious]

/-- The reads of `validate`, and what its acceptance means. -/
theorem wp_validate (hr : r.core = request.clearOutputs.core) {c : Cleanup} :
    (helper request pruss answer).wp (validate r) ⟨.held fun _ => none, c⟩ fun s a =>
      (∃ seen, s = ⟨.held seen, c⟩ ∧ (a.2 = 0 → Validated request seen)) ∧ a.2 ≤ 0 ∧
        Kept r a.1 := by
  have hsafe : (helper request pruss answer).wp (validate r) ⟨.held fun _ => none, c⟩
      fun _ _ => True := by
    refine Monitor.wp_mono (Monitor.wp_invariant (I := fun s => ∃ seen, s = ⟨.held seen, c⟩)
      (emits_validate (a := { reads := (Reg.isMailbox · = true) }) (fun _ => rfl) r)
      ⟨_, rfl⟩ ?_) fun _ _ _ => trivial
    rintro _ ⟨op, v⟩ he ⟨seen, rfl⟩ -
    cases op with
    | readl reg =>
      cases reg with
      | mailbox off => exact ⟨trivial, _, rfl⟩
      | _ => cases he
    | writel | enter | leave | mutexTrylock | mutexUnlock | copyFromUser | copyToUser => exact he.elim
    | _ => exact ⟨trivial, _, rfl⟩
  have hnodup : checkedWords.Nodup := by decide
  have hall := Prog.all_and (Prog.all_and (validate_ops r) (validate_kept r))
    (Prog.all_iff.mpr fun t a (h : (validate r).Runs t a) => h)
  refine Monitor.wp_mono (Monitor.wp_all hsafe hall) ?_
  rintro s a ⟨-, t, rfl, ⟨⟨hhead, hfull, hle⟩, hkept⟩, hrun⟩
  obtain ⟨seen, hstate, -, hread⟩ := run_reads hhead hnodup fun _ => none
  refine ⟨⟨seen, hstate, fun h0 => ?_⟩, hle, hkept⟩
  -- the words read are those of one mailbox
  have hops := hfull h0
  have hmem {off : Off} (hoff : off ∈ checkedWords) :
      ∃ v : Word, (⟨readOf off, v⟩ : KEvent) ∈ t := by
    have hin : readOf off ∈ t.map Sigma.fst := hops ▸ List.mem_map_of_mem hoff
    obtain ⟨⟨op, v⟩, he, hop⟩ := List.mem_map.mp hin
    obtain rfl : op = readOf off := hop
    exact ⟨v, he⟩
  have hanswers : ∀ e ∈ t, e.2 = holding (fun off => (seen off).getD 0) e.1 := by
    rintro ⟨op, v⟩ he
    have hop : op ∈ checkedWords.map readOf := hops ▸ List.mem_map_of_mem (f := Sigma.fst) he
    obtain ⟨off, -, rfl⟩ := List.mem_map.mp hop
    show v = (seen off).getD 0
    rw [hread off v he]
    rfl
  refine ⟨fun off => (seen off).getD 0, fun off hoff => ?_, ?_⟩
  · have hchecked : off ∈ checkedWords := by
      cases off <;> first | exact absurd rfl hoff | simp [checkedWords, snapshotWords]
    obtain ⟨v, hv⟩ := hmem hchecked
    simp [hread off v hv]
  · rw [← validate_congr hr, hrun.eq_exec _ hanswers]
    exact h0

/-- The checks return zero or a negative error. -/
theorem waitOtherDma_le (r : DldQuietSend) : (waitOtherDma r).All fun _ a => a.2 ≤ 0 := by
  have hattempt (r : DldQuietSend) : (otherDmaAttempt r).All fun _ a => a.2.1 ≤ 0 := by
    have hidle : (otherDmaIdle r).All fun _ a => a.2 ≤ 0 := by
      refine Prog.all_bind.mpr (Prog.all_of_forall fun _ blocked => ?_)
      cases blocked with
      | none => exact Int.le_refl 0
      | some block => exact show (-eAgain : Int) ≤ 0 by decide
    refine Prog.all_bind.mpr (Prog.all_of_forall fun _ flags => Prog.all_bind.mpr ?_)
    refine Prog.all_mono hidle fun _ a ha => Prog.all_bind.mpr ?_
    exact Prog.all_of_forall fun _ _ => ha
  have htimedout : (-eTimedout : Int) ≤ 0 := by decide
  have hloop (deadline : Int) (n : Nat) (r : DldQuietSend) :
      (admissionLoop ktimeGet otherDmaAttempt usleepRange true deadline n r).All fun _ a =>
        a.2 ≤ 0 := by
    induction n generalizing r with
    | zero => exact htimedout
    | succ n ih =>
      refine Prog.all_op_bind.mpr fun now => Prog.all_ite.mpr ⟨fun _ => htimedout, fun _ => ?_⟩
      refine Prog.all_bind.mpr (Prog.all_mono (hattempt r) fun _ a ha => ?_)
      refine Prog.all_ite.mpr ⟨fun _ => Prog.all_op_bind.mpr fun _ => ih _, fun _ => ?_⟩
      refine Prog.all_ite.mpr ⟨fun _ => Prog.all_op_bind.mpr fun _ => ?_, fun _ => ha⟩
      exact Prog.all_ite.mpr ⟨fun _ => htimedout, fun _ => ha⟩
  exact Prog.all_op_bind.mpr fun now => hloop _ _ r

theorem acquireSystem_le (r : DldQuietSend) (held : Held) :
    (acquireSystem r held).All fun _ a => a.2.2 ≤ 0 := by
  have hbudgets (r : DldQuietSend) (banks : List Bank) : (setBudgets r banks).2 ≤ 0 := by
    induction banks generalizing r with
    | nil => exact Int.le_refl 0
    | cons bank rest ih =>
      simp only [setBudgets]
      split <;> split <;> first | exact ih _ | exact show (-eRange : Int) ≤ 0 by decide
  have hbusy : (-eBusy : Int) ≤ 0 := by decide
  have hnodev : (-eNodev : Int) ≤ 0 := by decide
  have hintr : (-eIntr : Int) ≤ 0 := by decide
  unfold acquireSystem kop
  simp only [Prog.all_bind, Prog.all_op, Prog.all_ite, Prog.all_pure]
  refine fun rtnl => ⟨fun _ => hbusy, fun _ => Prog.all_of_forall fun _ net => ?_⟩
  refine ⟨fun _ => hnodev, fun _ power => ⟨fun h => Int.le_of_lt h, fun _ => ?_⟩⟩
  refine Prog.all_mono (waitOtherDma_le r) fun _ a ha => ?_
  exact ⟨fun _ => ha, fun _ pending => ⟨fun _ => hintr, fun _ => hbudgets a.1 _⟩⟩

/-- Before the publication the automaton holds the mutex, and has validated
the mailbox if nothing failed. -/
def Ready (request : DldQuietSend) (s : KState) (a : DldQuietSend × Held × Int) : Prop :=
  (∃ seen, s = ⟨.held seen, .never⟩ ∧ (a.2.2 = 0 → Validated request seen)) ∧ a.2.2 ≤ 0 ∧
    a.1.core = request.clearOutputs.core

theorem wp_checkPlatform (hr : r.core = request.clearOutputs.core) :
    (helper request pruss answer).wp (checkPlatform r) ⟨.held fun _ => none, .never⟩
      (Ready request) := by
  have hrange : (-eRange : Int) ≠ 0 ∧ (-eRange : Int) ≤ 0 := by decide
  have hnodev : (-eNodev : Int) ≠ 0 ∧ (-eNodev : Int) ≤ 0 := by decide
  have hfail (r : DldQuietSend) (held : Held) {error : Int} (herror : error ≠ 0 ∧ error ≤ 0)
      (hr : r.core = request.clearOutputs.core) :
      Ready request ⟨.held fun _ => none, .never⟩ (r, held, error) :=
    ⟨⟨_, rfl, fun h0 => absurd h0 herror.1⟩, herror.2, hr⟩
  refine Monitor.wp_op_bind fun online _ => ⟨trivial, Monitor.wp_ite.mpr
    ⟨fun _ => hfail _ _ hnodev hr, fun _ => ?_⟩⟩
  refine Monitor.wp_op_bind fun cpu0 _ => ⟨trivial, Monitor.wp_ite.mpr
    ⟨fun _ => hfail _ _ hnodev hr, fun _ => ?_⟩⟩
  refine Monitor.wp_op_bind fun policy _ => ⟨trivial, ?_⟩
  refine Monitor.wp_bind.mpr (wp_looking' (emits_fixedCpu policy) fun fixed => Monitor.wp_ite.mpr
    ⟨fun _ => hfail _ _ hrange hr, fun _ => ?_⟩)
  refine Monitor.wp_op_bind fun _ _ => ⟨trivial, ?_⟩
  refine Monitor.wp_bind.mpr (wp_looking' emits_pmuReady fun ready => ?_)
  refine Monitor.wp_op_bind fun _ _ => ⟨trivial, Monitor.wp_ite.mpr
    ⟨fun _ => hfail _ _ hnodev hr, fun _ => ?_⟩⟩
  refine Monitor.wp_bind.mpr (wp_mask fun flags => Monitor.wp_bind.mpr (wp_pruss fun ok _ => ?_))
  refine Monitor.wp_ite.mpr ⟨fun _ => Monitor.wp_bind.mpr ?_, fun _ => ?_⟩
  · refine Monitor.wp_mono (wp_validate (r := { r with cpuKhz := requiredCpuKhz, stage := stageValidate })
      hr) ?_
    rintro s ⟨r', error⟩ ⟨hheld, hle, hkept⟩
    exact Monitor.wp_bind.mpr (wp_unmask ⟨hheld, hle, hkept.1.trans hr⟩)
  · exact Monitor.wp_bind.mpr (Monitor.wp_bind.mpr (wp_unmask (hfail _ _ hnodev hr)))

theorem wp_preflight (hr : r.core = request.clearOutputs.core) :
    (helper request pruss answer).wp (preflight r) ⟨.held fun _ => none, .never⟩
      (Ready request) := by
  refine Monitor.wp_bind.mpr (Monitor.wp_mono (wp_checkPlatform hr) ?_)
  rintro s ⟨r', held, error⟩ ⟨⟨seen, rfl, hvalid⟩, hle, hr'⟩
  refine Monitor.wp_ite.mpr ⟨fun _ => ⟨⟨seen, rfl, hvalid⟩, hle, hr'⟩, fun h0 => ?_⟩
  have hvalid : Validated request seen := hvalid (not_not.mp h0)
  refine wp_looking (emits_acquireSystem trivial (fun _ => rfl) (fun _ _ => rfl) r' held)
    (Prog.all_and (acquireSystem_kept r' held) (acquireSystem_le r' held)) ?_
  rintro t a ⟨hkept, hle⟩
  exact ⟨⟨seen, rfl, fun _ => hvalid⟩, hle, hkept.1.trans hr'⟩

end Preflight

end Dld
