/-
DldDriver/System/Completion.lean

The two verdicts on a frame.  `perform_send` returns zero on four reads of
its final wait; `dld_sender_send` judges the snapshot taken after them.  The
verdicts agree unless no string is configured and the session shows the
DONE of the frame before: then the final wait can take that DONE for the
frame's own, and return while the firmware is still storing.
-/
import DldDriver.System.Delivery
import DldDriver.Userspace.Context

namespace Dld

open Interaction

section Agreement

variable {request : DldQuietSend} {l : Fin 6 → Word} {m₀ : DldCommand} {a : DldQuietSend × Int}

theorem Answered.final {r : DldQuietSend} (h : Answered (FinalIfFresh request l m₀) r)
    (hfresh : Fresh l m₀) : Answered (Final request l) r where
  requestSeq := h.requestSeq hfresh
  completionSeq := h.completionSeq hfresh
  status := h.status hfresh
  errorDetail := h.errorDetail hfresh
  acceptedSeq := h.acceptedSeq hfresh
  bankReady := h.bankReady hfresh
  bankGrant := h.bankGrant hfresh
  bankDone := h.bankDone hfresh

/-- The result that `quiet_ioctl` copies out is a success to its caller. -/
theorem Answered.accepted (h : Answered (Final request l) a.1) (hsubmitted : a.1.submitted = 1)
    (hzero : a.2 = 0) : Accepted request { a.1 with result := a.2 } := by
  refine ⟨hzero, ?_, h.requestSeq, h.status, h.errorDetail, h.completionSeq⟩
  show a.1.submitted ≠ 0
  rw [hsubmitted]
  decide

/-- A send that was answered with a success, saw no cancellation and has
released the lock is not uncertain. -/
theorem Proc.succeeded_of_accepted {s : Proc} {reply : DldQuietSend}
    (hasked : s.asked = some (request, .ok reply)) (haccepted : Accepted request reply)
    (hcancel : s.cancelSeen = false) (hunlocked : s.unlocked = true) :
    s.Succeeded ∧ ¬ s.Uncertain := by
  refine ⟨⟨⟨request, reply, hasked, haccepted⟩, hcancel, hunlocked⟩, ?_⟩
  rintro (⟨request', errno, h, -⟩ | ⟨request', reply', h, -, hnot⟩)
  · rw [hasked] at h
    cases h
  · rw [hasked] at h
    cases h
    exact hnot ⟨haccepted, hcancel⟩

end Agreement

/-! ### A send of userspace -/

deriving instance DecidableEq for DldQuietSend

/-- A system in the session of the mailbox `m` that grants everything and
answers the ioctl with `reply`. -/
def answering (m : DldCommand) (reply : DldQuietSend) (next : Nat) (o : UOp) :
    Option (o.Res × Nat) :=
  match o with
  | .load (.command off) => some (m off, next)
  | .ioctl .. => some (.ok reply, next)
  | o => healthy next o

/-- What `quiet_ioctl` copies out after `oneBankSend`. -/
def oneBankReply : DldQuietSend := { oneBankSend.2.1 with result := oneBankSend.2.2 }

/-- A context is opened and sends the colour of `oneBankRequest`. -/
def oneBankCalls : UProg DldSender :=
  senderCalls 2 [.opening "" 160, .sending 0x102030 true "" 160] {}

/-- The last event is the return of `dld_sender_send`. -/
def endsWithSend (t : List UEvent) : Bool :=
  match t.getLast? with
  | some ⟨.leave .senderSend _, _⟩ => true
  | _ => false

theorem exists_of_endsWithSend {t : List UEvent} (h : endsWithSend t = true) :
    ∃ code, t = t.dropLast ++ [⟨.leave .senderSend code, ()⟩] := by
  unfold endsWithSend at h
  split at h
  · rename_i code _ hlast
    exact ⟨code, (List.dropLast_append_getLast? _ hlast).symm⟩
  · cases h

/-- The request is that of the session, and the answer that of the helper. -/
abbrev asksOneBank (asked : Option (DldQuietSend × Except Int DldQuietSend)) : Prop :=
  ∃ x ∈ asked, { x.1 with stringLengths := oneBankRequest.stringLengths } = oneBankRequest ∧
    (∀ i, x.1.stringLengths i = oneBankRequest.stringLengths i) ∧ x.2 = .ok oneBankReply

theorem eq_of_asksOneBank {asked : Option (DldQuietSend × Except Int DldQuietSend)}
    (h : asksOneBank asked) : asked = some (oneBankRequest, .ok oneBankReply) := by
  obtain ⟨⟨request, answer⟩, rfl, hrequest, hlengths, rfl⟩ := h
  have hlengths : request.stringLengths = oneBankRequest.stringLengths := funext hlengths
  rw [← hlengths] at hrequest
  rw [← hrequest]

theorem oneBankCalls_run : ∃ before code sender,
    oneBankCalls.Runs (before ++ [⟨.leave .senderSend code, ()⟩]) sender ∧
      lifecycle.EnvAlong (Proc.start fun _ => false) (before ++ [⟨.leave .senderSend code, ()⟩]) ∧
      (lifecycle.run (Proc.start fun _ => false) before).asked =
        some (oneBankRequest, .ok oneBankReply) ∧
      (lifecycle.run (Proc.start fun _ => false) before).cancelSeen = false ∧
      (lifecycle.run (Proc.start fun _ => false) before).unlocked = true := by
  have hrun : ∃ r, oneBankCalls.tryExec (answering oneBankBoard.mailbox oneBankReply) 3 = some r :=
    Option.isSome_iff_exists.mp (by decide +kernel)
  have hfacts : ∀ r ∈ oneBankCalls.tryExec (answering oneBankBoard.mailbox oneBankReply) 3,
      endsWithSend r.1 = true ∧ lifecycle.EnvAlong (Proc.start fun _ => false) r.1 ∧
      asksOneBank (lifecycle.run (Proc.start fun _ => false) r.1.dropLast).asked ∧
      (lifecycle.run (Proc.start fun _ => false) r.1.dropLast).cancelSeen = false ∧
      (lifecycle.run (Proc.start fun _ => false) r.1.dropLast).unlocked = true := by
    decide +kernel
  obtain ⟨⟨t, sender⟩, hrun⟩ := hrun
  obtain ⟨hends, hnew, hasked, hcancel, hunlocked⟩ := hfacts _ hrun
  obtain ⟨code, ht : t = _⟩ := exists_of_endsWithSend hends
  have hruns : oneBankCalls.Runs t sender := Prog.tryExec_runs hrun
  refine ⟨t.dropLast, code, sender, ?_, ?_, eq_of_asksOneBank hasked, hcancel, hunlocked⟩
  · rwa [← ht]
  · rwa [← ht]

/-! ### The theorem -/

/-- **The verdicts agree.**  Where a string is configured or the session is
READY, a `perform_send` that returns zero hands out the words of the
completed frame; and in the life of any sender context, a send whose ioctl
got this answer, that was not cancelled and has released the lock, returns
`DLD_OK` and has run no cleanup. -/
theorem success_agrees (request : DldQuietSend) (tm : Pru.Timing) (m₀ : DldCommand) (r : Pru.Regs)
    (pruss : Prop) (t : List (BoardAct Unit)) (w : BoardState Unit) (a : DldQuietSend × Int)
    (hvalid : ((validate request).exec (holding m₀)).2.2 = 0)
    (hready : Pru.Ready tm (fun i => m₀ (.lengths i)) r) (hseq : r.r3 = m₀ .requestSeq)
    (hfresh : Fresh (fun i => m₀ (.lengths i)) m₀)
    (hrun : (board Unit tm pruss).Run
      (callers (fun _ => request) m₀ (Pru.code tm (.requestLoop, r))) t w)
    (hreturned : w.clients () = .ret a) (hzero : a.2 = 0) :
    Answered (Final request fun i => m₀ (.lengths i)) a.1 ∧
    ∀ fuel calls held before code after (rest : UProg DldSender),
      (senderCalls fuel calls {}).Steps (before ++ ⟨.leave .senderSend code, ()⟩ :: after) rest →
      lifecycle.EnvAlong (Proc.start held) (before ++ ⟨.leave .senderSend code, ()⟩ :: after) →
      (lifecycle.run (Proc.start held) before).asked =
        some (request, .ok { a.1 with result := a.2 }) →
      (lifecycle.run (Proc.start held) before).cancelSeen = false →
      (lifecycle.run (Proc.start held) before).unlocked = true →
      code = .ok ∧ (lifecycle.run (Proc.start held) before).cleanedNow = false := by
  have hend := Proofs.Good.run (handshake_upholds (frame_of_validate hvalid))
    (underway_frame pruss hvalid hready hseq 0) hrun
  have hwp := hend.client ()
  rw [hreturned] at hwp
  obtain ⟨-, hsubmitted, hanswered⟩ := Outcome.sent hwp hzero
  have hfinal := hanswered.final hfresh
  refine ⟨hfinal, ?_⟩
  intro fuel calls held before code after rest hsteps hnew hasked hcancel hunlocked
  have hcalls : lifecycle.wp (senderCalls fuel calls {}) (Proc.start held) _ :=
    wp_senderCalls (Resting.closed (s := Proc.start held) rfl)
  obtain ⟨-, hok, hcleaned⟩ := (Monitor.wp_steps hcalls hsteps hnew).1.at
  obtain ⟨hsucceeded, hcertain⟩ :=
    Proc.succeeded_of_accepted hasked (hfinal.accepted hsubmitted hzero) hcancel hunlocked
  exact ⟨hok.mpr hsucceeded, Bool.eq_false_iff.mpr fun h => hcertain (hcleaned.mp h)⟩

theorem success_agrees_oneBank :
    ∃ (t : List (BoardAct Unit)) (w : BoardState Unit),
      (board Unit Pru.profileTiming True).Run
        (callers (fun _ => oneBankRequest) oneBankBoard.mailbox
          (Pru.code Pru.profileTiming (.requestLoop, oneBankRegs))) t w ∧
      w.clients () = .ret oneBankSend.2 ∧
      Answered (Final oneBankRequest fun i => oneBankBoard.mailbox (.lengths i)) oneBankSend.2.1 ∧
      ∃ before code sender, oneBankCalls.Runs (before ++ [⟨.leave .senderSend code, ()⟩]) sender ∧
        code = .ok ∧ (lifecycle.run (Proc.start fun _ => false) before).cleanedNow = false := by
  obtain ⟨t, w, hrun, hreturned⟩ := oneBank_run True
  obtain ⟨hanswered, hverdict⟩ := success_agrees oneBankRequest Pru.profileTiming
    oneBankBoard.mailbox oneBankRegs True t w oneBankSend.2 (by decide +kernel) oneBank_ready rfl
    (.inr rfl) hrun hreturned (by decide +kernel)
  obtain ⟨before, code, sender, hruns, hnew, hasked, hcancel, hunlocked⟩ := oneBankCalls_run
  exact ⟨t, w, hrun, hreturned, hanswered, before, code, sender, hruns,
    hverdict 2 _ _ before code [] _ hruns.steps hnew hasked hcancel hunlocked⟩

/-! ### The DONE of the frame before -/

/-- A request in a session without strings. -/
def darkRequest : DldQuietSend :=
  { (default : DldQuietSend) with
    apiVersion := quietApiVersion
    rgb := 0x102030
    profileId := profileWs2812b
    previousSeq := 1 }

/-- The board after the first frame of that session. -/
def darkBoard : Board where
  mailbox
    | .status => statusDone
    | .requestSeq | .acceptedSeq | .completionSeq => 1
    | off => startedMailbox profileWs2812b (fun _ => 0) off

/-- The registers of its firmware. -/
def darkRegs : Pru.Regs :=
  { (default : Pru.Regs).load Pru.profileTiming with r3 := 1, r5 := 40000 }

theorem dark_ready :
    Pru.Ready Pru.profileTiming (fun i => darkBoard.mailbox (.lengths i)) darkRegs where
  admitted := ⟨by decide, by decide, by decide, by decide⟩
  r20 := rfl
  r21 := rfl
  r22 := rfl
  r23 := rfl
  r24 := rfl
  r25 := rfl
  r27 := rfl
  lengths := by decide
  settle := by decide

/-- The mailbox when the firmware has published the completion, but not yet
DONE. -/
def almostDone (m : DldCommand) : DldCommand
  | .status => statusRunning
  | .acceptedSeq | .completionSeq => m .requestSeq
  | off => m off

/-- A board whose firmware is late: it takes a request up after the status
and the error have been read, and then comes as far as `almostDone`. -/
def Board.answerLate (b : Board) (o : KOp) : o.Res × Board :=
  match o with
  | .writel v (.mailbox off) => ((), { b with mailbox := Function.update b.mailbox off v })
  | .readl (.mailbox .errorDetail) =>
    let isTaken := b.mailbox .requestSeq = b.mailbox .acceptedSeq
    (b.mailbox .errorDetail,
      { b with mailbox := if isTaken then b.mailbox else almostDone b.mailbox })
  | o => b.answer o

/-- The operations of the helper on that board. -/
def darkSend : List KEvent × DldQuietSend × Int :=
  (performSend darkRequest.clearOutputs).execWith Board.answerLate darkBoard

/-- The shared state when the final wait has read the status and the error. -/
def darkPublished : Shared Unit :=
  Shared.performAll ⟨darkBoard.mailbox, none⟩ (darkSend.1.take 101)

/-- The operations of the firmware up to its settle wait, and its registers
there. -/
def darkTaken : Option (List Pru.PruEvent × Pru.Label × Pru.Regs) :=
  Machine.exec (Pru.code Pru.profileTiming) (Pru.reading darkPublished.mailbox) 6
    (.requestLoop, darkRegs)

def darkTake : List Pru.PruEvent := (darkTaken.map Prod.fst).getD []

def darkAtSettle : Pru.Regs := (darkTaken.map fun x => x.2.2).getD darkRegs

/-- The store of the completion. -/
def darkCompletion : Pru.PruEvent := ⟨.sbco .completionSeq 2, ()⟩

/-- The shared state when the firmware has published the completion. -/
def darkCompleted : Shared Unit where
  mailbox := Pru.storedAll [darkCompletion] (Pru.storedAll darkTake darkPublished.mailbox)
  owner := darkPublished.owner

theorem dark_steps :
    ∃ q, Machine.Steps (Pru.code Pru.profileTiming)
      (Pru.code Pru.profileTiming (.requestLoop, darkRegs))
      (darkTake ++ (Pru.settleEvents darkRegs.r5 ++ [darkCompletion])) q := by
  have htake : Machine.Steps (Pru.code Pru.profileTiming)
      (Pru.code Pru.profileTiming (.requestLoop, darkRegs)) darkTake
      (Pru.code Pru.profileTiming (.afterGpio0, darkAtSettle)) := by
    apply Machine.exec_steps (n := 6) (h := Pru.reading darkPublished.mailbox)
    rfl
  have hsettle : Machine.Steps (Pru.code Pru.profileTiming)
      (Pru.code Pru.profileTiming (.afterGpio0, darkAtSettle))
      ((Pru.settleEvents darkRegs.r5 ++ [darkCompletion]) ++ (Pru.doneEvents 2).tail)
      (Pru.code Pru.profileTiming (.requestLoop, darkAtSettle)) := by
    rw [List.append_assoc]
    exact Pru.settle_steps Pru.profileTiming (r := darkAtSettle) (by decide)
  -- the run stops short of the store of DONE
  obtain ⟨q, hcompleted, -⟩ := hsettle.split
  exact ⟨q, htake.trans hcompleted⟩

theorem dark_through {m : Shared Unit} {t : List Pru.PruEvent} (r5 : Word)
    (h : Pru.heard m.mailbox t = true) :
    Through firmwareStep m (t ++ (Pru.settleEvents r5 ++ [darkCompletion]))
      ⟨Pru.storedAll [darkCompletion] (Pru.storedAll t m.mailbox), m.owner⟩ := by
  have hlast : Through firmwareStep ⟨Pru.storedAll t m.mailbox, m.owner⟩ [darkCompletion] _ :=
    Pru.through_firmware rfl
  exact (Pru.through_firmware h).append ((Pru.through_settle r5).append hlast)

/-- The pieces fit: each finds what the one before has left. -/
theorem dark_heard :
    heard ⟨darkBoard.mailbox, none⟩ (darkSend.1.take 101) = true ∧
      Pru.heard darkPublished.mailbox darkTake = true ∧
      heard darkCompleted (darkSend.1.drop 101) = true := by
  decide +kernel

/-- The helper can return before the firmware has stored DONE. -/
theorem dark_run :
    ∃ t w, (board Unit Pru.profileTiming True).Run
      (callers (fun _ => darkRequest) darkBoard.mailbox
        (Pru.code Pru.profileTiming (.requestLoop, darkRegs))) t w ∧
      w.clients () = .ret darkSend.2 := by
  obtain ⟨hheard₁, hheard₂, hheard₃⟩ := dark_heard
  have hruns : (performSend darkRequest.clearOutputs).Runs darkSend.1 darkSend.2 :=
    Prog.execWith_runs ..
  rw [← List.take_append_drop 101 darkSend.1] at hruns
  obtain ⟨q₁, hpublish, hfinish⟩ := hruns.split
  obtain ⟨q₂, hsteps⟩ := dark_steps
  have hthrough₁ : Through (helperStep True ()) ⟨darkBoard.mailbox, none⟩ _ darkPublished :=
    through_helper hheard₁
  have hthrough₂ : Through firmwareStep darkPublished
      (darkTake ++ (Pru.settleEvents darkRegs.r5 ++ [darkCompletion])) darkCompleted :=
    dark_through darkRegs.r5 hheard₂
  have hthrough₃ : Through (helperStep True ()) darkCompleted _ _ := through_helper hheard₃
  have hne : darkTake ++ (Pru.settleEvents darkRegs.r5 ++ [darkCompletion]) ≠ [] := by simp
  clear hheard₁ hheard₂ hheard₃
  generalize darkPublished = m₁ at *
  generalize darkCompleted = m₂ at *
  have h₁ := System.run_of_client (S := board Unit Pru.profileTiming True) (i := ())
    (w := callers (fun _ => darkRequest) darkBoard.mailbox
      (Pru.code Pru.profileTiming (.requestLoop, darkRegs))) hpublish hthrough₁
  have h₂ := h₁.append (System.run_of_device hne hsteps hthrough₂)
  have h₃ := h₂.append (System.run_of_client (i := ()) (by simpa using hfinish.steps) hthrough₃)
  exact ⟨_, _, h₃, by simp⟩

/-- The final wait has taken the old DONE for its own: the snapshot shows
RUNNING. -/
theorem stale_done_succeeds :
    ¬ ∀ (request : DldQuietSend) (tm : Pru.Timing) (m₀ : DldCommand) (r : Pru.Regs) (pruss : Prop)
      (t : List (BoardAct Unit)) (w : BoardState Unit) (a : DldQuietSend × Int),
      ((validate request).exec (holding m₀)).2.2 = 0 →
      Pru.Ready tm (fun i => m₀ (.lengths i)) r → r.r3 = m₀ .requestSeq → pruss →
      (board Unit tm pruss).Run
        (callers (fun _ => request) m₀ (Pru.code tm (.requestLoop, r))) t w →
      w.clients () = .ret a → a.2 = 0 →
      Answered (Final request fun i => m₀ (.lengths i)) a.1 := by
  intro h
  obtain ⟨t, w, hrun, hreturned⟩ := dark_run
  have hanswered := h darkRequest Pru.profileTiming darkBoard.mailbox darkRegs True t w darkSend.2
    (by decide +kernel) dark_ready rfl trivial hrun hreturned (by decide +kernel)
  have hrunning : darkSend.2.1.status = statusRunning := by decide +kernel
  have hdone : darkSend.2.1.status = statusDone := hanswered.status
  rw [hrunning] at hdone
  exact absurd hdone (by decide)

end Dld
