/-
DldDriver/System/Rehearsal.lean

Runs of the board put together from pieces: the helper runs for a while,
then the firmware, and so on.  A piece is a run of one party whose reads
find what the mailbox holds (`heard`); what it leaves in the mailbox is
computed event by event.

Nothing waits on a clock: the delay loops of the firmware are runs like any
other.
-/
import DldDriver.System.Shared

namespace Dld

open Interaction

/-! ### A piece of the helper -/

/-- The shared state after an event of the helper. -/
def Shared.perform (m : Shared Unit) (e : KEvent) : Shared Unit :=
  match e with
  | ⟨.writel v (.mailbox off), _⟩ => m.store off v
  | ⟨.mutexTrylock, isLocked⟩ => if isLocked then { m with owner := some () } else m
  | ⟨.mutexUnlock, _⟩ => { m with owner := none }
  | _ => m

/-- The event can happen on the shared state, with every clock on. -/
def Shared.answers (m : Shared Unit) (e : KEvent) : Bool :=
  match e with
  | ⟨.readl (.mailbox off), v⟩ => v = m.mailbox off
  | ⟨.readl (.clocks _), v⟩ => decide (Functional v)
  | ⟨.mutexTrylock, isLocked⟩ => isLocked = m.owner.isNone
  | _ => true

/-- The shared state after the events of the helper. -/
def Shared.performAll (m : Shared Unit) (t : List KEvent) : Shared Unit := t.foldl Shared.perform m

/-- Every event of the helper can happen where it does. -/
def heard : Shared Unit → List KEvent → Bool
  | _, [] => true
  | m, e :: t => m.answers e && heard (m.perform e) t

theorem helperStep_perform {m : Shared Unit} {e : KEvent} {pruss : Prop} (h : m.answers e = true) :
    helperStep pruss () m e (m.perform e) := by
  obtain ⟨op, v⟩ := e
  cases op with
  | readl reg =>
    cases reg with
    | mailbox off => exact ⟨of_decide_eq_true h, rfl⟩
    | clocks c => exact ⟨fun _ _ => of_decide_eq_true h, rfl⟩
    | _ => rfl
  | writel w reg => cases reg <;> rfl
  | mutexTrylock =>
    have hv : v = m.owner.isNone := of_decide_eq_true h
    refine ⟨?_, rfl⟩
    rw [hv, Option.isNone_iff_eq_none]
  | _ => rfl

theorem through_helper {m : Shared Unit} {t : List KEvent} {pruss : Prop} (h : heard m t = true) :
    Through (helperStep pruss ()) m t (m.performAll t) := by
  induction t generalizing m with
  | nil => exact .nil m
  | cons e t ih =>
    obtain ⟨hanswers, hrest⟩ := Bool.and_eq_true_iff.mp h
    exact .cons (helperStep_perform hanswers) (ih hrest)

/-! ### A piece of the firmware -/

namespace Pru

/-- The mailbox after the events of the firmware. -/
def storedAll (t : List PruEvent) (m : DldCommand) : DldCommand := t.foldl (fun m e => stored e m) m

/-- Every read of the firmware finds what the mailbox holds. -/
def heard : DldCommand → List PruEvent → Bool
  | _, [] => true
  | m, e :: t =>
    (match e with
      | ⟨.lbco off, v⟩ => v = m off
      | _ => true) && heard (stored e m) t

theorem firmwareStep_of_heard {m : Shared Unit} {e : PruEvent} {t : List PruEvent}
    (h : heard m.mailbox (e :: t) = true) :
    firmwareStep m e { m with mailbox := stored e m.mailbox } := by
  obtain ⟨hread, -⟩ := Bool.and_eq_true_iff.mp h
  obtain ⟨op, v⟩ := e
  cases op with
  | lbco off => exact ⟨of_decide_eq_true hread, rfl⟩
  | _ => rfl

theorem through_firmware {m : Shared Unit} {t : List PruEvent} (h : heard m.mailbox t = true) :
    Through firmwareStep m t { m with mailbox := storedAll t m.mailbox } := by
  induction t generalizing m with
  | nil => exact .nil m
  | cons e t ih =>
    have hstep := firmwareStep_of_heard h
    obtain ⟨-, hrest⟩ := Bool.and_eq_true_iff.mp h
    exact .cons hstep (ih (m := { m with mailbox := stored e m.mailbox }) hrest)

/-- Events that reach nothing of the mailbox. -/
theorem through_silent {m : Shared Unit} {t : List PruEvent}
    (h : ∀ e ∈ t, firmwareStep m e m) : Through firmwareStep m t m := by
  induction t with
  | nil => exact .nil m
  | cons e t ih => exact .cons (h e (.head _)) (ih fun e he => h e (.tail _ he))

theorem through_idle {m : Shared Unit} (n : Nat) : Through firmwareStep m (idle n) m :=
  through_silent fun e he => by
    rw [List.eq_of_mem_replicate he]
    rfl

/-- A stream does not touch the mailbox. -/
theorem through_bankStream {m : Shared Unit} {tm : Timing} {b : Bank} {l : Fin 6 → Word}
    {colour : Word} : Through firmwareStep m (bankStream tm b l colour) m :=
  through_silent fun e he => by
    obtain ⟨p, hp⟩ := mem_bankStream he
    rcases mem_pixelEvents hp with rfl | ⟨_, rfl⟩ | ⟨_, _, rfl⟩ | rfl | rfl <;> rfl

/-- A delay loop does not touch the mailbox. -/
theorem through_wait {m : Shared Unit} (r5 : Word) :
    Through firmwareStep m (delayEv r5 :: idle (2 * r5.toNat) ++ [aluEv]) m :=
  Through.append (.cons rfl (through_idle _)) (.cons rfl (.nil m))

/-- The stores after the settle wait. -/
def doneEvents (seq : Word) : List PruEvent :=
  ⟨.sbco .completionSeq seq, ()⟩ :: ((movImm errorNone).exec silent).1 ++
    ⟨.sbco .errorDetail errorNone, ()⟩ :: ((movImm statusDone).exec silent).1 ++
    [⟨.sbco .status statusDone, ()⟩, aluEv]

/-- The settle wait, up to those stores. -/
def settleEvents (r5 : Word) : List PruEvent :=
  aluEv :: delayEv r5 :: idle (2 * r5.toNat) ++ [aluEv]

theorem settle_steps (tm : Timing) {r : Regs} (h : r.r5 ≠ 0) :
    Machine.Steps (code tm) (code tm (.afterGpio0, r)) (settleEvents r.r5 ++ doneEvents r.r3)
      (code tm (.requestLoop, r)) := by
  have hexec : (afterGpio0Block r).exec silent =
      (settleEvents r.r5 ++ doneEvents r.r3, some (.requestLoop, r)) := by
    simp only [afterGpio0Block, settleEvents, Prog.exec_bind, exec_alu, exec_waitSettle h]
    rfl
  have hruns := Prog.exec_runs silent (afterGpio0Block r)
  rw [hexec] at hruns
  exact .of_runs hruns

/-- The settle wait does not touch the mailbox. -/
theorem through_settle {m : Shared Unit} (r5 : Word) :
    Through firmwareStep m (settleEvents r5) m :=
  .cons rfl (through_wait r5)

end Pru

/-! ### One caller among others -/

section Among

variable {ι : Type}

/-- The state that a single caller shares with the firmware, where this
caller is `i`. -/
def Shared.as (i : ι) (m : Shared Unit) : Shared ι := ⟨m.mailbox, m.owner.map fun _ => i⟩

theorem helperStep_as {pruss : Prop} (i : ι) {m m' : Shared Unit} {e : KEvent}
    (h : helperStep pruss () m e m') : helperStep pruss i (m.as i) e (m'.as i) := by
  obtain ⟨op, v⟩ := e
  cases op with
  | readl reg =>
    cases reg with
    | mailbox off =>
      obtain ⟨hv, rfl⟩ := h
      exact ⟨hv, rfl⟩
    | clocks c =>
      obtain ⟨hv, rfl⟩ := h
      exact ⟨hv, rfl⟩
    | _ => exact congrArg (Shared.as i) h
  | writel w reg => cases reg <;> exact congrArg (Shared.as i) h
  | mutexTrylock =>
    obtain ⟨hv, rfl⟩ := h
    refine ⟨hv.trans ?_, ?_⟩
    · rcases m with ⟨mailbox, - | owner⟩ <;> simp [Shared.as]
    · cases v <;> rfl
  | _ => exact congrArg (Shared.as i) h

theorem firmwareStep_as (i : ι) {m m' : Shared Unit} {e : Pru.PruEvent}
    (h : firmwareStep m e m') : firmwareStep (m.as i) e (m'.as i) := by
  obtain ⟨op, v⟩ := e
  cases op with
  | lbco off =>
    obtain ⟨hv, rfl⟩ := h
    exact ⟨hv, rfl⟩
  | _ => exact congrArg (Shared.as i) h

theorem through_helper_as {pruss : Prop} (i : ι) {m m' : Shared Unit} {t : List KEvent}
    (h : Through (helperStep pruss ()) m t m') : Through (helperStep pruss i) (m.as i) t (m'.as i) :=
  h.map (Shared.as i) fun _ _ _ => helperStep_as i

theorem through_firmware_as (i : ι) {m m' : Shared Unit} {t : List Pru.PruEvent}
    (h : Through firmwareStep m t m') : Through firmwareStep (m.as i) t (m'.as i) :=
  h.map (Shared.as i) fun _ _ _ => firmwareStep_as i

end Among

/-! ### One bank -/

/-- The registers of a firmware in its request loop, for `oneBankRequest`. -/
def oneBankRegs : Pru.Regs :=
  { (default : Pru.Regs).load Pru.profileTiming with r5 := 40400 }

/-- The operations of the helper on a cooperative board. -/
def oneBankSend : List KEvent × DldQuietSend × Int :=
  (performSend oneBankRequest.clearOutputs).execWith Board.answer oneBankBoard

theorem oneBank_ready :
    Pru.Ready Pru.profileTiming (fun i => oneBankBoard.mailbox (.lengths i)) oneBankRegs where
  admitted := ⟨by decide, by decide, by decide, by decide⟩
  r20 := rfl
  r21 := rfl
  r22 := rfl
  r23 := rfl
  r24 := rfl
  r25 := rfl
  r27 := rfl
  lengths := by decide
  settle := by decide

/-- The shared state when the request has been published. -/
def oneBankPublished : Shared Unit :=
  Shared.performAll ⟨oneBankBoard.mailbox, none⟩ (oneBankSend.1.take 89)

/-- The registers of the firmware at the only bank. -/
def oneBankAtBank : Pru.Regs :=
  { oneBankRegs with r3 := 1, r4 := wireColor profileWs2812b 0x102030, r9 := 0 }

/-- The operations of the firmware up to the only bank. -/
def oneBankAccept : List Pru.PruEvent :=
  match Machine.exec (Pru.code Pru.profileTiming) (Pru.reading oneBankPublished.mailbox) 5
    (.requestLoop, oneBankRegs) with
  | some (t, _) => t
  | none => []

/-- The same, with the offer of the bank. -/
def oneBankOffer : List Pru.PruEvent :=
  oneBankAccept ++ Pru.offerEvents .gpio0 oneBankRequest.stringLengths

/-- The shared state when the bank has been offered, and when it has been
granted. -/
def oneBankOffered : Shared Unit :=
  { oneBankPublished with mailbox := Pru.storedAll oneBankOffer oneBankPublished.mailbox }

def oneBankGranted : Shared Unit := oneBankOffered.performAll ((oneBankSend.1.drop 89).take 99)

/-- The operations of the firmware after the stream. -/
def oneBankDrain : List Pru.PruEvent :=
  match Machine.exec (Pru.code Pru.profileTiming) Pru.silent 1
    (.timedEnd, oneBankAtBank.atPixel .gpio0 oneBankRequest.stringLengths 5) with
  | some (t, _) => t
  | none => []

/-- The shared state when the frame is done. -/
def oneBankDone : Shared Unit :=
  { oneBankGranted with mailbox := Pru.storedAll (Pru.doneEvents 1) (Pru.storedAll oneBankDrain
    (Pru.storedAll (Pru.releaseEvents .gpio0) oneBankGranted.mailbox)) }

theorem oneBankAccept_exec :
    Machine.exec (Pru.code Pru.profileTiming) (Pru.reading oneBankPublished.mailbox) 5
        (.requestLoop, oneBankRegs) =
      some (oneBankAccept,
        (.sendGroup, oneBankAtBank.atBank .gpio0 oneBankRequest.stringLengths)) :=
  rfl

theorem oneBankOffer_steps :
    Machine.Steps (Pru.code Pru.profileTiming)
      (Pru.code Pru.profileTiming (.requestLoop, oneBankRegs)) oneBankOffer
      (Pru.code Pru.profileTiming
        (.gateWait, oneBankAtBank.atGate .gpio0 oneBankRequest.stringLengths)) :=
  (Machine.exec_steps oneBankAccept_exec).trans (.of_runs (Pru.sendGroup_offer (by decide)))

/-- From the grant to the end of the frame. -/
theorem oneBankFrame_steps :
    Machine.Steps (Pru.code Pru.profileTiming)
      (Pru.code Pru.profileTiming
        (.gateWait, oneBankAtBank.atGate .gpio0 oneBankRequest.stringLengths))
      (Pru.releaseEvents .gpio0 ++
        (Pru.bankStream Pru.profileTiming .gpio0 oneBankRequest.stringLengths oneBankAtBank.r4 ++
          (oneBankDrain ++ (Pru.settleEvents oneBankRegs.r5 ++ Pru.doneEvents oneBankAtBank.r3))))
      (Pru.code Pru.profileTiming
        (.requestLoop, oneBankAtBank.atPixel .gpio0 oneBankRequest.stringLengths 5)) := by
  have hrelease : Machine.Steps (Pru.code Pru.profileTiming) _ _ _ :=
    .of_runs (Pru.gateWait_release (r := oneBankAtBank) (b := .gpio0)
      (l := oneBankRequest.stringLengths))
  have hstream := Pru.pixelLoop_steps (r := oneBankAtBank) (b := .gpio0)
    (l := oneBankRequest.stringLengths) oneBank_ready.admitted ⟨rfl, rfl, rfl, rfl, rfl, rfl, rfl⟩
    (by decide) (by decide)
  have hdrain : Machine.Steps (Pru.code Pru.profileTiming)
      (Pru.code Pru.profileTiming
        (.timedEnd, oneBankAtBank.atPixel .gpio0 oneBankRequest.stringLengths 5)) oneBankDrain
      (Pru.code Pru.profileTiming
        (.afterGpio0, oneBankAtBank.atPixel .gpio0 oneBankRequest.stringLengths 5)) := by
    apply Machine.exec_steps (n := 1) (h := Pru.silent)
    rfl
  have hsettle := Pru.settle_steps Pru.profileTiming
    (r := oneBankAtBank.atPixel .gpio0 oneBankRequest.stringLengths 5) (by decide)
  exact hrelease.trans (hstream.trans (hdrain.trans hsettle))

/-- What the frame leaves in the mailbox. -/
theorem oneBank_rest {m : Shared Unit}
    (h : Pru.heard m.mailbox (Pru.releaseEvents .gpio0) = true) :
    ∃ t q, t ≠ [] ∧ Machine.Steps (Pru.code Pru.profileTiming)
      (Pru.code Pru.profileTiming
        (.gateWait, oneBankAtBank.atGate .gpio0 oneBankRequest.stringLengths)) t q ∧
      Through firmwareStep m t { m with
        mailbox := Pru.storedAll (Pru.doneEvents 1) (Pru.storedAll oneBankDrain
          (Pru.storedAll (Pru.releaseEvents .gpio0) m.mailbox)) } := by
  let m₁ : Shared Unit := { m with mailbox := Pru.storedAll (Pru.releaseEvents .gpio0) m.mailbox }
  let m₂ : Shared Unit := { m₁ with mailbox := Pru.storedAll oneBankDrain m₁.mailbox }
  have hfirst : Through firmwareStep m (Pru.releaseEvents .gpio0) m₁ := Pru.through_firmware h
  have hsecond : Through firmwareStep m₁ oneBankDrain m₂ := Pru.through_firmware rfl
  have hlast : Through firmwareStep m₂
      (Pru.settleEvents oneBankRegs.r5 ++ Pru.doneEvents oneBankAtBank.r3) _ :=
    (Pru.through_settle _).append (Pru.through_firmware rfl)
  exact ⟨_, _, by simp [Pru.releaseEvents], oneBankFrame_steps,
    hfirst.append (Pru.through_bankStream.append (hsecond.append hlast))⟩

/-- The pieces fit: each finds what the one before has left. -/
theorem oneBank_heard :
    heard ⟨oneBankBoard.mailbox, none⟩ (oneBankSend.1.take 89) = true ∧
      Pru.heard oneBankPublished.mailbox oneBankOffer = true ∧
      heard oneBankOffered ((oneBankSend.1.drop 89).take 99) = true ∧
      Pru.heard oneBankGranted.mailbox (Pru.releaseEvents .gpio0) = true ∧
      heard oneBankDone ((oneBankSend.1.drop 89).drop 99) = true := by
  decide +kernel

/-- The shared state when the helper has returned. -/
def oneBankReturned : Shared Unit := oneBankDone.performAll ((oneBankSend.1.drop 89).drop 99)

/-- A caller and the firmware can run through a frame for one bank, while the
other callers wait. -/
theorem oneBank_run_among {ι : Type} [DecidableEq ι] (pruss : Prop) (i : ι) {w : BoardState ι}
    (hmem : w.mem = Shared.as i ⟨oneBankBoard.mailbox, none⟩)
    (hclient : w.clients i = performSend oneBankRequest.clearOutputs)
    (hdevice : w.device = Pru.code Pru.profileTiming (.requestLoop, oneBankRegs)) :
    ∃ t w', (board ι Pru.profileTiming pruss).Run w t w' ∧
      w'.mem = oneBankReturned.as i ∧
      w'.clients = Function.update w.clients i (.ret oneBankSend.2) := by
  obtain ⟨hheard₁, hheard₂, hheard₃, hheard₄, hheard₅⟩ := oneBank_heard
  have hruns : (performSend oneBankRequest.clearOutputs).Runs oneBankSend.1 oneBankSend.2 :=
    Prog.execWith_runs ..
  rw [← List.take_append_drop 89 oneBankSend.1] at hruns
  obtain ⟨q₁, hpublish, hruns⟩ := hruns.split
  rw [← List.take_append_drop 99 (oneBankSend.1.drop 89)] at hruns
  obtain ⟨q₂, hgrant, hfinish⟩ := hruns.split
  obtain ⟨t, q, ht, hrest, hthrough⟩ := oneBank_rest hheard₄
  have hoffer : oneBankOffer ≠ [] := by simp [oneBankOffer, Pru.offerEvents]
  have hthrough₁ : Through (helperStep pruss ()) ⟨oneBankBoard.mailbox, none⟩ _ oneBankPublished :=
    through_helper hheard₁
  have hthrough₂ : Through firmwareStep oneBankPublished oneBankOffer oneBankOffered :=
    Pru.through_firmware hheard₂
  have hthrough₃ : Through (helperStep pruss ()) oneBankOffered _ oneBankGranted :=
    through_helper hheard₃
  have hthrough₄ : Through firmwareStep oneBankGranted t oneBankDone := hthrough
  have hthrough₅ : Through (helperStep pruss ()) oneBankDone _ oneBankReturned :=
    through_helper hheard₅
  clear hheard₁ hheard₂ hheard₃ hheard₄ hheard₅ hthrough
  generalize oneBankPublished = m₁ at *
  generalize oneBankOffered = m₂ at *
  generalize oneBankGranted = m₃ at *
  generalize oneBankDone = m₄ at *
  generalize oneBankReturned = m₅ at *
  rw [← hclient] at hpublish
  obtain ⟨mem, clients, device⟩ := w
  obtain rfl : mem = _ := hmem
  obtain rfl : device = _ := hdevice
  have h₁ := System.run_of_client (S := board ι Pru.profileTiming pruss) hpublish
    (through_helper_as i hthrough₁)
  have h₂ := h₁.append (System.run_of_device hoffer oneBankOffer_steps
    (through_firmware_as i hthrough₂))
  have h₃ := h₂.append (System.run_of_client (i := i) (by simpa using hgrant)
    (through_helper_as i hthrough₃))
  have h₄ := h₃.append (System.run_of_device ht hrest (through_firmware_as i hthrough₄))
  have h₅ := h₄.append (System.run_of_client (i := i) (by simpa using hfinish.steps)
    (through_helper_as i hthrough₅))
  exact ⟨_, _, h₅, rfl, by simp⟩

/-- The two parties can run through a frame for one bank. -/
theorem oneBank_run (pruss : Prop) :
    ∃ t w, (board Unit Pru.profileTiming pruss).Run
      (callers (fun _ => oneBankRequest) oneBankBoard.mailbox
        (Pru.code Pru.profileTiming (.requestLoop, oneBankRegs))) t w ∧
      w.clients () = .ret oneBankSend.2 := by
  obtain ⟨t, w, hrun, -, hclients⟩ := oneBank_run_among pruss () (w := callers (fun _ => oneBankRequest)
    oneBankBoard.mailbox (Pru.code Pru.profileTiming (.requestLoop, oneBankRegs))) rfl rfl rfl
  exact ⟨t, w, hrun, by rw [hclients, Function.update_self]⟩

/-! ### The start of the firmware -/

section Start

open Pru

/-- The operations of `START` before its settle wait. -/
def oneBankBoot : List PruEvent :=
  (advance (reading oneBankPublished.mailbox) 133 (startBlock profileTiming default)).1

/-- Its operations up to the request loop. -/
def oneBankStart : List PruEvent :=
  oneBankBoot ++ ((delayEv 40400 :: idle (2 * (40400 : Word).toNat) ++ [aluEv]) ++
    ((publishReady oneBankRegs).exec silent).1)

theorem oneBankStart_runs :
    Prog.Runs (startBlock profileTiming default) oneBankStart (some (.requestLoop, oneBankRegs)) :=
  start_runs (h := reading oneBankPublished.mailbox) (n := 133) (by decide) rfl

end Start

end Dld
