/-
DldDriver/System/Bringup.lean

From whatever PRUSS was left with to a firmware that waits for its first
frame: `dld-init` and the cores of PRUSS on one board.

A core that is not under control may change the command block and the
instruction RAM at any time, and a store to the instruction RAM need not
take.  Only a core that was seen stopped, and is enabled over the image,
executes the firmware.

    bringup     the operations of dld-init, and those of the firmware once
                it is started
    Startup     the invariant: what the process knows is so
    bring_up    an exit with zero leaves the firmware in its request loop,
                over the configuration of the file
-/
import DldDriver.System.Handshake
import DldDriver.System.Budget
import DldDriver.Userspace.Takeover

namespace Dld

open Interaction

/-! ### The board -/

/-- PRUSS: the command block, the memory of PRUSS apart from it, and what
may be said of the cores. -/
structure Pruss where
  mailbox : DldCommand
  memory : Nat → Word
  core : Fin 2 → Core

namespace Pruss

/-- The instruction RAM holds the image. -/
def Loaded (m : Pruss) (image : Nat → Word) (imageBytes : Nat) : Prop :=
  ∀ word < imageBytes / 4, m.memory (pru0Iram + 4 * word) = image word

instance (m : Pruss) (image : Nat → Word) (imageBytes : Nat) :
    Decidable (m.Loaded image imageBytes) :=
  inferInstanceAs (Decidable (∀ word < imageBytes / 4, _))

/-- What an EN makes of a core. -/
def enabled (m : Pruss) (image : Nat → Word) (imageBytes : Nat) (pru : Fin 2) : Core :=
  if pru = 0 ∧ m.core 0 = .stopped ∧ m.Loaded image imageBytes then .running else .foreign

def setCore (m : Pruss) (pru : Fin 2) (c : Core) : Pruss :=
  { m with core := Function.update m.core pru c }

/-- A core that is not under control has been at work. -/
def Stirred (m m' : Pruss) : Prop := m'.core = m.core ∧ (Calm m.core → m' = m)

end Pruss

/-- An operation of `dld-init` on PRUSS at rest.  The configuration file
holds `bytes`. -/
def serve (image : Nat → Word) (imageBytes : Nat) (bytes : List UInt8) (m : Pruss) (e : UEvent)
    (m' : Pruss) : Prop :=
  match e with
  | ⟨.load (.command off), v⟩ => v = m.mailbox off ∧ m' = m
  | ⟨.store v (.command off), _⟩ => m' = { m with mailbox := Function.update m.mailbox off v }
  | ⟨.load (.pruss n), v⟩ =>
    match coreAt n with
    | some pru => m' = m.setCore pru ((m.core pru).observed v)
    | none => (pru0Iram ≤ n → v = m.memory n) ∧ m' = m
  | ⟨.store v (.pruss n), _⟩ =>
    match coreAt n with
    | some pru => m' = m.setCore pru ((m.core pru).commanded v (m.enabled image imageBytes pru))
    | none => ∃ memory, (∀ n' ≠ n, memory n' = m.memory n') ∧ m' = { m with memory := memory }
  | ⟨.clockGettime, .ok now⟩ => (0 ≤ now.2 ∧ now.2 < 1000000000) ∧ m' = m
  | ⟨.readFile, .content read⟩ => read = bytes ∧ m' = m
  | _ => m' = m

/-- `dld-init`, and PRU0 once it executes the image. -/
def bringup (tm : Pru.Timing) (image : Nat → Word) (imageBytes : Nat) (bytes : List UInt8) :
    System Unit UOp UOp.Res Pru.PruOp Pru.PruOp.Res (Pru.Label × Pru.Regs) Pruss where
  code := Pru.code tm
  client _ m e m' := ∃ m₁, m.Stirred m₁ ∧ serve image imageBytes bytes m₁ e m'
  device m e m' := m.core 0 = .running ∧ Loads m.mailbox e ∧
    m' = { m with mailbox := Pru.stored e m.mailbox }

/-- The state of the board, and an operation on it. -/
abbrev BringupState :=
  World Unit UOp UOp.Res Pru.PruOp Pru.PruOp.Res (Pru.Label × Pru.Regs) Pruss DldExitCode

abbrev BringupAct := Act Unit UOp UOp.Res Pru.PruOp Pru.PruOp.Res

/-- The process is about to start, with PRUSS as it was left; PRU0 will find
`r` in its registers. -/
def leftWith (tm : Pru.Timing) (fuel : Nat) (image : Nat → Word) (imageBytes : Nat)
    (args : List String) (mailbox : DldCommand) (memory : Nat → Word) (r : Pru.Regs) :
    BringupState where
  mem := ⟨mailbox, memory, fun _ => .foreign⟩
  clients _ := dldInit fuel image imageBytes args
  device := Pru.code tm (.start, r)

/-! ### The firmware up to its request loop -/

/-- The command block that `dld-init` leaves for the firmware. -/
def initialBlock (config : DldConfig) : DldCommand :=
  Function.update (startedMailbox config.profileId config.stringLengths) .status statusInitializing

theorem mem_initialWords (config : DldConfig) (off : Off) :
    (off, initialBlock config off) ∈ initialWords config := by
  cases off <;> simp [initialWords, initialBlock, startedMailbox, errorNone]

namespace Pru

/-- The firmware before its first instruction. -/
def entering (config : DldConfig) : FState := ⟨.boot, 0, 0, initialBlock config⟩

/-- The words of `START`, phase by phase. -/
def ComingUp (d : FState) : Prop :=
  d.seq = 0 ∧ match d.phase with
    | .boot | .fatalStatus => d.out .status = statusInitializing
    | .publish left => left <:+ readyStores ∧ left ≠ [] ∧ d.out .status = statusInitializing ∧
      ∀ w ∈ readyStores, w ∈ left ∨ d.out w.1 = w.2
    | .poll => ∀ w ∈ readyStores, d.out w.1 = w.2
    | .halting | .halted => d.out .status = statusError
    | _ => False

theorem comingUp_entering (config : DldConfig) : ComingUp (entering config) := by
  refine ⟨rfl, ?_⟩
  show initialBlock config .status = statusInitializing
  rw [initialBlock, Function.update_self]

section ComingUp

variable {tm : Timing} {l : Fin 6 → Word} {d d' : FState} {e : PruEvent} {m : DldCommand}

theorem ComingUp.recorded (h : ComingUp d) : Recorded tm l d [] := by
  obtain ⟨phase, seq, colour, out⟩ := d
  obtain ⟨-, hphase⟩ := h
  cases phase with
  | boot => rfl
  | publish left => exact ⟨rfl, hphase.1⟩
  | poll => exact .inl rfl
  | fatalStatus | halting | halted => trivial
  | _ => exact hphase.elim

/-- READY is stored last of all. -/
theorem status_notMem {off : Off} {v : Word} {left : List (Off × Word)}
    (h : (off, v) :: left <:+ readyStores) :
    (left ≠ [] → off ≠ .status) ∧ (off, v) ∈ readyStores ∧
      ∀ w ∈ readyStores, w.1 = off → w.2 = v := by
  have hmem := h.subset (List.mem_cons_self ..)
  have hkeys : ∀ w ∈ readyStores, ∀ w' ∈ readyStores, w.1 = w'.1 → w.2 = w'.2 := by decide
  refine ⟨?_, hmem, fun w hw heq => hkeys w hw _ hmem heq⟩
  rintro hne rfl
  have hlast : ∀ n < 6, (readyStores.drop n).head?.map Prod.fst = some Off.status →
      (readyStores.drop n).tail = [] := by decide
  obtain ⟨front, hfront⟩ := h
  have hlength : front.length < 6 := by
    have hlength := congrArg List.length hfront
    simp only [List.length_append, List.length_cons] at hlength
    have hsix : readyStores.length = 6 := rfl
    omega
  have hdrop : readyStores.drop front.length = (Off.status, v) :: left := by
    rw [← hfront, List.drop_left]
  have htail := hlast _ hlength (by rw [hdrop]; rfl)
  rw [hdrop] at htail
  exact hne htail

/-- The firmware comes up as far as its request loop, and stays there while
no sequence is published. -/
theorem ComingUp.step (h : ComingUp d) (hloads : Loads m e) (hseq : m .requestSeq = 0)
    (hstep : FStep tm l d e d') : ComingUp d' := by
  obtain ⟨hzero, hphase⟩ := h
  have hkept (out : DldCommand) (v : Word) (hout : out .status = statusInitializing) :
      Function.update out .errorDetail v .status = statusInitializing := by
    rwa [Function.update_of_ne (by decide)]
  cases hstep with
  | alu => exact ⟨hzero, hphase⟩
  | boot => exact ⟨hzero, hphase⟩
  | @booted seq colour out =>
    refine ⟨hzero, by decide, by decide, ?_, ?_⟩
    · exact hkept out errorNone hphase
    · intro w hw
      rcases List.mem_cons.mp hw with rfl | hw
      · exact .inr (Function.update_self Off.errorDetail errorNone out)
      · exact .inl hw
  | @bootFailed seq colour out cause =>
    exact ⟨hzero, hkept out cause hphase⟩
  | @publish seq colour out off v left =>
    obtain ⟨hsuffix, -, hstatus, hwords⟩ := hphase
    obtain ⟨hother, hmem, hvalue⟩ := status_notMem hsuffix
    have hwords' : ∀ w ∈ readyStores, w ∈ left ∨ Function.update out off v w.1 = w.2 := by
      intro w hw
      by_cases heq : w.1 = off
      · rw [heq, Function.update_self]
        exact .inr (hvalue w hw heq).symm
      · rw [Function.update_of_ne heq]
        rcases hwords w hw with hmem | hout
        · rcases List.mem_cons.mp hmem with rfl | hmem
          · exact absurd rfl heq
          · exact .inl hmem
        · exact .inr hout
    by_cases hnil : left = []
    · subst hnil
      exact ⟨hzero, fun w hw => (hwords' w hw).resolve_left List.not_mem_nil⟩
    · refine ⟨hzero, ?_⟩
      rw [if_neg hnil]
      exact ⟨(List.suffix_cons _ _).trans hsuffix, hnil,
        (Function.update_of_ne (hother hnil).symm _ _).trans hstatus, hwords'⟩
  | pollSame => exact ⟨hzero, hphase⟩
  | pollNew hnew =>
    have hread := hloads _ _ rfl
    exact absurd (hread.trans (hseq.trans hzero.symm)) hnew
  | @fatalStatus seq colour out =>
    exact ⟨hzero, Function.update_self Off.status statusError out⟩
  | halt => exact ⟨hzero, hphase⟩
  | _ => exact hphase.elim

/-- READY is read from a firmware in its request loop. -/
theorem ComingUp.ready (h : ComingUp d) (hstatus : d.out .status = statusReady) :
    d.phase = .poll := by
  obtain ⟨phase, seq, colour, out⟩ := d
  obtain ⟨-, hphase⟩ := h
  have hnot {v : Word} {P : Prop} (hv : out .status = v) (hne : v ≠ statusReady) : P :=
    absurd (hv.symm.trans hstatus) hne
  cases phase with
  | poll => rfl
  | boot | fatalStatus => exact hnot hphase (by decide)
  | publish left => exact hnot hphase.2.2.1 (by decide)
  | halting | halted => exact hnot hphase (by decide)
  | _ => exact hphase.elim

end ComingUp

end Pru

/-! ### The invariant -/

/-- What the process knows is so; before PRU0 is started the firmware has
done nothing, and from then on it is on its way to its request loop, over
the words that the process has stored. -/
structure Startup (bytes : List UInt8) (config : DldConfig) (m : Pruss) (b : Boot) (s : Takeover)
    (d : Pru.FState) : Prop where
  core : m.core = s.core
  stored : ∀ off w, s.held off = some w → b.stored off = some w
  file : ∀ parsed, b.file = some parsed → parseConfig bytes = .ok parsed
  found : ∀ n w, pru0Iram ≤ n → s.found n = some w → Calm s.core ∧ m.memory n = w
  held : ∀ off w, s.held off = some w → Calm s.core ∧
    (off ∉ Pru.firmwareWords ∨ s.core 0 ≠ .running → m.mailbox off = w)
  before : s.core 0 ≠ .running → d = Pru.entering config ∧ ∀ off, b.seen off = none
  calm : s.core 0 = .running → Calm s.core
  words : s.core 0 = .running → ∀ off, ∃ w, s.held off = some w ∧
    (off ≠ .magic → w = initialBlock config off)
  kept : s.core 0 = .running → ∀ off ∈ Pru.firmwareWords, m.mailbox off = d.out off
  comingUp : s.core 0 = .running → Pru.ComingUp d
  ready : s.core 0 = .running → b.seen .status = some statusReady → d.phase = .poll

section Cores

variable {core : Fin 2 → Core} {pru : Fin 2} {v : Word} {enabled : Core}

theorem update_same {c : Core} (h : c = core pru) : Function.update core pru c = core := by
  rw [h, Function.update_eq_self]

/-- A core under control is left as it is by a read, and by all but an EN. -/
theorem calm_observed (h : Calm core) : (core pru).observed v = core pru := by
  unfold Core.observed
  rw [if_neg]
  rintro ⟨hhalting, -⟩
  rcases h pru with hc | hc <;> rw [hc] at hhalting <;> cases hhalting

theorem calm_commanded (h : Calm core) (hv : v &&& 2 = 0) :
    (core pru).commanded v enabled = core pru := by
  unfold Core.commanded
  rw [if_neg (not_not.mpr hv), if_neg]
  intro hforeign
  rcases h pru with hc | hc <;> rw [hc] at hforeign <;> cases hforeign

end Cores

section Startup

variable {image : Nat → Word} {imageBytes : Nat} {bytes : List UInt8} {config : DldConfig}
variable {m m' : Pruss} {b b' : Boot} {s s' : Takeover} {d d' : Pru.FState} {tm : Pru.Timing}

/-- What a core that is not under control may do. -/
theorem Startup.stirred (h : Startup bytes config m b s d) (hm : m.Stirred m') :
    Startup bytes config m' b s d := by
  by_cases hcalm : Calm m.core
  · rw [hm.2 hcalm]
    exact h
  have hnot : ¬ Calm s.core := by rwa [← h.core]
  exact
    { h with
      core := hm.1.trans h.core
      found := fun n w hn hw => absurd (h.found n w hn hw).1 hnot
      held := fun off w hw => absurd (h.held off w hw).1 hnot
      kept := fun hrunning => absurd (h.calm hrunning) hnot }

/-- The watch of the file, of the clock and of the calls. -/
theorem Startup.aside (h : Startup bytes config m b s d) (hstored : b'.stored = b.stored)
    (hseen : b'.seen = b.seen)
    (hfile : ∀ parsed, b'.file = some parsed → parseConfig bytes = .ok parsed) :
    Startup bytes config m b' s d :=
  { h with
    stored := fun off w hw => by
      rw [hstored]
      exact h.stored off w hw
    file := hfile
    before := fun hnot => by
      rw [hseen]
      exact h.before hnot
    ready := fun hrunning => by
      rw [hseen]
      exact h.ready hrunning }

/-- A core is eased. -/
theorem Startup.eased (h : Startup bytes config m b s d) {pru : Fin 2} {c : Core}
    (heased : (s.core pru).Eased c) (hsame : Calm s.core → c = s.core pru) :
    Startup bytes config (m.setCore pru c) b
      { s with core := Function.update s.core pru c } d := by
  by_cases hcalm : Calm s.core
  · -- then it stays as it is
    have hcore : Function.update s.core pru c = s.core := update_same (hsame hcalm)
    have hm : m.setCore pru c = m := by
      rw [Pruss.setCore, h.core, hcore, ← h.core]
    rw [hcore, hm]
    exact h
  have hnot : s.core 0 ≠ .running := fun hrunning => hcalm (h.calm hrunning)
  have hnot' : Function.update s.core pru c 0 ≠ .running := by
    by_cases hpru : (0 : Fin 2) = pru
    · subst hpru
      rw [Function.update_self]
      exact fun hc => hnot (heased.2.mp hc)
    · rw [Function.update_of_ne hpru]
      exact hnot
  exact
    { core := by rw [Pruss.setCore, h.core]
      stored := h.stored
      file := h.file
      found := fun n w hn hw => absurd (h.found n w hn hw).1 hcalm
      held := fun off w hw => absurd (h.held off w hw).1 hcalm
      before := fun _ => h.before hnot
      calm := fun hrunning => absurd hrunning hnot'
      words := fun hrunning => absurd hrunning hnot'
      kept := fun hrunning => absurd hrunning hnot'
      comingUp := fun hrunning => absurd hrunning hnot'
      ready := fun hrunning => absurd hrunning hnot' }

/-- PRU0 is started. -/
theorem Startup.start (h : Startup bytes config m b s d)
    (hprepared : s.Prepared image imageBytes config) :
    m.enabled image imageBytes 0 = .running ∧
      Startup bytes config (m.setCore 0 .running) b
        { s with core := Function.update s.core 0 .running } d := by
  have hnot : s.core 0 ≠ .running := by
    rw [hprepared.stopped 0]
    exact fun h => by cases h
  have hwords (off : Off) : s.held off = some (initialBlock config off) :=
    hprepared.words _ (mem_initialWords config off)
  obtain ⟨rfl, hseen⟩ := h.before hnot
  have hcalm : Calm (Function.update s.core 0 .running) := by
    intro pru
    by_cases hpru : pru = 0
    · subst hpru
      exact .inr (Function.update_self ..)
    · exact .inl ((Function.update_of_ne hpru ..).trans (hprepared.stopped pru))
  refine ⟨?_, ?_⟩
  · refine if_pos ⟨rfl, ?_, fun word hword => ?_⟩
    · rw [h.core]
      exact hprepared.stopped 0
    · exact (h.found _ _ (Nat.le_add_right _ _) (hprepared.image word hword)).2
  · exact
      { core := by rw [Pruss.setCore, h.core]
        stored := h.stored
        file := h.file
        found := fun n w hn hw => ⟨hcalm, (h.found n w hn hw).2⟩
        held := fun off w hw => ⟨hcalm, fun _ => (h.held off w hw).2 (.inr hnot)⟩
        before := fun hstill => absurd (Function.update_self (0 : Fin 2) Core.running s.core) hstill
        calm := fun _ => hcalm
        words := fun _ off => ⟨_, hwords off, fun _ => rfl⟩
        kept := fun _ off _ => (h.held off _ (hwords off)).2 (.inr hnot)
        comingUp := fun _ => Pru.comingUp_entering config
        ready := fun _ hready => by
          rw [hseen .status] at hready
          cases hready }

/-- The words of the command block: a store of the process. -/
theorem Startup.store (h : Startup bytes config m b s d) {off : Off} {v : Word}
    (hmagic : s.core 0 = .running → off = .magic) :
    Startup bytes config { m with mailbox := Function.update m.mailbox off v }
      (boot.next b ⟨.store v (.command off), ()⟩) (s.next ⟨.store v (.command off), ()⟩) d := by
  have hheld (off' : Off) (w : Word) (hw : Function.update s.held off
      (if Calm s.core then some v else none) off' = some w) :
      (off' = off ∧ Calm s.core ∧ w = v) ∨ (off' ≠ off ∧ s.held off' = some w) := by
    by_cases heq : off' = off
    · subst heq
      rw [Function.update_self] at hw
      split at hw
      · rename_i hcalm
        exact .inl ⟨rfl, hcalm, (Option.some.inj hw).symm⟩
      · cases hw
    · rw [Function.update_of_ne heq] at hw
      exact .inr ⟨heq, hw⟩
  exact
    { core := h.core
      stored := fun off' w hw => by
        show Function.update b.stored off (some v) off' = some w
        rcases hheld off' w hw with ⟨rfl, -, rfl⟩ | ⟨heq, hw⟩
        · exact Function.update_self ..
        · rw [Function.update_of_ne heq]
          exact h.stored off' w hw
      file := h.file
      found := h.found
      held := fun off' w hw => by
        show _ ∧ (_ → Function.update m.mailbox off v off' = w)
        rcases hheld off' w hw with ⟨rfl, hcalm, rfl⟩ | ⟨heq, hw⟩
        · exact ⟨hcalm, fun _ => Function.update_self ..⟩
        · rw [Function.update_of_ne heq]
          exact h.held off' w hw
      before := h.before
      calm := h.calm
      words := fun hrunning off' => by
        obtain rfl := hmagic hrunning
        show ∃ w, Function.update s.held .magic _ off' = some w ∧ _
        by_cases heq : off' = .magic
        · subst heq
          rw [Function.update_self, if_pos (h.calm hrunning)]
          exact ⟨v, rfl, fun hne => absurd rfl hne⟩
        · rw [Function.update_of_ne heq]
          exact h.words hrunning off'
      kept := fun hrunning off' hoff' => by
        obtain rfl := hmagic hrunning
        have hne : off' ≠ .magic := by
          rintro rfl
          exact absurd hoff' (by decide)
        exact (Function.update_of_ne hne ..).trans (h.kept hrunning off' hoff')
      comingUp := h.comingUp
      ready := h.ready }

/-- A read of the command block. -/
theorem Startup.load (h : Startup bytes config m b s d) (off : Off)
    (hrunning : s.core 0 = .running) :
    boot.env b ⟨.load (.command off), m.mailbox off⟩ ∧
      Startup bytes config m (boot.next b ⟨.load (.command off), m.mailbox off⟩) s d := by
  constructor
  · intro hoff w hw
    -- the word is held as it was last stored
    obtain ⟨w', hheld, -⟩ := h.words hrunning off
    have hstored := h.stored off w' hheld
    obtain rfl : w' = w := Option.some.inj (hstored.symm.trans hw)
    exact (h.held off w' hheld).2 (.inl hoff)
  · exact
      { h with
        stored := h.stored
        file := h.file
        before := fun hnot => absurd hrunning hnot
        ready := fun _ hready => by
          have hseen : Function.update b.seen off (some (m.mailbox off)) .status =
              some statusReady := hready
          by_cases heq : Off.status = off
          · subst heq
            rw [Function.update_self, h.kept hrunning _ (by decide)] at hseen
            exact (h.comingUp hrunning).ready (Option.some.inj hseen)
          · rw [Function.update_of_ne heq] at hseen
            exact h.ready hrunning hseen }

/-- PRUSS memory is stored or read. -/
theorem Startup.memory (h : Startup bytes config m b s d) {n : Nat} {memory : Nat → Word}
    (hmemory : ∀ n' ≠ n, memory n' = m.memory n') {found : Option Word}
    (hfound : ∀ w, found = some w → Calm s.core ∧ (pru0Iram ≤ n → memory n = w)) :
    Startup bytes config { m with memory := memory } b
      { s with found := Function.update s.found n found } d :=
  { h with
    found := fun n' w hn hw => by
      by_cases heq : n' = n
      · subst heq
        have hw : Function.update s.found n' found n' = some w := hw
        rw [Function.update_self] at hw
        exact ⟨(hfound w hw).1, (hfound w hw).2 hn⟩
      · have hw : Function.update s.found n found n' = some w := hw
        rw [Function.update_of_ne heq] at hw
        obtain ⟨hcalm, hvalue⟩ := h.found n' w hn hw
        exact ⟨hcalm, (hmemory n' heq).trans hvalue⟩ }

/-- A read of PRUSS outside the command block. -/
theorem Startup.prussRead (h : Startup bytes config m b s d) {n : Nat} {v : Word}
    (hstep : serve image imageBytes bytes m ⟨.load (.pruss n), v⟩ m') :
    Startup bytes config m' b (s.read n v) d := by
  simp only [serve] at hstep
  unfold Takeover.read
  rcases hn : coreAt n with - | pru
  · rw [hn] at hstep
    obtain ⟨hv, rfl⟩ := hstep
    refine h.memory (fun _ _ => rfl) fun x hx => ?_
    split at hx
    · rename_i hcalm
      obtain rfl := Option.some.inj hx
      exact ⟨hcalm, fun hn => (hv hn).symm⟩
    · cases hx
  · rw [hn] at hstep
    obtain rfl : m' = m.setCore pru ((m.core pru).observed v) := hstep
    rw [h.core]
    exact h.eased (Core.eased_observed _ _) fun hcalm => calm_observed hcalm

/-- A store there: a core is eased, or PRU0 is started. -/
theorem Startup.prussStore (h : Startup bytes config m b s d) {n : Nat} {w : Word}
    (hstep : serve image imageBytes bytes m ⟨.store w (.pruss n), ()⟩ m')
    (hsafe : (takeover image imageBytes config).safe s ⟨.store w (.pruss n), ()⟩) :
    Startup bytes config m' b (s.stored n w) d := by
  simp only [serve] at hstep
  unfold Takeover.stored
  rcases hn : coreAt n with - | pru
  · rw [hn] at hstep
    obtain ⟨memory, hmemory, rfl⟩ := hstep
    exact h.memory hmemory fun x hx => by cases hx
  rw [hn] at hstep
  obtain rfl : m' = m.setCore pru
      ((m.core pru).commanded w (m.enabled image imageBytes pru)) := hstep
  rw [h.core]
  show Startup bytes config _ b ⟨Function.update s.core pru
    ((s.core pru).commanded w (if pru = 0 then .running else .foreign)), s.held, s.found⟩ d
  by_cases hw : w &&& 2 = 0
  · -- EN is clear
    have hcleared (enabled enabled' : Core) :
        (s.core pru).commanded w enabled = (s.core pru).commanded w enabled' := by
      unfold Core.commanded
      rw [if_neg (not_not.mpr hw), if_neg (not_not.mpr hw)]
    rw [hcleared (m.enabled image imageBytes pru) (if pru = 0 then .running else .foreign)]
    exact h.eased (Core.eased_commanded _ _ hw) fun hcalm => calm_commanded hcalm hw
  · obtain ⟨hprepared, rfl⟩ := hsafe pru hn hw
    obtain ⟨henabled, hstarted⟩ := h.start hprepared
    have hcommanded (enabled : Core) : (s.core 0).commanded w enabled = enabled := if_pos hw
    rw [hcommanded, hcommanded, henabled, if_pos rfl]
    exact hstarted

/-- An operation of `dld-init`. -/
theorem Startup.serve (h : Startup bytes config m b s d)
    (hconfig : ∀ parsed, parseConfig bytes = .ok parsed → parsed = config) {e : UEvent}
    (hstep : serve image imageBytes bytes m e m') :
    (boot.both (takeover image imageBytes config)).env (b, s) e ∧
      ((takeover image imageBytes config).safe s e →
        Startup bytes config m' (boot.next b e) (s.next e) d) := by
  obtain ⟨op, v⟩ := e
  cases op with
  | load r =>
    cases r with
    | command off =>
      obtain ⟨rfl, rfl⟩ : v = m.mailbox off ∧ m' = m := hstep
      exact ⟨⟨trivial, fun hrunning => (h.load off hrunning).1⟩,
        fun hrunning => (h.load off hrunning).2⟩
    | pruss n => exact ⟨⟨trivial, fun _ => trivial⟩, fun _ => h.prussRead hstep⟩
    | gpio bank n =>
      obtain rfl : m' = m := hstep
      exact ⟨⟨trivial, fun _ => trivial⟩, fun _ => h⟩
    | clock n =>
      obtain rfl : m' = m := hstep
      exact ⟨⟨trivial, fun _ => trivial⟩, fun _ => h⟩
  | store w r =>
    cases r with
    | command off =>
      obtain rfl : m' = { m with mailbox := Function.update m.mailbox off w } := hstep
      exact ⟨⟨trivial, fun _ => trivial⟩, fun hmagic => h.store hmagic⟩
    | pruss n => exact ⟨⟨trivial, fun _ => trivial⟩, fun hsafe => h.prussStore hstep hsafe⟩
    | gpio bank n =>
      obtain rfl : m' = m := hstep
      exact ⟨⟨trivial, fun _ => trivial⟩, fun _ => h⟩
    | clock n =>
      obtain rfl : m' = m := hstep
      exact ⟨⟨trivial, fun _ => trivial⟩, fun _ => h⟩
  | clockGettime =>
    rcases v with errno | now
    · obtain rfl : m' = m := hstep
      exact ⟨⟨trivial, fun _ => trivial⟩, fun _ => h⟩
    · obtain ⟨hnormal, rfl⟩ := hstep
      exact ⟨⟨trivial, fun _ => hnormal⟩, fun _ => h.aside rfl rfl h.file⟩
  | readFile =>
    cases v with
    | content read =>
      obtain ⟨rfl, rfl⟩ := hstep
      refine ⟨⟨hconfig, fun _ => trivial⟩, fun _ => h.aside rfl rfl fun parsed hparsed => ?_⟩
      have hparsed : (parseConfig read).toOption = some parsed := hparsed
      rcases hparse : parseConfig read with text | parsed'
      · rw [hparse] at hparsed
        cases hparsed
      · rw [hparse] at hparsed
        cases hparsed
        rfl
    | _ =>
      obtain rfl : m' = m := hstep
      exact ⟨⟨trivial, fun _ => trivial⟩, fun _ => h⟩
  | enter f =>
    obtain rfl : m' = m := hstep
    exact ⟨⟨trivial, fun _ => by cases f <;> trivial⟩,
      fun _ => by cases f <;> exact h.aside rfl rfl h.file⟩
  | _ =>
    obtain rfl : m' = m := hstep
    exact ⟨⟨trivial, fun _ => trivial⟩, fun _ => h⟩

/-- An operation of the firmware. -/
theorem Startup.device (h : Startup bytes config m b s d) {e : Pru.PruEvent}
    (hrunning : m.core 0 = .running) (hloads : Loads m.mailbox e) :
    Pru.ConfigReads config.stringLengths e ∧ (Pru.FStep tm config.stringLengths d e d' →
      Startup bytes config { m with mailbox := Pru.stored e m.mailbox } b s d') := by
  rw [h.core] at hrunning
  have hheld (off : Off) (hoff : off ∉ Pru.firmwareWords) (hmagic : off ≠ .magic) :
      m.mailbox off = initialBlock config off := by
    obtain ⟨w, hw, hvalue⟩ := h.words hrunning off
    exact ((h.held off w hw).2 (.inl hoff)).trans (hvalue hmagic)
  constructor
  · obtain ⟨op, v⟩ := e
    cases op with
    | lbco off =>
      cases off with
      | lengths i =>
        exact (hloads _ _ rfl).trans (hheld _ (by simp [Pru.firmwareWords]) (by simp))
      | _ => trivial
    | _ => trivial
  intro hstep
  have hcoming := h.comingUp hrunning
  have hrec : Pru.Recorded tm config.stringLengths d [] := hcoming.recorded
  have hseq : m.mailbox .requestSeq = 0 := hheld _ (by decide) (by decide)
  have hout := hstep.out_eq hrec
  -- the words of the process are those of before
  have hhost (off : Off) (hoff : off ∉ Pru.firmwareWords) :
      Pru.stored e m.mailbox off = m.mailbox off := by
    obtain ⟨op, v⟩ := e
    cases op with
    | sbco off' w =>
      refine Function.update_of_ne ?_ _ _
      rintro rfl
      exact hoff (hstep.store_mem hrec)
    | _ => rfl
  exact
    { h with
      held := fun off w hw => ⟨h.calm hrunning, fun hoff => by
        have hoff := hoff.resolve_right fun hnot => hnot hrunning
        exact (hhost off hoff).trans ((h.held off w hw).2 (.inl hoff))⟩
      before := fun hnot => absurd hrunning hnot
      kept := fun _ off hoff => by
        rw [hout]
        have hkept := h.kept hrunning off hoff
        obtain ⟨op, v⟩ := e
        cases op with
        | sbco off' w =>
          show Function.update m.mailbox off' w off = Function.update d.out off' w off
          rw [Function.update_apply, Function.update_apply, hkept]
        | _ => exact hkept
      comingUp := fun _ => hcoming.step hloads hseq hstep
      ready := fun _ hready => by
        have hphase := h.ready hrunning hready
        rw [poll_stays hphase (hseq.trans hcoming.1.symm) hloads hstep]
        exact hphase }

end Startup

/-! ### The board is upheld -/

/-- The monitors of `dld-init` and of the firmware, and the invariant. -/
def startup (tm : Pru.Timing) (image : Nat → Word) (imageBytes : Nat) (bytes : List UInt8)
    (config : DldConfig) : Proofs Unit UOp UOp.Res Pru.PruOp Pru.PruOp.Res (Pru.Label × Pru.Regs)
      Pruss (Boot × Takeover) Pru.FState where
  client _ := boot.both (takeover image imageBytes config)
  device := Pru.firmware tm config.stringLengths
  label := Pru.Control tm config.stringLengths
  inv m g d := Startup bytes config m (g ()).1 (g ()).2 d

theorem startup_upholds {tm : Pru.Timing} {image : Nat → Word} {imageBytes : Nat}
    {bytes : List UInt8} {config : DldConfig}
    (hconfig : ∀ parsed, parseConfig bytes = .ok parsed → parsed = config) :
    (startup tm image imageBytes bytes config).Upholds (bringup tm image imageBytes bytes) where
  label := Pru.firmware_invariant tm config.stringLengths
  client := by
    rintro m g d i e m' hinv ⟨m₁, hstirred, hstep⟩
    obtain ⟨henv, hnext⟩ := Startup.serve (Startup.stirred hinv hstirred) hconfig hstep
    refine ⟨henv, fun hsafe => ?_⟩
    show Startup bytes config m' (Function.update g i _ ()).1 (Function.update g i _ ()).2 d
    rw [Function.update_self]
    exact hnext hsafe.2
  device := by
    rintro m g d e m' hinv ⟨hrunning, hloads, rfl⟩
    have hdevice (d' : Pru.FState) :=
      @Startup.device bytes config m (g ()).1 (g ()).2 d d' tm hinv e hrunning hloads
    exact ⟨(hdevice d).1, fun hsafe => (hdevice _).2 (Pru.FStep.of_safe hsafe)⟩

/-! ### The theorem -/

/-- The words of the firmware are those that it stores with READY. -/
theorem mem_readyStores (profile : Word) (lengths : Fin 6 → Word) {off : Off}
    (h : off ∈ Pru.firmwareWords) :
    (off, startedMailbox profile lengths off) ∈ Pru.readyStores := by
  cases off with
  | completionSeq | status | errorDetail | bankReady | bankDone | acceptedSeq =>
    simp [startedMailbox, Pru.readyStores, errorNone]
  | _ => simp [Pru.firmwareWords] at h

/-- The block of a session that has just been started passes the check of
every sender. -/
theorem startedMailbox_accepted {config : DldConfig} (h : config.Supported) (unset : DldConfig)
    (error : String) (cap : Nat) :
    dldCheckMailbox (startedMailbox config.profileId config.stringLengths) unset error cap =
      (.ok, config, error) := by
  have hlengths : ¬ ∃ i, config.stringLengths i > maxLength := by
    rintro ⟨i, hi⟩
    exact absurd hi (BitVec.not_lt.mpr (h.lengths i))
  have hprofile := h.profile
  rw [dldCheckMailbox, if_neg (by simp [startedMailbox, hprofile]),
    if_neg (by simpa [startedMailbox] using hlengths)]
  simp [startedMailbox, configOf]

section Run

variable {tm : Pru.Timing} {image : Nat → Word} {imageBytes : Nat} {bytes : List UInt8}
variable {config : DldConfig} {m : Pruss} {b : Boot} {s : Takeover} {d : Pru.FState}

/-- The block of a started firmware that has been seen READY. -/
theorem Startup.ready_mailbox (h : Startup bytes config m b s d) (hstarted : s.Started config)
    (hready : b.seen .status = some statusReady) :
    m.mailbox = startedMailbox config.profileId config.stringLengths := by
  have hphase := h.ready hstarted.running hready
  obtain ⟨-, hwords⟩ := h.comingUp hstarted.running
  rw [hphase] at hwords
  funext off
  by_cases hoff : off ∈ Pru.firmwareWords
  · rw [h.kept hstarted.running off hoff]
    exact hwords _ (mem_readyStores _ _ hoff)
  · have hheld := hstarted.words _ (mem_initialWords config off)
    rw [(h.held off _ hheld).2 (.inl hoff), initialBlock, Function.update_of_ne]
    rintro rfl
    exact hoff (by decide)

end Run

section Exit

variable {tm : Pru.Timing} {fuel : Nat} {image : Nat → Word} {imageBytes : Nat}
variable {args : List String} {bytes : List UInt8} {mailbox : DldCommand} {memory : Nat → Word}
variable {r : Pru.Regs} {t : List BringupAct} {w : BringupState} {code : DldExitCode}

/-- The configuration of the file. -/
def configured (bytes : List UInt8) : DldConfig := (parseConfig bytes).toOption.getD default

theorem eq_configured (parsed : DldConfig) (h : parseConfig bytes = .ok parsed) :
    parsed = configured bytes := by
  rw [configured, h]
  rfl

/-- Nothing is known when the process starts. -/
theorem startup_start : (startup tm image imageBytes bytes (configured bytes)).Good
    (fun _ g code => g.1.Outcome code ∧ g.2.Outcome (configured bytes) code)
    (leftWith tm fuel image imageBytes args mailbox memory r) (fun _ => ({}, {}))
    (Pru.entering (configured bytes)) where
  inv :=
    { core := rfl
      stored := fun _ _ h => by cases h
      file := fun _ h => by cases h
      found := fun _ _ _ h => by cases h
      held := fun _ _ h => by cases h
      before := fun _ => ⟨rfl, fun _ => rfl⟩
      calm := fun h => by cases h
      words := fun h => by cases h
      kept := fun h => by cases h
      comingUp := fun h => by cases h
      ready := fun h => by cases h }
  client := fun _ => Monitor.both_wp (wp_dldInit args) (wp_dldInit_takeover args)
  device := Pru.firmware_invariant tm _ (.start, r) _ ⟨rfl, rfl⟩

/-- What an exit with zero tells. -/
theorem brought_up
    (hrun : (bringup tm image imageBytes bytes).Run
      (leftWith tm fuel image imageBytes args mailbox memory r) t w)
    (hexit : w.clients () = .ret .ok) :
    ∃ config, parseConfig bytes = .ok config ∧
      w.mem.mailbox = startedMailbox config.profileId config.stringLengths ∧
      Calm w.mem.core ∧ w.mem.core 0 = .running ∧ Awaits tm w.mem.mailbox w.device := by
  have hend := Proofs.Good.run (startup_upholds eq_configured) startup_start hrun
  have hinv : Startup bytes (configured bytes) w.mem _ _ _ := hend.inv
  have houtcome := hend.client ()
  rw [hexit] at houtcome
  obtain ⟨hboot, htakeover⟩ := houtcome
  have hdevice := hend.device
  let P := startup tm image imageBytes bytes (configured bytes)
  generalize (P.watched (fun _ => ({}, {})) t ()).1 = b at *
  generalize (P.watched (fun _ => ({}, {})) t ()).2 = s at *
  generalize P.watchedDevice (Pru.entering (configured bytes)) t = d at *
  obtain ⟨state, parsed, -, -, hseen, hfile, -, hstatus, -⟩ := hboot.1 rfl
  have hparse := hinv.file parsed hfile
  obtain rfl := eq_configured parsed hparse
  have hstarted := htakeover.1 rfl
  have hready : b.seen .status = some statusReady := by rw [hseen, hstatus]
  have hmailbox := hinv.ready_mailbox hstarted hready
  refine ⟨_, hparse, hmailbox, ?_, ?_, d, hinv.ready hstarted.running hready, ?_, ?_, ?_⟩
  · rw [hinv.core]
    exact hstarted.calm
  · rw [hinv.core]
    exact hstarted.running
  · rw [(hinv.comingUp hstarted.running).1, hmailbox]
    rfl
  · exact hinv.kept hstarted.running
  · rw [hmailbox]
    exact hdevice

end Exit

/-- **Bring-up.**  Whatever the cores, the command block and the instruction
RAM were left with, and whatever a core does until it is stopped: when
`dld-init` has exited with zero, both cores are under control, PRU0 executes
the image, the command block is that of a fresh session with the
configuration of the file, which every sender accepts, and the firmware waits
in its request loop.  When it has exited with anything else and the cores are
under control, the block has no magic. -/
theorem bring_up (tm : Pru.Timing) (fuel : Nat) (image : Nat → Word) (imageBytes : Nat)
    (args : List String) (bytes : List UInt8) (mailbox : DldCommand) (memory : Nat → Word)
    (r : Pru.Regs) (t : List BringupAct) (w : BringupState) (code : DldExitCode)
    (hrun : (bringup tm image imageBytes bytes).Run
      (leftWith tm fuel image imageBytes args mailbox memory r) t w)
    (hexit : w.clients () = .ret code) :
    (code = .ok → ∃ config, parseConfig bytes = .ok config ∧
      w.mem.mailbox = startedMailbox config.profileId config.stringLengths ∧
      (∀ unset error cap, dldCheckMailbox w.mem.mailbox unset error cap = (.ok, config, error)) ∧
      Calm w.mem.core ∧ w.mem.core 0 = .running ∧ Awaits tm w.mem.mailbox w.device) ∧
    (code ≠ .ok → Calm w.mem.core → w.mem.mailbox .magic = 0) := by
  constructor
  · rintro rfl
    obtain ⟨config, hparse, hmailbox, hcalm, hrunning, hawaits⟩ := brought_up hrun hexit
    refine ⟨config, hparse, hmailbox, ?_, hcalm, hrunning, hawaits⟩
    rw [hmailbox]
    exact startedMailbox_accepted (parseConfig_supported hparse)
  · intro hbad hcalm
    have hend := Proofs.Good.run (startup_upholds eq_configured) startup_start hrun
    have hinv : Startup bytes (configured bytes) w.mem _ _ _ := hend.inv
    have houtcome := hend.client ()
    rw [hexit] at houtcome
    rw [hinv.core] at hcalm
    exact (hinv.held .magic 0 (houtcome.2.2 hbad hcalm)).2 (.inl (by decide))

section Board

open Pru

/-- PRUSS after an operation of `dld-init`; the instruction RAM reads zero. -/
def Pruss.perform (image : Nat → Word) (imageBytes : Nat) (m : Pruss) (e : UEvent) : Pruss :=
  match e with
  | ⟨.store v (.command off), _⟩ => { m with mailbox := Function.update m.mailbox off v }
  | ⟨.load (.pruss n), v⟩ =>
    match coreAt n with
    | some pru => m.setCore pru ((m.core pru).observed v)
    | none => m
  | ⟨.store v (.pruss n), _⟩ =>
    match coreAt n with
    | some pru => m.setCore pru ((m.core pru).commanded v (m.enabled image imageBytes pru))
    | none => m
  | _ => m

/-- The operation can happen on PRUSS. -/
def Pruss.answers (bytes : List UInt8) (m : Pruss) (e : UEvent) : Bool :=
  match e with
  | ⟨.load (.command off), v⟩ => v = m.mailbox off
  | ⟨.load (.pruss n), v⟩ => (coreAt n).isSome || decide (pru0Iram ≤ n → v = m.memory n)
  | ⟨.clockGettime, .ok now⟩ => decide (0 ≤ now.2 ∧ now.2 < 1000000000)
  | ⟨.readFile, .content read⟩ => read = bytes
  | _ => true

/-- Every operation can happen where it does. -/
def Pruss.hears (image : Nat → Word) (imageBytes : Nat) (bytes : List UInt8) :
    Pruss → List UEvent → Bool
  | _, [] => true
  | m, e :: t => m.answers bytes e && (m.perform image imageBytes e).hears image imageBytes bytes t

theorem serve_perform {image : Nat → Word} {imageBytes : Nat} {bytes : List UInt8} {m : Pruss}
    {e : UEvent} (h : m.answers bytes e = true) :
    serve image imageBytes bytes m e (m.perform image imageBytes e) := by
  obtain ⟨op, v⟩ := e
  cases op with
  | load reg =>
    cases reg with
    | command off => exact ⟨of_decide_eq_true h, rfl⟩
    | pruss n =>
      simp only [Pruss.answers, Bool.or_eq_true, decide_eq_true_eq] at h
      simp only [serve, Pruss.perform]
      cases hcore : coreAt n with
      | some pru => rfl
      | none => exact ⟨h.resolve_left (by simp [hcore]), rfl⟩
    | _ => rfl
  | store w reg =>
    cases reg with
    | command off => rfl
    | pruss n =>
      simp only [serve, Pruss.perform]
      cases coreAt n with
      | some pru => rfl
      | none => exact ⟨m.memory, fun _ _ => rfl, rfl⟩
    | _ => rfl
  | clockGettime =>
    cases v with
    | ok now => exact ⟨of_decide_eq_true h, rfl⟩
    | error errno => rfl
  | readFile =>
    cases v with
    | content read => exact ⟨of_decide_eq_true h, rfl⟩
    | _ => rfl
  | _ => rfl

theorem through_serve (tm : Timing) {image : Nat → Word} {imageBytes : Nat} {bytes : List UInt8}
    {m : Pruss} {t : List UEvent} (h : m.hears image imageBytes bytes t = true) :
    Through ((bringup tm image imageBytes bytes).client ()) m t
      (t.foldl (Pruss.perform image imageBytes) m) := by
  induction t generalizing m with
  | nil => exact .nil m
  | cons e t ih =>
    obtain ⟨hanswers, hrest⟩ := Bool.and_eq_true_iff.mp h
    exact .cons ⟨m, ⟨rfl, fun _ => rfl⟩, serve_perform hanswers⟩ (ih hrest)

/-- A piece of the firmware that reads the configuration it is given. -/
theorem through_running {tm : Timing} {image : Nat → Word} {imageBytes : Nat}
    {bytes : List UInt8} {m : Pruss} {t : List PruEvent} (hrunning : m.core 0 = .running)
    (h : Pru.heard m.mailbox t = true) :
    Through (bringup tm image imageBytes bytes).device m t
      { m with mailbox := storedAll t m.mailbox } := by
  induction t generalizing m with
  | nil => exact .nil m
  | cons e t ih =>
    obtain ⟨hread, hrest⟩ := Bool.and_eq_true_iff.mp h
    have htail := ih (m := { m with mailbox := stored e m.mailbox }) hrunning hrest
    refine .cons ⟨hrunning, ?_, rfl⟩ htail
    rintro off v rfl
    exact of_decide_eq_true hread

/-- The settle wait does not touch the mailbox. -/
theorem through_resting {tm : Timing} {image : Nat → Word} {imageBytes : Nat}
    {bytes : List UInt8} {m : Pruss} (hrunning : m.core 0 = .running) (r5 : Word) (n : Nat) :
    Through (bringup tm image imageBytes bytes).device m (delayEv r5 :: idle n ++ [aluEv]) m := by
  have hloads {e : PruEvent} (he : ∀ off v, e ≠ ⟨.lbco off, v⟩) : Loads m.mailbox e :=
    fun off v h => absurd h (he off v)
  have halu : (bringup tm image imageBytes bytes).device m aluEv m :=
    ⟨hrunning, hloads (by rintro _ _ ⟨⟩), rfl⟩
  have hidle : Through (bringup tm image imageBytes bytes).device m (idle n) m := by
    induction n with
    | zero => exact .nil m
    | succ n ih => exact .cons halu ih
  exact .cons ⟨hrunning, hloads (by rintro _ _ ⟨⟩), rfl⟩ (hidle.append (.cons halu (.nil m)))

/-- Five pixels on string 3. -/
def stripText : String :=
  "\x7b\"pixel_type\":\"ws2812b\",\"string_lengths\":[0,0,0,5,0,0]\x7d"

def stripBytes : List UInt8 := stripText.toList.map fun c => UInt8.ofNat c.toNat

/-- A board on which everything works, with that file. -/
def stripBoard (m : DldCommand × Nat) : (o : UOp) → Option (o.Res × (DldCommand × Nat))
  | .readFile => some (.content stripBytes, m)
  | o => workingBoard m o

/-- The operations of `dld-init` on it. -/
def stripSession : List UEvent :=
  let run := (dldInit 2 (fun _ => 0) 4 ["config"]).tryExec stripBoard (fun _ => 0, 3)
  (run.map Prod.fst).getD []

/-- PRUSS once PRU0 has been enabled. -/
def stripStarted : Pruss :=
  (stripSession.take 115).foldl (Pruss.perform (fun _ => 0) 4)
    ⟨fun _ => 0, fun _ => 0, fun _ => .foreign⟩

/-- The operations of `START`, but for its settle wait. -/
def stripStores : List PruEvent := oneBankBoot ++ ((publishReady oneBankRegs).exec silent).1

/-- PRUSS once READY has been published. -/
def stripReady : Pruss :=
  { stripStarted with mailbox := storedAll stripStores stripStarted.mailbox }

/-- The pieces fit: each finds what the one before has left. -/
theorem stripSession_hears :
    Pruss.hears (fun _ => 0) 4 stripBytes ⟨fun _ => 0, fun _ => 0, fun _ => .foreign⟩
      (stripSession.take 115) = true ∧
    stripStarted.core 0 = .running ∧ Pru.heard stripStarted.mailbox oneBankBoot = true ∧
    Pruss.hears (fun _ => 0) 4 stripBytes stripReady (stripSession.drop 115) = true := by
  decide +kernel

/-- `dld-init` brings up the board. -/
theorem strip_run : ∃ t w,
    (bringup profileTiming (fun _ => 0) 4 stripBytes).Run
      (leftWith profileTiming 2 (fun _ => 0) 4 ["config"] (fun _ => 0) (fun _ => 0) default) t w ∧
    w.clients () = .ret .ok ∧ w.device = code profileTiming (.requestLoop, oneBankRegs) := by
  obtain ⟨hheard₁, hrunning, hheard₂, hheard₃⟩ := stripSession_hears
  have hsession : ∃ r, (dldInit 2 (fun _ => 0) 4 ["config"]).tryExec stripBoard
      (fun _ => 0, 3) = some r := Option.isSome_iff_exists.mp (by decide +kernel)
  have hcode : ∀ r ∈ (dldInit 2 (fun _ => 0) 4 ["config"]).tryExec stripBoard (fun _ => 0, 3),
      r.2 = .ok := by decide +kernel
  obtain ⟨⟨u, code⟩, hsession⟩ := hsession
  have hu : stripSession = u := by rw [stripSession, hsession]; rfl
  have hruns : (dldInit 2 (fun _ => 0) 4 ["config"]).Runs stripSession .ok := by
    rw [hu, ← hcode _ hsession]
    exact Prog.tryExec_runs hsession
  rw [← List.take_append_drop 115 stripSession] at hruns
  obtain ⟨p, hfirst, hrest⟩ := hruns.split
  have hboot : Through (bringup profileTiming (fun _ => 0) 4 stripBytes).device stripStarted
      oneBankStart stripReady := by
    have hready : Pru.heard (storedAll oneBankBoot stripStarted.mailbox)
        ((publishReady oneBankRegs).exec silent).1 = true := rfl
    rw [stripReady, stripStores, storedAll, List.foldl_append]
    generalize stripStarted = m at *
    exact (through_running hrunning hheard₂).append
      ((through_resting hrunning 40400 _).append (through_running hrunning hready))
  have hthrough₁ := through_serve profileTiming hheard₁
  have hthrough₃ := through_serve profileTiming hheard₃
  have hsteps : Machine.Steps (Pru.code profileTiming) _ oneBankStart _ := .of_runs oneBankStart_runs
  clear hheard₁ hheard₂ hheard₃ hrunning
  rw [← stripStarted] at hthrough₁
  generalize stripStarted = m₁ at *
  generalize stripReady = m₂ at *
  have h₁ := System.run_of_client (S := bringup profileTiming (fun _ => 0) 4 stripBytes) (i := ())
    (w := leftWith profileTiming 2 (fun _ => 0) 4 ["config"] (fun _ => 0) (fun _ => 0) default)
    hfirst hthrough₁
  have h₂ := h₁.append (System.run_of_device (by simp [oneBankStart]) hsteps hboot)
  have h₃ := h₂.append (System.run_of_client (i := ()) (by simpa using hrest.steps) hthrough₃)
  exact ⟨_, _, h₃, by simp, rfl⟩

end Board

/-- A board that was left with zeros, and the file with five pixels. -/
theorem bring_up_board : ∃ t w,
    (bringup Pru.profileTiming (fun _ => 0) 4 stripBytes).Run
      (leftWith Pru.profileTiming 2 (fun _ => 0) 4 ["config"] (fun _ => 0) (fun _ => 0) default) t w ∧
    w.clients () = .ret .ok ∧ ∃ config, parseConfig stripBytes = .ok config ∧
      w.mem.mailbox = startedMailbox config.profileId config.stringLengths ∧
      Awaits Pru.profileTiming w.mem.mailbox w.device := by
  obtain ⟨t, w, hrun, hexit, -⟩ := strip_run
  obtain ⟨config, hparse, hmailbox, -, -, -, hawaits⟩ :=
    (bring_up _ _ _ _ _ _ _ _ _ _ _ .ok hrun hexit).1 rfl
  exact ⟨t, w, hrun, hexit, config, hparse, hmailbox, hawaits⟩

end Dld
