/-
DldDriver/Userspace/Readiness.lean

`dld-init` starts the firmware completely or leaves nothing behind.  The
monitor `boot` keeps what the process last stored in the command block, what
it last read there, and the two clock readings that bound the readiness
wait.

    Beside     what a program among the peripherals leaves alone
    Armed      the command block holds the configuration of the file
    Ready      the last snapshot is that of a ready firmware, in time

The firmware may write its own words and no others; the clock may do
anything but denormalize.
-/
import DldDriver.Firmware.Gate
import DldDriver.Session
import DldDriver.Userspace.DldInit
import DldDriver.Userspace.Footprint

namespace Dld

open Interaction

/-! ### What is watched -/

/-- The process as far as the start of the firmware is concerned. -/
structure Boot where
  /-- `dld_hw_take_control` has been entered, `dld_hw_cleanup` has -/
  taken : Bool := false
  cleaned : Bool := false
  /-- the words of the command block as last stored by this process -/
  stored : Off → Option Word := fun _ => none
  /-- the configuration that the file holds -/
  file : Option DldConfig := none
  /-- the words of the command block as last read -/
  seen : Off → Option Word := fun _ => none
  /-- the first clock reading since the last store to the command block -/
  begun : Option Timespec := none
  /-- the last clock reading since the last load from it -/
  last : Option Timespec := none

def Boot.next (s : Boot) : UEvent → Boot
  | ⟨.store v (.command off), _⟩ => { s with
      stored := Function.update s.stored off (some v), begun := none }
  | ⟨.load (.command off), v⟩ => { s with
      seen := Function.update s.seen off (some v), last := none }
  | ⟨.clockGettime, .ok now⟩ => { s with
      begun := s.begun <|> some now, last := some now }
  | ⟨.readFile, .content bytes⟩ => { s with file := (parseConfig bytes).toOption }
  | ⟨.enter .takeControl, _⟩ => { s with taken := true }
  | ⟨.enter .hwCleanup, _⟩ => { s with cleaned := true }
  | _ => s

/-- A word of the host reads as it was stored, and nanoseconds are fewer than
a second. -/
def Boot.Promised (s : Boot) : UEvent → Prop
  | ⟨.load (.command off), v⟩ => off ∉ Pru.firmwareWords → ∀ w ∈ s.stored off, v = w
  | ⟨.clockGettime, .ok now⟩ => 0 ≤ now.2 ∧ now.2 < 1000000000
  | _ => True

/-- Nothing is stored before control is taken. -/
def boot : Monitor UOp UOp.Res Boot where
  env := Boot.Promised
  safe s e := match e with
    | ⟨.store .., _⟩ => s.taken = true
    | _ => True
  next := Boot.next

instance (s : Boot) : (e : UEvent) → Decidable (boot.env s e)
  | ⟨.load (.command off), v⟩ =>
    -- the word is found by looking at `stored`, not by trying them all
    have : Decidable (∀ w ∈ s.stored off, v = w) := Option.decidableForallMem (s.stored off)
    inferInstanceAs (Decidable (off ∉ Pru.firmwareWords → ∀ w ∈ s.stored off, v = w))
  | ⟨.clockGettime, .ok now⟩ => inferInstanceAs (Decidable (0 ≤ now.2 ∧ now.2 < 1000000000))
  | ⟨.clockGettime, .error _⟩ | ⟨.load (.pruss _), _⟩ | ⟨.load (.gpio ..), _⟩
  | ⟨.load (.clock _), _⟩ | ⟨.openFile _, _⟩ | ⟨.mmap .., _⟩ | ⟨.store .., _⟩ | ⟨.barrier, _⟩
  | ⟨.cancelled, _⟩ | ⟨.sigaction, _⟩ | ⟨.nanosleep, _⟩ | ⟨.close _, _⟩ | ⟨.fstatRegular _, _⟩
  | ⟨.flockExclusive _, _⟩ | ⟨.flockUnlock _, _⟩ | ⟨.geteuid, _⟩ | ⟨.munmap _, _⟩
  | ⟨.opendir, _⟩ | ⟨.readdir, _⟩ | ⟨.closedir, _⟩ | ⟨.readNumber .., _⟩ | ⟨.readFile, _⟩
  | ⟨.ioctl .., _⟩ | ⟨.strerror, _⟩ | ⟨.printError _, _⟩ | ⟨.print _, _⟩ | ⟨.enter _, _⟩
  | ⟨.leave .., _⟩ | ⟨.running, _⟩ => inferInstanceAs (Decidable True)

/-- A reading of the clock in nanoseconds. -/
def Timespec.ns (t : Timespec) : Int := t.1 * 1000000000 + t.2

/-- The last snapshot shows a firmware that is ready for its first frame
with the configuration of the file; it was complete less than 100 ms after
the first clock reading that followed the filling of the block. -/
def Boot.Ready (s : Boot) : Prop :=
  ∃ state config begun now,
    (∀ off, s.seen off = some (state off)) ∧ s.file = some config ∧
    (∀ unset error cap, dldCheckMailbox state unset error cap = (.ok, config, error)) ∧
    state .status = statusReady ∧ (∀ off ∈ readyWords, state off = 0) ∧
    s.begun = some begun ∧ s.last = some now ∧ now.ns < begun.ns + 100000000

/-- What `dld-init` leaves behind when it exits with `code`. -/
def Boot.Outcome (s : Boot) (code : DldExitCode) : Prop :=
  (code = .ok → s.Ready) ∧
    (code ≠ .ok → s.taken = false ∨ (s.cleaned = true ∧ s.stored .magic = some 0))

/-! ### The deadline -/

/-- In nanoseconds, `expired` is a comparison. -/
theorem expired_iff {now deadline : Timespec} (hnow : 0 ≤ now.2 ∧ now.2 < 1000000000)
    (hdeadline : 0 ≤ deadline.2 ∧ deadline.2 < 1000000000) :
    expired now deadline = true ↔ deadline.ns ≤ now.ns := by
  simp only [expired, decide_eq_true_eq, Timespec.ns]
  omega

theorem readyDeadline_ns (now : Timespec) : (readyDeadline now).ns = now.ns + 100000000 := by
  unfold readyDeadline
  split <;> simp only [Timespec.ns] <;> omega

theorem readyDeadline_normal {now : Timespec} (h : 0 ≤ now.2 ∧ now.2 < 1000000000) :
    0 ≤ (readyDeadline now).2 ∧ (readyDeadline now).2 < 1000000000 := by
  unfold readyDeadline
  split <;> dsimp only <;> omega

/-! ### What the peripherals leave alone -/

variable {α : Type} {s s' : Boot} {Q : Boot → α → Prop}

/-- Only the clock and the words read may have moved on. -/
structure Beside (s s' : Boot) : Prop where
  taken : s'.taken = s.taken
  cleaned : s'.cleaned = s.cleaned
  stored : s'.stored = s.stored
  file : s'.file = s.file
  begun : ∀ now, s.begun = some now → s'.begun = some now

theorem Beside.refl (s : Boot) : Beside s s := ⟨rfl, rfl, rfl, rfl, fun _ h => h⟩

theorem Beside.trans {s'' : Boot} (h : Beside s s') (h' : Beside s' s'') : Beside s s'' :=
  ⟨h'.taken.trans h.taken, h'.cleaned.trans h.cleaned, h'.stored.trans h.stored,
    h'.file.trans h.file, fun now hnow => h'.begun now (h.begun now hnow)⟩

/-- A reading of the clock. -/
theorem Beside.clock (s : Boot) (now : Except Int Timespec) :
    Beside s (boot.next s ⟨.clockGettime, now⟩) := by
  rcases now with errno | now
  · exact .refl s
  · refine ⟨rfl, rfl, rfl, rfl, fun begun h => ?_⟩
    show (s.begun <|> some now) = some begun
    rw [h]
    rfl

theorem Beside.load (s : Boot) (off : Off) (v : Word) :
    Beside s (boot.next s ⟨.load (.command off), v⟩) :=
  ⟨rfl, rfl, rfl, rfl, fun _ h => h⟩

/-- Everything behind the mappings but the command block, the descriptors
and the lock. -/
def outside : Reach where
  reads r := ∀ off, r ≠ .command off
  writes r := ∀ off, r ≠ .command off
  handles := True

/-- The descriptors and the lock alone. -/
def handlesOnly : Reach where
  reads _ := False
  writes _ := False
  handles := True

theorem boot_outside {e : UEvent} (he : outside.allows e) (htaken : s.taken = true) :
    boot.safe s e ∧ Beside s (boot.next s e) := by
  obtain ⟨op, v⟩ := e
  cases op with
  | load r =>
    rcases r with off | offset | ⟨bank, offset⟩ | offset
    · exact absurd rfl (he off)
    all_goals exact ⟨trivial, .refl s⟩
  | store w r =>
    rcases r with off | offset | ⟨bank, offset⟩ | offset
    · exact absurd rfl (he off)
    all_goals exact ⟨htaken, .refl s⟩
  | clockGettime => exact ⟨trivial, .clock s v⟩
  | _ => first | exact he.elim | exact ⟨trivial, .refl s⟩

theorem boot_handlesOnly {e : UEvent} (he : handlesOnly.allows e) :
    boot.safe s e ∧ Beside s (boot.next s e) := by
  obtain ⟨op, v⟩ := e
  cases op with
  | clockGettime => exact ⟨trivial, .clock s v⟩
  | _ => first | exact he.elim | exact ⟨trivial, .refl s⟩

/-- A program among the peripherals, with what is known of its result. -/
theorem wp_outside {p : UProg α} {R : α → Prop} (hp : p.Emits outside.allows)
    (hR : p.All fun _ a => R a) (htaken : s.taken = true)
    (hQ : ∀ s' a, Beside s s' → R a → Q s' a) : boot.wp p s Q := by
  have hbeside : boot.wp p s fun s' _ => Beside s s' := by
    refine Monitor.wp_invariant hp (.refl s) fun s' e he hs' _ => ?_
    obtain ⟨hsafe, hnext⟩ := boot_outside he (hs'.taken.trans htaken)
    exact ⟨hsafe, hs'.trans hnext⟩
  refine Monitor.wp_mono (Monitor.wp_all hbeside hR) ?_
  rintro s' a ⟨hs', -, -, ha⟩
  exact hQ s' a hs' ha

theorem wp_outside' {p : UProg α} (hp : p.Emits outside.allows) (htaken : s.taken = true)
    (hQ : ∀ s' a, Beside s s' → Q s' a) : boot.wp p s Q :=
  wp_outside (R := fun _ => True) hp (Prog.all_of_forall fun _ _ => trivial) htaken
    fun s' a hs' _ => hQ s' a hs'

theorem wp_handlesOnly {p : UProg α} {R : α → Prop} (hp : p.Emits handlesOnly.allows)
    (hR : p.All fun _ a => R a) (hQ : ∀ s' a, Beside s s' → R a → Q s' a) : boot.wp p s Q := by
  have hbeside : boot.wp p s fun s' _ => Beside s s' := by
    refine Monitor.wp_invariant hp (.refl s) fun s' e he hs' _ => ?_
    obtain ⟨hsafe, hnext⟩ := boot_handlesOnly he
    exact ⟨hsafe, hs'.trans hnext⟩
  refine Monitor.wp_mono (Monitor.wp_all hbeside hR) ?_
  rintro s' a ⟨hs', -, -, ha⟩
  exact hQ s' a hs' ha

theorem wp_report {Q : Boot → String → Prop} (hQ : ∀ text, Q s text) :
    boot.wp strerror s Q :=
  fun text _ => ⟨trivial, hQ text⟩

/-! ### The readiness wait -/

/-- The command block holds a supported configuration, the one of the file. -/
structure Armed (config : DldConfig) (s : Boot) : Prop where
  supported : config.Supported
  file : s.file = some config
  magic : s.stored .magic = some commandMagic
  abi : s.stored .abiVersion = some abiVersion
  profile : s.stored .profileId = some config.profileId
  lengths : ∀ i, s.stored (.lengths i) = some (config.stringLengths i)

theorem Armed.beside {config : DldConfig} (h : Armed config s) (hs : Beside s s') :
    Armed config s' := by
  obtain ⟨hsupported, hfile, hmagic, habi, hprofile, hlengths⟩ := h
  exact ⟨hsupported, hs.file.trans hfile, by rw [hs.stored, hmagic], by rw [hs.stored, habi],
    by rw [hs.stored, hprofile], fun i => by rw [hs.stored, hlengths]⟩

/-- A snapshot agrees with what the host has stored. -/
structure Snapshot (s : Boot) (state : DldCommand) : Prop where
  seen : ∀ off, s.seen off = some (state off)
  stored : ∀ off, off ∉ Pru.firmwareWords → ∀ w, s.stored off = some w → state off = w

theorem wp_loadWords_boot {Q : Boot → DldCommand → Prop} {snapshot : DldCommand} {offs : List Off}
    (h : ∀ off ∉ offs, s.seen off = some (snapshot off) ∧
      (off ∉ Pru.firmwareWords → ∀ w, s.stored off = some w → snapshot off = w))
    (hnil : s.last = none)
    (hQ : ∀ s' state, Beside s s' → Snapshot s' state → Q s' state) :
    boot.wp (loadWords snapshot offs) s Q := by
  induction offs generalizing s snapshot with
  | nil =>
    exact hQ s snapshot (.refl s)
      ⟨fun off => (h off List.not_mem_nil).1, fun off => (h off List.not_mem_nil).2⟩
  | cons off rest ih =>
    refine Monitor.wp_op_bind fun v henv => ⟨trivial, ih (fun other hother => ?_) rfl ?_⟩
    · show Function.update s.seen off (some v) other = _ ∧ _
      by_cases heq : other = off
      · subst heq
        rw [Function.update_self, Function.update_self]
        exact ⟨rfl, henv⟩
      · rw [Function.update_of_ne heq, Function.update_of_ne heq]
        exact h other fun hmem => (List.mem_cons.mp hmem).elim heq hother
    · intro s' state hs' hstate
      exact hQ s' state ((Beside.load s off v).trans hs') hstate

theorem wp_dldSnapshot_boot {Q : Boot → DldCommand → Prop}
    (hQ : ∀ s' state, Beside s s' → Snapshot s' state → Q s' state) :
    boot.wp dldSnapshot s Q := by
  refine Monitor.wp_op_bind fun status henv => ⟨trivial, ?_⟩
  refine Monitor.wp_op_bind fun _ _ => ⟨trivial, ?_⟩
  refine wp_loadWords_boot (fun off hoff => ?_) rfl fun s' state hs' hstate =>
    hQ s' state ((Beside.load s .status status).trans hs') hstate
  -- only `status` is missing from the list
  have hoff : off = .status := by
    cases off with
    | lengths i => exact absurd (by simp [snapshotOrder]) hoff
    | status => rfl
    | _ => exact absurd (by decide) hoff
  subst hoff
  show Function.update s.seen .status (some status) .status = _ ∧ _
  rw [Function.update_self]
  exact ⟨rfl, henv⟩

/-- A ready firmware over a block that holds the configuration passes the
check of every later sender. -/
theorem Armed.accepted {config : DldConfig} {state : DldCommand} (h : Armed config s)
    (hstate : Snapshot s state) (herror : state .errorDetail = 0)
    (hstatus : state .status = statusReady) (hzero : ∀ off ∈ readyWords, state off = 0)
    (unset : DldConfig) (error : String) (cap : Nat) :
    dldCheckMailbox state unset error cap = (.ok, config, error) := by
  have hhost {off : Off} {w : Word} (hoff : off ∉ Pru.firmwareWords)
      (hw : s.stored off = some w) : state off = w := hstate.stored off hoff w hw
  have hconfig : configOf state = config := by
    have hprofile : state .profileId = config.profileId := hhost (by decide) h.profile
    have hlengths (i : Fin 6) : state (.lengths i) = config.stringLengths i :=
      hhost (by simp [Pru.firmwareWords]) (h.lengths i)
    simp only [configOf, hprofile, hlengths]
  have hprofile : dldProfileName (state .profileId) ≠ none := by
    have h := h.supported.profile
    rwa [← hconfig] at h
  have hlengths : ¬ ∃ i, state (.lengths i) > maxLength := by
    rintro ⟨i, hi⟩
    have h := h.supported.lengths i
    rw [← hconfig] at h
    exact absurd hi (BitVec.not_lt.mpr h)
  have hmagic := hhost (by decide) h.magic
  have habi := hhost (by decide) h.abi
  rw [dldCheckMailbox, if_neg (by simp [hmagic, habi, hprofile]),
    if_neg hlengths]
  simp [herror, hstatus, hzero .requestSeq (by decide),
    hzero .completionSeq (by decide), hzero .bankReady (by decide),
    hzero .bankGrant (by decide), hzero .bankDone (by decide),
    hzero .acceptedSeq (by decide), hconfig]

/-- An answer of the readiness wait: only a ready firmware is confirmed. -/
def Confirmed (s s' : Boot) (ready : Bool) : Prop := Beside s s' ∧ (ready = true → s'.Ready)

theorem Confirmed.refused {s s' : Boot} (h : Beside s s') : Confirmed s s' false :=
  ⟨h, fun hready => absurd hready Bool.false_ne_true⟩

section Wait

variable {config : DldConfig} {start : Timespec} {error : String} {cap : Nat}

/-- The second look at the clock comes after the snapshot. -/
theorem wp_confirmReady {state : DldCommand} (harmed : Armed config s)
    (hbegun : s.begun = some start) (hnormal : 0 ≤ start.2 ∧ start.2 < 1000000000)
    (hstate : Snapshot s state) (herror : state .errorDetail = 0)
    (hstatus : state .status = statusReady) (hzero : ∀ off ∈ readyWords, state off = 0) :
    boot.wp (confirmReady (readyDeadline start) error cap) s fun s' r => Confirmed s s' r.1 := by
  refine Monitor.wp_op_bind fun now henv => ⟨trivial, ?_⟩
  have hbeside := Beside.clock s now
  rcases now with errno | now
  · rw [Monitor.wp_bind]
    exact wp_report fun reason => Confirmed.refused hbeside
  refine Monitor.wp_ite.mpr ⟨fun _ => Confirmed.refused hbeside, fun hexpired => ⟨hbeside, fun _ => ?_⟩⟩
  have htime : Timespec.ns now < start.ns + 100000000 := by
    rw [expired_iff henv (readyDeadline_normal hnormal), readyDeadline_ns] at hexpired
    exact not_le.mp hexpired
  refine ⟨state, config, start, now, hstate.seen, harmed.file, ?_, hstatus, hzero, ?_, rfl, htime⟩
  · exact fun unset error cap => harmed.accepted hstate herror hstatus hzero unset error cap
  · exact hbeside.begun start hbegun

theorem wp_readyRound (harmed : Armed config s) (hbegun : s.begun = some start)
    (hnormal : 0 ≤ start.2 ∧ start.2 < 1000000000) :
    boot.wp (readyRound (readyDeadline start) error cap) s fun s' r =>
      Beside s s' ∧ ∀ result, r = some result → Confirmed s s' result.1 := by
  have hrefused {s' : Boot} {text : String} (h : Beside s s') :
      Beside s s' ∧ ∀ result, some (false, text) = some result → Confirmed s s' result.1 := by
    refine ⟨h, fun result hresult => ?_⟩
    cases hresult
    exact Confirmed.refused h
  refine Monitor.wp_op_bind fun flag _ => ⟨trivial, Monitor.wp_ite.mpr ⟨fun _ => ?_, fun _ => ?_⟩⟩
  · exact Monitor.wp_op_bind fun _ _ => ⟨trivial, hrefused (.refl s)⟩
  refine Monitor.wp_op_bind fun now henv => ⟨trivial, ?_⟩
  have hclock := Beside.clock s now
  rcases now with errno | now
  · rw [Monitor.wp_bind]
    exact wp_report fun reason => hrefused hclock
  refine Monitor.wp_ite.mpr ⟨fun _ => hrefused hclock, fun _ => ?_⟩
  rw [Monitor.wp_bind]
  refine wp_dldSnapshot_boot fun s₁ state hs₁ hstate => ?_
  have hbeside := hclock.trans hs₁
  unfold judgeReady
  refine Monitor.wp_ite.mpr ⟨fun _ => hrefused hbeside, fun herror => ?_⟩
  refine Monitor.wp_ite.mpr ⟨fun hready => ?_, fun _ => ?_⟩
  · rw [map_eq_pure_bind, Monitor.wp_bind]
    have hconfirm : boot.wp (confirmReady (readyDeadline start) error cap) s₁ fun s' r =>
        Confirmed s₁ s' r.1 :=
      wp_confirmReady (harmed.beside hbeside) (hbeside.begun start hbegun) hnormal hstate
        (not_not.mp (not_or.mp herror).1) hready.1 hready.2
    refine Monitor.wp_mono hconfirm fun s₂ r h => ?_
    have hbeside' := hbeside.trans h.1
    refine ⟨hbeside', fun result hresult => ?_⟩
    cases hresult
    exact ⟨hbeside', h.2⟩
  · exact Monitor.wp_ite.mpr ⟨fun _ => hrefused hbeside, fun _ => ⟨hbeside, nofun⟩⟩

theorem wp_waitReady (harmed : Armed config s) (hbegun : s.begun = some start)
    (hnormal : 0 ≤ start.2 ∧ start.2 < 1000000000) (fuel : Nat) :
    boot.wp (waitReady (readyDeadline start) error cap fuel) s fun s' r => Confirmed s s' r.1 := by
  induction fuel generalizing s with
  | zero => exact fun never => never.elim
  | succ fuel ih =>
    rw [waitReady, Monitor.wp_bind]
    refine Monitor.wp_mono (wp_readyRound harmed hbegun hnormal) ?_
    rintro s' (- | result) ⟨hbeside, hresult⟩
    · refine Monitor.wp_op_bind fun slept _ => ⟨trivial, ?_⟩
      refine Monitor.wp_ite.mpr ⟨fun _ => ?_, fun _ => ?_⟩
      · rw [Monitor.wp_bind]
        exact wp_report fun reason => Confirmed.refused hbeside
      · have hrest := ih (harmed.beside hbeside) (hbeside.begun start hbegun)
        exact Monitor.wp_mono hrest fun s'' r h => ⟨hbeside.trans h.1, h.2⟩
    · exact hresult result rfl

end Wait

/-! ### The mapping of PRUSS -/

/-- What maps a bank or a clock keeps the mapping of PRUSS. -/
theorem mapPeripherals_prussMap (hw : DldHw) (error : String) (cap : Nat) :
    (mapPeripherals hw error cap).All fun _ r => r.1.prussMap = hw.prussMap := by
  have hfail (hw' : DldHw) (what : String) (h : hw'.prussMap = hw.prussMap) :
      (do
        let error ← failErrno error cap what
        pure (hw', false, error) : UProg (DldHw × Bool × String)).All
        fun _ r => r.1.prussMap = hw.prussMap :=
    Prog.all_bind.mpr (Prog.all_of_forall fun _ _ => h)
  have hclock (hw' : DldHw) (fd : Nat) (h : hw'.prussMap = hw.prussMap) :
      (mapClock error cap hw' fd).All fun _ r => r.1.prussMap = hw.prussMap := by
    refine Prog.all_ite.mpr ⟨fun _ => h, fun _ => Prog.all_op_bind.mpr fun map => ?_⟩
    rcases map with errno | address
    · exact hfail hw' _ h
    · exact h
  unfold mapPeripherals
  rcases hw.memFd with - | fd
  · refine Prog.all_op_bind.mpr fun mem => ?_
    rcases mem with errno | fd
    · exact hfail hw _ rfl
    · exact hclock _ fd rfl
  · exact hclock hw fd rfl

theorem configureBank_prussMap (hw : DldHw) (bank : Fin 3) (error : String) (cap : Nat) :
    (configureBank hw bank error cap).All fun _ r => r.1.prussMap = hw.prussMap := by
  unfold configureBank
  rcases hw.gpioMap bank with - | address
  · rcases hw.memFd with - | fd
    · exact Prog.all_bind.mpr (Prog.all_of_forall fun _ _ => rfl)
    · refine Prog.all_op_bind.mpr fun map => ?_
      rcases map with errno | address <;>
        exact Prog.all_bind.mpr (Prog.all_of_forall fun _ _ => rfl)
  · exact Prog.all_bind.mpr (Prog.all_of_forall fun _ _ => rfl)

theorem dldHwConfigureOutputs_prussMap (hw : DldHw) (error : String) (cap : Nat) :
    (dldHwConfigureOutputs hw error cap).All fun _ r => r.1.prussMap = hw.prussMap := by
  have hbanks (hw' : DldHw) (error : String) (banks : List (Fin 3))
      (h : hw'.prussMap = hw.prussMap) :
      (configureBanks hw' error cap banks).All fun _ r => r.1.prussMap = hw.prussMap := by
    induction banks generalizing hw' error with
    | nil => exact h
    | cons bank rest ih =>
      refine Prog.all_bind.mpr (Prog.all_mono (configureBank_prussMap _ _ _ _) ?_)
      rintro t ⟨hw'', ok, error'⟩ hmap
      exact Prog.all_ite.mpr ⟨fun _ => hmap.trans h, fun _ => ih _ _ (hmap.trans h)⟩
  refine Prog.all_bind.mpr (Prog.all_mono (mapPeripherals_prussMap _ _ _) ?_)
  rintro t ⟨hw', ok, error'⟩ hmap
  exact Prog.all_ite.mpr ⟨fun _ => hmap, fun _ => hbanks _ _ _ hmap⟩

/-- An attached context has PRUSS mapped. -/
theorem dldHwOpen_prussMap (fuel : Nat) (error : String) (cap : Nat) :
    (dldHwOpen fuel error cap).All fun _ r => r.2.1 = true → r.1.prussMap ≠ none := by
  have hfail (hw : DldHw) (what : String) :
      (do
        let error ← failErrno error cap what
        pure (hw, false, error) : UProg (DldHw × Bool × String)).All
        fun _ r => r.2.1 = true → r.1.prussMap ≠ none :=
    Prog.all_bind.mpr (Prog.all_of_forall fun _ _ h => absurd h Bool.false_ne_true)
  refine Prog.all_op_bind.mpr fun opened => Prog.all_ite.mpr ⟨fun _ => hfail _ _, fun _ => ?_⟩
  refine Prog.all_bind.mpr (Prog.all_of_forall fun _ found => ?_)
  refine Prog.all_op_bind.mpr fun _ => ?_
  rcases found with - | ⟨name, size⟩
  · exact hfail _ _
  refine Prog.all_op_bind.mpr fun uio => ?_
  rcases uio with errno | fd
  · exact hfail _ _
  refine Prog.all_op_bind.mpr fun map => ?_
  rcases map with errno | address
  · refine Prog.all_bind.mpr (Prog.all_of_forall fun _ text => ?_)
    exact Prog.all_bind.mpr (Prog.all_of_forall fun _ _ h => absurd h Bool.false_ne_true)
  · exact fun _ => nofun

/-- A lock that is not acquired is a failure. -/
theorem dldLock_error {error : String} {cap : Nat} :
    (dldLock error cap).All fun _ r => ∀ code, r.1 = .error code → code ≠ .ok := by
  have herror (c : DldExitCode) (hc : c ≠ .ok) (code : DldExitCode)
      (h : (Except.error c : Except DldExitCode Nat) = .error code) : code ≠ .ok := by
    cases h
    exact hc
  refine Prog.all_op_bind.mpr fun opened => ?_
  rcases opened with errno | fd
  · exact Prog.all_op_bind.mpr fun _ => herror .prerequisite nofun
  refine Prog.all_op_bind.mpr fun regular => Prog.all_ite.mpr ⟨fun _ => ?_, fun _ => ?_⟩
  · exact Prog.all_op_bind.mpr fun _ => herror .prerequisite nofun
  refine Prog.all_op_bind.mpr fun locked => ?_
  rcases locked with - | errno
  · exact fun code h => nomatch h
  · have hcode : (lockFailure errno error cap).All fun _ r => r.1 ≠ .ok := by
      refine Prog.all_ite.mpr ⟨fun _ => ?_, fun _ => Prog.all_op_bind.mpr fun _ => ?_⟩ <;>
        exact nofun
    refine Prog.all_bind.mpr (Prog.all_mono hcode fun _ r hr => ?_)
    exact Prog.all_op_bind.mpr fun _ => herror r.1 hr

/-! ### Taking control -/

theorem outside_pruss (n : Nat) (off : Off) : HwReg.pruss n ≠ .command off := nofun

theorem outside_clock (n : Nat) (off : Off) : HwReg.clock n ≠ .command off := nofun

theorem outside_gpio (b : Fin 3) (n : Nat) (off : Off) : HwReg.gpio b n ≠ .command off := nofun

theorem wp_traced_boot {f : UFn} {code : α → DldExitCode} {p : UProg α}
    (hp : boot.wp p (boot.next s ⟨.enter f, ()⟩) Q) : boot.wp (tracedCall f code p) s Q := by
  refine Monitor.wp_op_bind fun _ _ => ⟨trivial, ?_⟩
  rw [Monitor.wp_bind]
  exact Monitor.wp_mono hp fun s' a h => Monitor.wp_op_bind fun _ _ => ⟨trivial, h⟩

/-- Control is taken, whether or not the cores stop. -/
theorem wp_dldHwTakeControl {hw : DldHw} {error : String} {cap : Nat}
    (hmap : hw.prussMap ≠ none) :
    boot.wp (dldHwTakeControl hw error cap) s fun s' r =>
      s'.taken = true ∧ s'.file = s.file ∧ r.1.prussMap ≠ none := by
  refine wp_traced_boot (Monitor.wp_ite.mpr ⟨fun h => absurd h hmap, fun _ => ?_⟩)
  rw [Monitor.wp_bind]
  refine wp_outside' (emits_stopPrus outside_pruss outside_pruss _ _ _) rfl
    fun s₁ r hs₁ => ?_
  rw [Monitor.wp_bind]
  refine wp_outside' (emits_disableNotifications outside_pruss) hs₁.taken fun s₂ _ hs₂ => ?_
  have hs := hs₁.trans hs₂
  refine Monitor.wp_op_bind fun _ _ => ⟨hs.taken, ?_⟩
  exact Monitor.wp_op_bind fun _ _ => ⟨trivial, hs.taken, hs.file, hmap⟩

/-- The cleanup runs to its end and leaves no magic. -/
theorem wp_dldHwCleanup_boot {hw : DldHw} (hmap : hw.prussMap ≠ none) (htaken : s.taken = true) :
    boot.wp (dldHwCleanup hw) s fun s' _ => s'.cleaned = true ∧ s'.stored .magic = some 0 := by
  refine wp_traced_boot (Monitor.wp_ite.mpr ⟨fun h => absurd h hmap, fun _ => ?_⟩)
  rw [Monitor.wp_bind]
  refine wp_outside' (emits_stopPrus outside_pruss outside_pruss _ _ _) htaken ?_
  rintro s₁ ⟨stopped, error⟩ hs₁
  have hrest : boot.wp (do
      store 0 (.command .magic)
      memoryBarrier
      disableNotifications
      cleanupOutputs hw error) s₁ fun s' _ => s'.cleaned = true ∧ s'.stored .magic = some 0 := by
    refine Monitor.wp_op_bind fun _ _ => ⟨hs₁.taken.trans htaken, ?_⟩
    refine Monitor.wp_op_bind fun _ _ => ⟨trivial, ?_⟩
    rw [Monitor.wp_bind]
    refine wp_outside' (emits_disableNotifications outside_pruss) (hs₁.taken.trans htaken)
      fun s₂ _ hs₂ => ?_
    refine wp_outside' (emits_cleanupOutputs trivial outside_clock outside_clock outside_gpio
      outside_gpio _ _) (hs₂.taken.trans (hs₁.taken.trans htaken)) fun s₃ _ hs₃ => ?_
    have hs := hs₂.trans hs₃
    refine ⟨hs.cleaned.trans hs₁.cleaned, ?_⟩
    rw [hs.stored]
    exact Function.update_self (Off.magic) (some (0 : Word)) s₁.stored
  refine Monitor.wp_ite.mpr ⟨fun _ => ?_, fun _ => hrest⟩
  exact Monitor.wp_op_bind fun _ _ => ⟨trivial, hrest⟩

/-! ### Filling the command block -/

/-- The process after the stores of the list. -/
def Boot.storing (s : Boot) (words : List (Off × Word)) : Boot :=
  words.foldl (fun s w => boot.next s ⟨.store w.2 (.command w.1), ()⟩) s

theorem wp_storeWords {words : List (Off × Word)} {Q : Boot → Unit → Prop}
    (htaken : s.taken = true) (hQ : Q (s.storing words) ()) :
    boot.wp (storeWords words) s Q := by
  induction words generalizing s with
  | nil => exact hQ
  | cons w rest ih => exact Monitor.wp_op_bind fun _ _ => ⟨htaken, ih htaken hQ⟩

theorem storing_taken (s : Boot) (words : List (Off × Word)) :
    (s.storing words).taken = s.taken := by
  induction words generalizing s with
  | nil => rfl
  | cons w rest ih => exact ih _

theorem storing_file (s : Boot) (words : List (Off × Word)) :
    (s.storing words).file = s.file := by
  induction words generalizing s with
  | nil => rfl
  | cons w rest ih => exact ih _

theorem storing_begun (s : Boot) (words : List (Off × Word)) (h : s.begun = none ∨ words ≠ []) :
    (s.storing words).begun = none := by
  induction words generalizing s with
  | nil => exact h.resolve_right fun hne => hne rfl
  | cons w rest ih => exact ih _ (.inl rfl)

theorem storing_stored_of_notMem (s : Boot) {words : List (Off × Word)} {off : Off}
    (h : off ∉ words.map Prod.fst) : (s.storing words).stored off = s.stored off := by
  induction words generalizing s with
  | nil => rfl
  | cons w rest ih =>
    rw [List.map_cons, List.mem_cons, not_or] at h
    refine (ih _ h.2).trans ?_
    exact Function.update_of_ne h.1 _ _

/-- Each word of the list is stored once, and stays. -/
theorem storing_stored (s : Boot) {words : List (Off × Word)} {off : Off} {v : Word}
    (hnodup : (words.map Prod.fst).Nodup) (hmem : (off, v) ∈ words) :
    (s.storing words).stored off = some v := by
  induction words generalizing s with
  | nil => exact absurd hmem List.not_mem_nil
  | cons w rest ih =>
    rw [List.map_cons, List.nodup_cons] at hnodup
    rcases List.mem_cons.mp hmem with rfl | hmem
    · refine (storing_stored_of_notMem _ hnodup.1).trans ?_
      exact Function.update_self off (some v) s.stored
    · exact ih _ hnodup.2 hmem

theorem initialWords_nodup (config : DldConfig) :
    ((initialWords config).map Prod.fst).Nodup := by
  have hkeys : (initialWords config).map Prod.fst =
      (initialWords default).map Prod.fst := by
    simp [initialWords, Function.comp_def]
  rw [hkeys]
  decide

theorem storing_armed {config : DldConfig} (hfile : s.file = some config)
    (hsupported : config.Supported) : Armed config (s.storing (initialWords config)) := by
  have hstored {off : Off} {v : Word} (hmem : (off, v) ∈ initialWords config) :
      (s.storing (initialWords config)).stored off = some v :=
    storing_stored s (initialWords_nodup config) hmem
  refine ⟨hsupported, (storing_file s _).trans hfile, hstored ?_, hstored ?_, hstored ?_,
    fun i => hstored ?_⟩ <;> simp [initialWords]

section Fill

variable {config : DldConfig} {fuel imageBytes : Nat} {image : Nat → Word} {hw : DldHw}
  {error : String} {cap : Nat}

theorem wp_startFirmware {start : Timespec} (htaken : s.taken = true) (harmed : Armed config s)
    (hbegun : s.begun = some start) (hnormal : 0 ≤ start.2 ∧ start.2 < 1000000000) :
    boot.wp (startFirmware fuel image imageBytes hw (readyDeadline start) config error cap) s
      fun s' r => s'.taken = true ∧ (r.1 = .ok → s'.Ready) := by
  rw [startFirmware, Monitor.wp_bind]
  refine wp_outside' (emits_dldHwStart outside_pruss outside_pruss _ _ _ _ _) htaken ?_
  rintro s₁ ⟨started, error⟩ hs₁
  have htaken₁ := hs₁.taken.trans htaken
  refine Monitor.wp_ite.mpr ⟨fun _ => ⟨htaken₁, nofun⟩, fun _ => ?_⟩
  rw [Monitor.wp_bind]
  refine Monitor.wp_mono (wp_waitReady (harmed.beside hs₁) (hs₁.begun start hbegun) hnormal fuel) ?_
  rintro s₂ ⟨ready, error⟩ ⟨hs₂, hready⟩
  have htaken₂ := hs₂.taken.trans htaken₁
  refine Monitor.wp_ite.mpr ⟨fun _ => ⟨htaken₂, nofun⟩, fun hnot => ?_⟩
  refine Monitor.wp_op_bind fun flag _ => ⟨trivial, Monitor.wp_ite.mpr ⟨fun _ => ?_, fun _ => ?_⟩⟩
  · exact Monitor.wp_op_bind fun _ _ => ⟨trivial, htaken₂, nofun⟩
  · refine Monitor.wp_op_bind fun _ _ => ⟨trivial, ?_⟩
    refine Monitor.wp_op_bind fun _ _ => ⟨trivial, htaken₂, fun _ => ?_⟩
    exact hready (Bool.not_eq_false _ ▸ hnot)

theorem wp_fillMailbox (htaken : s.taken = true) (hfile : s.file = some config)
    (hsupported : config.Supported) :
    boot.wp (fillMailbox fuel image imageBytes hw config error cap) s
      fun s' r => s'.taken = true ∧ (r.1 = .ok → s'.Ready) := by
  rw [fillMailbox, Monitor.wp_bind]
  refine wp_storeWords htaken ?_
  have harmed := storing_armed hfile hsupported
  have hbegun : (s.storing (initialWords config)).begun = none :=
    storing_begun s _ (.inr (by simp [initialWords]))
  have htaken := (storing_taken s (initialWords config)).trans htaken
  generalize s.storing (initialWords config) = s at *
  refine Monitor.wp_op_bind fun _ _ => ⟨trivial, ?_⟩
  refine Monitor.wp_op_bind fun flag _ => ⟨trivial, ?_⟩
  refine Monitor.wp_ite.mpr ⟨fun _ => ⟨htaken, nofun⟩, fun _ => ?_⟩
  refine Monitor.wp_op_bind fun now henv => ⟨trivial, ?_⟩
  have hclock := Beside.clock s now
  rcases now with errno | now
  · rw [Monitor.wp_bind]
    exact wp_report fun reason => ⟨htaken, nofun⟩
  · refine wp_startFirmware htaken (harmed.beside hclock) ?_ henv
    show (s.begun <|> some now) = some now
    rw [hbegun]
    rfl

/-- Past the point of taking control, in whatever way it ends. -/
theorem wp_initTaken (hmap : hw.prussMap ≠ none) (hfile : s.file = some config)
    (hsupported : config.Supported) :
    boot.wp (initTaken fuel image imageBytes hw config error cap) s fun s' r =>
      s'.taken = true ∧ r.1.prussMap ≠ none ∧ (r.2.1 = .ok → s'.Ready) := by
  rw [initTaken, Monitor.wp_bind]
  refine Monitor.wp_mono (wp_dldHwTakeControl hmap) ?_
  rintro s₁ ⟨hw₁, stopped, error⟩ ⟨htaken₁, hfile₁, hmap₁⟩
  refine Monitor.wp_ite.mpr ⟨fun _ => ⟨htaken₁, hmap₁, nofun⟩, fun _ => ?_⟩
  rw [Monitor.wp_bind]
  refine wp_outside (emits_dldHwConfigureOutputs trivial outside_clock outside_clock outside_gpio
    outside_gpio _ _ _) (dldHwConfigureOutputs_prussMap _ _ _) htaken₁ ?_
  rintro s₂ ⟨hw₂, configured, error⟩ hs₂ hmap₂
  have hmap₂' : hw₂.prussMap ≠ none := by
    rw [hmap₂]
    exact hmap₁
  have htaken₂ := hs₂.taken.trans htaken₁
  refine Monitor.wp_ite.mpr ⟨fun _ => ⟨htaken₂, hmap₂', nofun⟩, fun _ => ?_⟩
  rw [Monitor.wp_bind]
  have hfile₂ := hs₂.file.trans (hfile₁.trans hfile)
  refine Monitor.wp_mono (wp_fillMailbox htaken₂ hfile₂ hsupported) ?_
  rintro s₃ ⟨code, error⟩ ⟨htaken₃, hready⟩
  exact ⟨htaken₃, hmap₂', hready⟩

end Fill

/-! ### The end of main -/

theorem wp_unmap_boot {map : Option Nat} {Q : Boot → Unit → Prop} (hQ : Q s ()) :
    boot.wp (unmap map) s Q := by
  rcases map with - | address
  · exact hQ
  · exact fun _ _ => ⟨trivial, hQ⟩

theorem wp_closeFd_boot {fd : Option Nat} {Q : Boot → Unit → Prop} (hQ : Q s ()) :
    boot.wp (closeFd fd) s Q := by
  rcases fd with - | fd
  · exact hQ
  · exact fun _ _ => ⟨trivial, hQ⟩

theorem wp_dldHwClose_boot {hw : DldHw} {Q : Boot → DldHw → Prop} (hQ : Q s {}) :
    boot.wp (dldHwClose hw) s Q := by
  unfold dldHwClose
  simp only [Monitor.wp_bind]
  refine wp_unmap_boot (wp_unmap_boot (wp_unmap_boot (wp_unmap_boot (wp_unmap_boot ?_))))
  exact wp_closeFd_boot (wp_closeFd_boot hQ)

section Exit

variable {code : DldExitCode} {error : String} {lockFd : Nat}

theorem wp_initReport (h : s.Outcome code) :
    boot.wp (initReport code error) s Boot.Outcome := by
  refine Monitor.wp_ite.mpr ⟨fun _ => ?_, fun _ => h⟩
  exact Monitor.wp_op_bind fun _ _ => ⟨trivial, h⟩

theorem wp_initUnopened (h : s.Outcome code) :
    boot.wp (initUnopened lockFd code error) s Boot.Outcome :=
  Monitor.wp_op_bind fun _ _ => ⟨trivial, wp_initReport h⟩

/-- The label `done`: a failure after taking control is cleaned up. -/
theorem wp_initDone {hw : DldHw} {taken : Bool} (hmap : hw.prussMap ≠ none)
    (htaken : s.taken = taken) (hready : code = .ok → s.Ready) :
    boot.wp (initDone hw taken lockFd code error) s Boot.Outcome := by
  refine Monitor.wp_ite.mpr ⟨fun hfailed => ?_, fun hkept => ?_⟩
  · rw [Monitor.wp_bind]
    refine Monitor.wp_mono (wp_dldHwCleanup_boot hmap (htaken.trans hfailed.2)) fun s' hw' h => ?_
    rw [Monitor.wp_bind]
    refine wp_dldHwClose_boot (wp_initUnopened ?_)
    exact ⟨fun hok => absurd hok hfailed.1, fun _ => .inr h⟩
  · rw [Monitor.wp_bind]
    refine wp_dldHwClose_boot (wp_initUnopened ⟨hready, fun hbad => .inl ?_⟩)
    rw [htaken]
    exact Bool.eq_false_iff.mpr fun h => hkept ⟨hbad, h⟩

/-- An exit before control is taken. -/
theorem Boot.Outcome.untaken (htaken : s.taken = false) (hcode : code ≠ .ok) : s.Outcome code :=
  ⟨fun hok => absurd hok hcode, fun _ => .inl htaken⟩

theorem wp_initLocked {fuel imageBytes : Nat} {image : Nat → Word} {config : DldConfig} {cap : Nat}
    (htaken : s.taken = false) (hfile : s.file = some config) (hsupported : config.Supported) :
    boot.wp (initLocked fuel image imageBytes config lockFd error cap) s Boot.Outcome := by
  refine Monitor.wp_op_bind fun euid _ => ⟨trivial, ?_⟩
  refine Monitor.wp_ite.mpr ⟨fun _ => wp_initUnopened (.untaken htaken nofun), fun _ => ?_⟩
  rw [Monitor.wp_bind]
  refine wp_handlesOnly (emits_dldHwOpen trivial _ _ _) (dldHwOpen_prussMap _ _ _) ?_
  rintro s₁ ⟨hw, opened, error⟩ hs₁ hmap
  have htaken₁ := hs₁.taken.trans htaken
  refine Monitor.wp_ite.mpr ⟨fun _ => wp_initUnopened (.untaken htaken₁ nofun), fun hopened => ?_⟩
  have hmap : hw.prussMap ≠ none := hmap (Bool.not_eq_false _ ▸ hopened)
  refine Monitor.wp_op_bind fun flag _ => ⟨trivial, Monitor.wp_ite.mpr ⟨fun _ => ?_, fun _ => ?_⟩⟩
  · exact wp_initDone hmap htaken₁ nofun
  · rw [Monitor.wp_bind]
    refine Monitor.wp_mono (wp_initTaken hmap (hs₁.file.trans hfile) hsupported) ?_
    rintro s₂ ⟨hw₂, code, error⟩ ⟨htaken₂, hmap₂, hready⟩
    exact wp_initDone hmap₂ htaken₂ hready

end Exit

theorem wp_installHandlers {n : Nat} {Q : Boot → Bool → Prop} (hQ : ∀ installed, Q s installed) :
    boot.wp (installHandlers n) s Q := by
  induction n with
  | zero => exact hQ true
  | succ n ih =>
    refine Monitor.wp_op_bind fun failed _ => ⟨trivial, ?_⟩
    exact Monitor.wp_ite.mpr ⟨fun _ => hQ false, fun _ => ih⟩

/-- Only a file that parses gives a configuration. -/
theorem wp_dldReadConfig {path error : String} {unset : DldConfig} {cap : Nat}
    (hs : s.taken = false) :
    boot.wp (dldReadConfig path unset error cap) s fun s' r => s'.taken = false ∧
      (r.1 = .ok → s'.file = some r.2.1 ∧ r.2.1.Supported) := by
  refine Monitor.wp_op_bind fun file _ => ⟨by cases file <;> trivial, ?_⟩
  rcases file with bytes | - | - | - | -
  · rcases hparse : parseConfig bytes with text | config
    · simp only [dldParseConfig, hparse]
      exact ⟨hs, nofun⟩
    · simp only [dldParseConfig, hparse]
      refine ⟨hs, fun _ => ⟨?_, parseConfig_supported hparse⟩⟩
      show (parseConfig bytes).toOption = some config
      rw [hparse]
      rfl
  · rw [Monitor.wp_bind]
    exact wp_report fun reason => ⟨hs, nofun⟩
  · rw [Monitor.wp_bind]
    exact wp_report fun reason => ⟨hs, nofun⟩
  · exact ⟨hs, nofun⟩
  · exact ⟨hs, nofun⟩

theorem wp_dldInit {fuel imageBytes : Nat} {image : Nat → Word} (args : List String) :
    boot.wp (dldInit fuel image imageBytes args) {} Boot.Outcome := by
  have husage : boot.wp (do
      uop (.printError "usage: dld-init CONFIG_FILE\n")
      pure DldExitCode.badArgument) {} Boot.Outcome :=
    Monitor.wp_op_bind fun _ _ => ⟨trivial, .untaken rfl nofun⟩
  rcases args with - | ⟨path, - | ⟨extra, rest⟩⟩
  · exact husage
  swap
  · exact husage
  rw [dldInit, Monitor.wp_bind]
  refine Monitor.wp_mono (wp_dldReadConfig rfl) ?_
  rintro s₁ ⟨code, config, error⟩ ⟨htaken₁, hconfig⟩
  refine Monitor.wp_ite.mpr ⟨fun hbad => wp_initReport (.untaken htaken₁ hbad), fun hgood => ?_⟩
  obtain ⟨hfile, hsupported⟩ := hconfig (not_not.mp hgood)
  rw [Monitor.wp_bind, dldInstallSignals, Monitor.wp_bind]
  refine wp_installHandlers fun installed => Monitor.wp_ite.mpr ⟨fun _ => ?_, fun _ => ?_⟩
  swap
  · rw [Monitor.wp_bind]
    exact wp_report fun reason =>
      Monitor.wp_ite.mpr ⟨fun _ => wp_initReport (.untaken htaken₁ nofun), fun h => absurd rfl h⟩
  refine Monitor.wp_ite.mpr ⟨nofun, fun _ => ?_⟩
  rw [Monitor.wp_bind]
  refine wp_handlesOnly (emits_dldLock trivial _ _) dldLock_error ?_
  rintro s₂ ⟨code | lockFd, error⟩ hs₂ hcode
  · exact wp_initReport (.untaken (hs₂.taken.trans htaken₁) (hcode code rfl))
  · exact wp_initLocked (hs₂.taken.trans htaken₁) (hs₂.file.trans hfile) hsupported

/-! ### No extra time -/

/-- The clock is read at or past the deadline. -/
def late (deadline : Timespec) : UEvent → Prop
  | ⟨.clockGettime, .ok now⟩ => expired now deadline = true
  | _ => False

/-- A sleep begins only after a reading before the deadline, one for each
sleep. -/
def pacing (deadline : Timespec) : Monitor UOp UOp.Res Bool where
  env _ _ := True
  safe checked e := match e with
    | ⟨.nanosleep, _⟩ => checked = true
    | _ => True
  next checked e := match e with
    | ⟨.clockGettime, .ok now⟩ => !expired now deadline
    | ⟨.nanosleep, _⟩ => false
    | _ => checked

section Wait

variable {deadline : Timespec} {error : String} {cap : Nat}

/-- The loads and barriers of a snapshot. -/
def isSnapshot : UEvent → Prop
  | ⟨.load _, _⟩ | ⟨.barrier, _⟩ => True
  | _ => False

theorem emits_dldSnapshot_only : dldSnapshot.Emits isSnapshot := by
  have hwords (snapshot : DldCommand) (offs : List Off) :
      (loadWords snapshot offs).Emits isSnapshot := by
    induction offs generalizing snapshot with
    | nil => exact Prog.emits_pure _
    | cons off rest ih => exact Prog.emits_op_bind.mpr fun _ => ⟨trivial, ih _⟩
  refine Prog.emits_op_bind.mpr fun _ => ⟨trivial, ?_⟩
  exact Prog.emits_op_bind.mpr fun _ => ⟨trivial, hwords _ _⟩

theorem not_late_of_isSnapshot (e : UEvent) (he : isSnapshot e) : ¬ late deadline e := by
  obtain ⟨op, v⟩ := e
  cases op <;> first | exact he.elim | exact id

/-- A result that refuses. -/
def Refusal (r : Option (Bool × String)) : Prop := ∃ text, r = some (false, text)

theorem endsAt_report {α : Type} {R : α → Prop} (f : String → α) :
    (strerror >>= fun text => pure (f text)).EndsAt (late deadline) R :=
  fun _ => ⟨fun h => h.elim, trivial⟩

theorem confirmReady_endsAt :
    (confirmReady deadline error cap).EndsAt (late deadline) fun r => r.1 = false := by
  intro now
  rcases now with errno | now
  · exact ⟨fun h => h.elim, endsAt_report _⟩
  · refine ⟨fun h => ⟨_, if_pos h, rfl⟩, ?_⟩
    show (if expired now deadline then _ else _ : UProg (Bool × String)).EndsAt _ _
    split <;> trivial

theorem judgeReady_endsAt (state : DldCommand) :
    (judgeReady deadline state error cap).EndsAt (late deadline) Refusal := by
  unfold judgeReady
  split
  · trivial
  split
  · rw [map_eq_pure_bind]
    refine Prog.endsAt_bind confirmReady_endsAt ?_ fun _ => trivial
    rintro ⟨ready, text⟩ rfl
    exact ⟨_, rfl, text, rfl⟩
  split <;> trivial

theorem readyRound_endsAt :
    (readyRound deadline error cap).EndsAt (late deadline) Refusal := by
  refine fun flag => ⟨fun h => h.elim, ?_⟩
  show (if flag ≠ 0 then _ else _ : UProg (Option (Bool × String))).EndsAt _ _
  split
  · exact fun _ => ⟨fun h => h.elim, trivial⟩
  intro now
  rcases now with errno | now
  · exact ⟨fun h => h.elim, endsAt_report _⟩
  · refine ⟨fun h => ⟨_, if_pos h, _, rfl⟩, ?_⟩
    show (if expired now deadline then _ else _ : UProg (Option (Bool × String))).EndsAt _ _
    split
    · trivial
    · exact Prog.endsAt_bind (R := fun _ => False)
        (Prog.endsAt_of_emits emits_dldSnapshot_only not_late_of_isSnapshot)
        (fun _ h => h.elim) fun state => judgeReady_endsAt state

/-- A reading at or past the deadline is the last thing the wait does. -/
theorem waitReady_endsAt (fuel : Nat) :
    (waitReady deadline error cap fuel).EndsAt (late deadline) fun r => r.1 = false := by
  induction fuel with
  | zero => exact fun never => never.elim
  | succ fuel ih =>
    refine Prog.endsAt_bind readyRound_endsAt ?_ fun result => ?_
    · rintro _ ⟨text, rfl⟩
      exact ⟨_, rfl, rfl⟩
    · rcases result with - | result
      · refine fun slept => ⟨fun h => h.elim, ?_⟩
        show (if slept ≠ none ∧ slept ≠ some eIntr then _ else _ :
          UProg (Bool × String)).EndsAt _ _
        split
        · exact endsAt_report _
        · exact ih
      · trivial

/-- A round that goes on to its sleep has read the clock before the deadline. -/
theorem readyRound_paced (checked : Bool) :
    (pacing deadline).wp (readyRound deadline error cap) checked fun checked' r =>
      r = none → checked' = true := by
  refine Monitor.wp_op_bind fun flag _ => ⟨trivial, Monitor.wp_ite.mpr ⟨fun _ => ?_, fun _ => ?_⟩⟩
  · exact Monitor.wp_op_bind fun _ _ => ⟨trivial, nofun⟩
  refine Monitor.wp_op_bind fun now _ => ⟨trivial, ?_⟩
  rcases now with errno | now
  · exact Monitor.wp_op_bind fun _ _ => ⟨trivial, nofun⟩
  refine Monitor.wp_ite.mpr ⟨fun _ => nofun, fun hexpired => ?_⟩
  have hchecked : (!expired now deadline) = true := by simpa using hexpired
  rw [Monitor.wp_bind]
  refine Monitor.wp_frame' emits_dldSnapshot_only ?_ fun state => ?_
  · rintro ⟨op, v⟩ he
    cases op <;> first | exact he.elim | exact ⟨trivial, rfl⟩
  unfold judgeReady
  refine Monitor.wp_ite.mpr ⟨fun _ => nofun, fun _ => ?_⟩
  refine Monitor.wp_ite.mpr ⟨fun _ => ?_, fun _ => ?_⟩
  · rw [map_eq_pure_bind, Monitor.wp_bind]
    refine Monitor.wp_op_bind fun now _ => ⟨trivial, ?_⟩
    rcases now with errno | now
    · exact Monitor.wp_op_bind fun _ _ => ⟨trivial, nofun⟩
    · exact Monitor.wp_ite.mpr ⟨fun _ => nofun, fun _ => nofun⟩
  · exact Monitor.wp_ite.mpr ⟨fun _ => nofun, fun _ _ => hchecked⟩

theorem waitReady_paced (fuel : Nat) (checked : Bool) :
    (pacing deadline).wp (waitReady deadline error cap fuel) checked fun _ _ => True := by
  induction fuel generalizing checked with
  | zero => exact fun never => never.elim
  | succ fuel ih =>
    rw [waitReady, Monitor.wp_bind]
    refine Monitor.wp_mono (readyRound_paced checked) ?_
    rintro checked' (- | result) hchecked
    · refine Monitor.wp_op_bind fun slept _ => ⟨hchecked rfl, ?_⟩
      refine Monitor.wp_ite.mpr ⟨fun _ => ?_, fun _ => ih _⟩
      exact Monitor.wp_op_bind fun _ _ => ⟨trivial, trivial⟩
    · trivial

end Wait

/-- **All or nothing**: `dld-init` succeeds with a ready firmware or leaves
no magic behind; it stores nothing before it takes control.  Its wait ends
with the first reading at or past the deadline, and never sleeps without
one before it. -/
theorem dldInit_allOrNothing :
    (∀ fuel image imageBytes args t code, (dldInit fuel image imageBytes args).Runs t code →
      boot.EnvAlong {} t → boot.SafeAlong {} t ∧ (boot.run {} t).Outcome code) ∧
    ∀ fuel deadline error cap t rest, (waitReady deadline error cap fuel).Steps t rest →
      (pacing deadline).SafeAlong false t ∧
        ∀ t' now, t = t' ++ [⟨.clockGettime, .ok now⟩] → expired now deadline = true →
          ∃ text, rest = .ret (false, text) := by
  refine ⟨fun fuel image imageBytes args t code hrun henv => ?_, ?_⟩
  · exact Monitor.wp_runs (wp_dldInit args) hrun henv
  · intro fuel deadline error cap t rest hsteps
    have henv : (pacing deadline).EnvAlong false t :=
      Monitor.envAlong_of_forall (fun _ _ => trivial) false t
    refine ⟨(Monitor.wp_steps (waitReady_paced fuel false) hsteps henv).1, ?_⟩
    rintro t' now rfl hlate
    obtain ⟨⟨ready, text⟩, hrest, rfl⟩ := (waitReady_endsAt fuel).steps hsteps hlate
    exact ⟨text, hrest⟩

/-- One pixel on the first string. -/
def configText : String :=
  "\x7b\"pixel_type\":\"ws2812b\",\"string_lengths\":[1,0,0,0,0,0]\x7d"

/-- A board on which everything works: the memory behind the command block
and the next descriptor are its state, the clock stands still. -/
def workingBoard (m : DldCommand × Nat) : (o : UOp) → Option (o.Res × (DldCommand × Nat))
  | .load (.command .status) => some (statusReady, m)
  | .load (.command off) => some (m.1 off, m)
  | .load (.clock _) => some (2, m)
  | .load (.pruss _) | .load (.gpio ..) => some (0, m)
  | .store v (.command off) => some ((), (Function.update m.1 off v, m.2))
  | .clockGettime => some (.ok (1, 0), m)
  | .cancelled => some (0, m)
  | .sigaction | .nanosleep | .flockExclusive _ | .flockUnlock _ | .opendir => some (none, m)
  | .openFile _ | .mmap .. => some (.ok m.2, (m.1, m.2 + 1))
  | .fstatRegular _ => some (true, m)
  | .geteuid => some (0, m)
  | .readdir => some (some "uio0", m)
  | .readNumber _ field => some (if field = "addr" then some prussBase
      else if field = "size" then some 0x80000 else some 0, m)
  | .readFile => some (.content (configText.toList.map fun c => UInt8.ofNat c.toNat), m)
  | .ioctl .. => some (.error eNotty, m)
  | .strerror => some ("", m)
  | .running => none
  | .store .. | .barrier | .close _ | .munmap _ | .closedir | .printError _ | .print _ | .enter _
  | .leave .. => some ((), m)

theorem dldInit_allOrNothing_board :
    (∃ t, (dldInit 2 (fun _ => 0) 4 ["config"]).Runs t .ok ∧ (boot.run {} t).Ready) ∧
      ∃ text, (waitReady (1, 0) "" 256 1).Steps [⟨.cancelled, 0⟩, ⟨.clockGettime, .ok (1, 0)⟩]
        (.ret (false, text)) := by
  constructor
  · have hrun : ∃ r, (dldInit 2 (fun _ => 0) 4 ["config"]).tryExec workingBoard (fun _ => 0, 3) =
        some r := Option.isSome_iff_exists.mp (by decide +kernel)
    have henv : ∀ r ∈ (dldInit 2 (fun _ => 0) 4 ["config"]).tryExec workingBoard (fun _ => 0, 3),
        boot.EnvAlong {} r.1 ∧ r.2 = .ok := by decide +kernel
    obtain ⟨⟨t, code⟩, hrun⟩ := hrun
    obtain ⟨henv, hcode⟩ := henv _ hrun
    dsimp only at henv hcode
    subst hcode
    have hruns := Prog.tryExec_runs hrun
    exact ⟨t, hruns, (dldInit_allOrNothing.1 _ _ _ _ t _ hruns henv).2.1 rfl⟩
  · have hsteps : (waitReady (1, 0) "" 256 1).Steps
        ([⟨.cancelled, 0⟩] ++ [⟨.clockGettime, .ok (1, 0)⟩]) (.ret (false, _)) :=
      .call _ (.call _ (.refl _))
    obtain ⟨text, htext⟩ := (dldInit_allOrNothing.2 _ _ _ _ _ _ hsteps).2 _ _ rfl (by decide)
    rw [htext] at hsteps
    exact ⟨text, hsteps⟩

end Dld
