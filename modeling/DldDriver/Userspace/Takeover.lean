/-
DldDriver/Userspace/Takeover.lean

How `dld-init` takes the two cores over, whatever they did before.  The
monitor `takeover` keeps what the process can know of each core from its own
accesses, and the words of the command block and of PRUSS memory that no core
can have changed behind its back.

    Core         what may be said of a core
    Calm         both cores are stopped, or execute what was started here
    takeover     PRU0 is enabled from a stop, over an image that was read
                 back and a command block that is filled

Clearing EN does not stop a core at once; a core that has then been read
with RUNSTATE clear stays stopped until it is enabled.
-/
import DldDriver.Userspace.FailLow

namespace Dld

open Interaction

/-! ### The cores -/

/-- What may be said of a core. -/
inductive Core
  /-- it may execute whatever it was left with -/
  | foreign
  /-- EN is clear, and the core may still come to its stop -/
  | halting
  /-- since then it was read with RUNSTATE clear -/
  | stopped
  /-- it executes the image, from its start -/
  | running
  deriving DecidableEq

namespace Core

/-- After a store to the control register; `enabled` is what an EN makes of
the core. -/
def commanded (c : Core) (v : Word) (enabled : Core) : Core :=
  if v &&& 2 ≠ 0 then enabled else if c = .foreign then .halting else c

/-- After a read of the control register. -/
def observed (c : Core) (v : Word) : Core :=
  if c = .halting ∧ v &&& pruRunstate = 0 then .stopped else c

/-- How far a core is on its way to the stop. -/
def rank : Core → Nat
  | .foreign => 0
  | .halting => 1
  | .stopped => 2
  | .running => 3

/-- On the way to the stop, and not started. -/
def Eased (c c' : Core) : Prop := c.rank ≤ c'.rank ∧ (c' = .running ↔ c = .running)

theorem Eased.refl (c : Core) : Eased c c := ⟨le_rfl, Iff.rfl⟩

theorem Eased.trans {c c' c'' : Core} (h : Eased c c') (h' : Eased c' c'') : Eased c c'' :=
  ⟨h.1.trans h'.1, h'.2.trans h.2⟩

theorem eased_observed (c : Core) (v : Word) : Eased c (c.observed v) := by
  unfold observed
  split
  · rename_i h
    obtain ⟨rfl, -⟩ := h
    exact ⟨by decide, by decide⟩
  · exact .refl c

theorem eased_commanded (c enabled : Core) {v : Word} (hv : v &&& 2 = 0) :
    Eased c (c.commanded v enabled) := by
  unfold commanded
  rw [if_neg (not_not.mpr hv)]
  split
  · rename_i h
    subst h
    exact ⟨by decide, by decide⟩
  · exact .refl c

/-- A core whose EN was cleared is no longer what it was. -/
theorem rank_commanded (c enabled : Core) {v : Word} (hv : v &&& 2 = 0) :
    1 ≤ (c.commanded v enabled).rank := by
  unfold commanded
  rw [if_neg (not_not.mpr hv)]
  split
  · decide
  · cases c <;> first | exact absurd rfl ‹_› | decide

theorem Eased.stopped {c : Core} (h : Eased .stopped c) : c = .stopped := by
  obtain ⟨hrank, hrunning⟩ := h
  cases c with
  | stopped => rfl
  | running => exact absurd (hrunning.mp rfl) (by decide)
  | _ => exact absurd hrank (by decide)

end Core

/-- No core executes anything but what was started here. -/
def Calm (core : Fin 2 → Core) : Prop := ∀ pru, core pru = .stopped ∨ core pru = .running

instance (core : Fin 2 → Core) : Decidable (Calm core) :=
  inferInstanceAs (Decidable (∀ pru, core pru = .stopped ∨ core pru = .running))

/-- The core that an offset controls. -/
def coreAt (offset : Nat) : Option (Fin 2) :=
  (List.finRange 2).find? fun pru => decide (controlOffsets pru = offset)

theorem coreAt_control : ∀ pru, coreAt (controlOffsets pru) = some pru := by
  decide

theorem coreAt_some {n : Nat} {pru : Fin 2} (h : coreAt n = some pru) :
    n = controlOffsets pru := by
  have hfound : decide (controlOffsets pru = n) = true :=
    List.find?_some (p := fun pru => decide (controlOffsets pru = n)) h
  exact (of_decide_eq_true hfound).symm

/-- The instruction RAM lies behind the control registers. -/
theorem coreAt_iram (word : Nat) : coreAt (pru0Iram + 4 * word) = none := by
  rcases h : coreAt (pru0Iram + 4 * word) with - | pru
  · rfl
  · have hlow : ∀ pru, controlOffsets pru < pru0Iram := by decide
    have hpru := hlow pru
    have hoffset := coreAt_some h
    omega

/-! ### What is watched -/

/-- What the process knows of PRUSS. -/
structure Takeover where
  core : Fin 2 → Core := fun _ => .foreign
  /-- the command block as last stored, where no other core can have changed
  it since -/
  held : Off → Option Word := fun _ => none
  /-- PRUSS memory as last read, where it was not stored since -/
  found : Nat → Option Word := fun _ => none

/-- After a store to PRUSS outside the command block. -/
def Takeover.stored (s : Takeover) (n : Nat) (v : Word) : Takeover :=
  match coreAt n with
  | some pru => { s with
      core := Function.update s.core pru
        ((s.core pru).commanded v (if pru = 0 then .running else .foreign)) }
  | none => { s with found := Function.update s.found n none }

/-- After a read there. -/
def Takeover.read (s : Takeover) (n : Nat) (v : Word) : Takeover :=
  match coreAt n with
  | some pru => { s with core := Function.update s.core pru ((s.core pru).observed v) }
  | none => { s with found := Function.update s.found n (if Calm s.core then some v else none) }

def Takeover.next (s : Takeover) : UEvent → Takeover
  | ⟨.store v (.command off), _⟩ => { s with
      held := Function.update s.held off (if Calm s.core then some v else none) }
  | ⟨.store v (.pruss n), _⟩ => s.stored n v
  | ⟨.load (.pruss n), v⟩ => s.read n v
  | _ => s

/-- Both cores are stopped, the image was read back, and the command block
is filled for `config`. -/
structure Takeover.Prepared (s : Takeover) (image : Nat → Word) (imageBytes : Nat)
    (config : DldConfig) : Prop where
  stopped : ∀ pru, s.core pru = .stopped
  image : ∀ word < imageBytes / 4, s.found (pru0Iram + 4 * word) = some (image word)
  words : ∀ w ∈ initialWords config, s.held w.1 = some w.2

/-- PRU0 is enabled only over what `Prepared` says; the command block is read
only after that, and from then on nothing but its magic is stored.  The file
holds `config`, if anything. -/
def takeover (image : Nat → Word) (imageBytes : Nat) (config : DldConfig) :
    Monitor UOp UOp.Res Takeover where
  env _ e := match e with
    | ⟨.readFile, .content bytes⟩ => ∀ parsed, parseConfig bytes = .ok parsed → parsed = config
    | _ => True
  safe s e := match e with
    | ⟨.store v (.pruss n), _⟩ => ∀ pru ∈ coreAt n, v &&& 2 ≠ 0 →
      s.Prepared image imageBytes config ∧ pru = 0
    | ⟨.store _ (.command off), _⟩ => s.core 0 = .running → off = .magic
    | ⟨.load (.command _), _⟩ => s.core 0 = .running
    | _ => True
  next := Takeover.next

/-- PRU0 executes the image over a command block filled for `config`. -/
structure Takeover.Started (s : Takeover) (config : DldConfig) : Prop where
  running : s.core 0 = .running
  calm : Calm s.core
  words : ∀ w ∈ initialWords config, s.held w.1 = some w.2

/-- What an exit with `code` leaves. -/
def Takeover.Outcome (config : DldConfig) (s : Takeover) (code : DldExitCode) : Prop :=
  (code = .ok → s.Started config) ∧ (code ≠ .ok → Calm s.core → s.held .magic = some 0)

section Steps

variable {α : Type} {image : Nat → Word} {imageBytes : Nat} {config : DldConfig}
variable {s s' : Takeover} {Q : Takeover → α → Prop}

/-! ### What is left alone -/

/-- Everything but PRUSS. -/
def elsewhere : Reach where
  reads r := match r with
    | .gpio .. | .clock _ => True
    | _ => False
  writes r := match r with
    | .gpio .. | .clock _ => True
    | _ => False
  handles := True

theorem takeover_elsewhere {e : UEvent} (he : elsewhere.allows e) :
    (takeover image imageBytes config).safe s e ∧
      (takeover image imageBytes config).next s e = s := by
  obtain ⟨op, v⟩ := e
  cases op with
  | load r => cases r <;> first | exact he.elim | exact ⟨trivial, rfl⟩
  | store w r => cases r <;> first | exact he.elim | exact ⟨trivial, rfl⟩
  | _ => first | exact he.elim | exact ⟨trivial, rfl⟩

theorem wp_elsewhere {p : UProg α} (hp : p.Emits elsewhere.allows) (hQ : ∀ a, Q s a) :
    (takeover image imageBytes config).wp p s Q :=
  Monitor.wp_frame' hp (fun _ he => takeover_elsewhere he) hQ

theorem wp_tracedTakeover {f : UFn} {code : α → DldExitCode} {p : UProg α}
    (hp : (takeover image imageBytes config).wp p s Q) :
    (takeover image imageBytes config).wp (tracedCall f code p) s Q := by
  refine Monitor.wp_op_bind fun _ _ => ⟨trivial, ?_⟩
  rw [Monitor.wp_bind]
  exact Monitor.wp_mono hp fun s' a h => Monitor.wp_op_bind fun _ _ => ⟨trivial, h⟩

/-! ### The stop of the cores -/

/-- The accesses of a stop: no core is enabled, and the command block is left
alone. -/
def Easing (e : UEvent) : Prop :=
  Halting e ∧ match e with
    | ⟨.load (.command _), _⟩ | ⟨.store _ (.command _), _⟩ => False
    | _ => True

theorem emits_stopPrus_easing (mask : Word) (error : String) (cap : Nat) :
    (stopPrus mask error cap).Emits Easing := by
  have hreach : (stopPrus mask error cap).Emits outside.allows :=
    emits_stopPrus outside_pruss outside_pruss mask error cap
  refine (emits_stopPrus_halting mask error cap).and hreach |>.mono ?_
  rintro ⟨op, v⟩ ⟨hhalting, hallowed⟩
  refine ⟨hhalting, ?_⟩
  cases op with
  | load r => cases r <;> first | exact absurd rfl (hallowed _) | trivial
  | store w r => cases r <;> first | exact absurd rfl (hallowed _) | trivial
  | _ => trivial

/-- The stop moves the cores towards their stop and leaves the rest. -/
structure Easier (s s' : Takeover) : Prop where
  core : ∀ pru, (s.core pru).Eased (s'.core pru)
  held : s'.held = s.held

theorem Easier.refl (s : Takeover) : Easier s s := ⟨fun _ => .refl _, rfl⟩

theorem Easier.trans {s'' : Takeover} (h : Easier s s') (h' : Easier s' s'') : Easier s s'' :=
  ⟨fun pru => (h.core pru).trans (h'.core pru), h'.held.trans h.held⟩

/-- One core is updated. -/
theorem Easier.update {pru : Fin 2} {c : Core} (h : (s.core pru).Eased c) :
    Easier s { s with core := Function.update s.core pru c } := by
  refine ⟨fun pru' => ?_, rfl⟩
  by_cases heq : pru' = pru
  · subst heq
    show Core.Eased _ (Function.update s.core pru' c pru')
    rwa [Function.update_self]
  · show Core.Eased _ (Function.update s.core pru c pru')
    rw [Function.update_of_ne heq]
    exact .refl _

theorem easier_next {e : UEvent} (he : Easing e) :
    (takeover image imageBytes config).safe s e ∧
      Easier s ((takeover image imageBytes config).next s e) := by
  obtain ⟨hhalting, hother⟩ := he
  obtain ⟨op, v⟩ := e
  cases op with
  | load r =>
    cases r with
    | command off => exact hother.elim
    | pruss n =>
      refine ⟨trivial, ?_⟩
      show Easier s (s.read n v)
      unfold Takeover.read
      split
      · exact .update (Core.eased_observed _ _)
      · exact ⟨fun _ => .refl _, rfl⟩
    | _ => exact ⟨trivial, .refl s⟩
  | store w r =>
    cases r with
    | command off => exact hother.elim
    | pruss n =>
      obtain ⟨hw, -⟩ := hhalting w (.pruss n) rfl
      have hclear : w &&& 2 = 0 := by
        rcases hw with rfl | rfl <;> rfl
      refine ⟨fun pru _ henabled => absurd hclear henabled, ?_⟩
      show Easier s (s.stored n w)
      unfold Takeover.stored
      split
      · exact .update (Core.eased_commanded _ _ hclear)
      · exact ⟨fun _ => .refl _, rfl⟩
    | _ => exact ⟨trivial, .refl s⟩
  | _ => exact ⟨trivial, .refl s⟩

theorem easier_run {t : List UEvent} (ht : ∀ e ∈ t, Easing e) :
    Easier s ((takeover image imageBytes config).run s t) := by
  induction t generalizing s with
  | nil => exact .refl s
  | cons e t ih =>
    have hfirst : Easier s ((takeover image imageBytes config).next s e) :=
      (easier_next (ht e (.head _))).2
    exact hfirst.trans (ih fun e' he' => ht e' (.tail _ he'))

/-- A core that was disabled, read as stopped and reset has stopped. -/
theorem rank_of_inReset {mask : Word} {t : List UEvent} {pru : Fin 2} (ht : ∀ e ∈ t, Easing e)
    (hrule : ∀ pre e post, t = pre ++ e :: post → StopRule mask pre e) (hreset : InReset pru t)
    (hpru : selected mask pru = true) :
    2 ≤ (((takeover image imageBytes config).run s t).core pru).rank := by
  let M := takeover image imageBytes config
  obtain ⟨pre, v, post, rfl, hv, -⟩ := hreset
  -- before the read the core was disabled
  have hdisabled := (hrule _ _ _ rfl).1 pru v rfl pru hpru
  obtain ⟨before, after, rfl⟩ := List.append_of_mem hdisabled
  have hpre : 1 ≤ ((M.run s (before ++ ⟨.store 1 (control pru), ()⟩ :: after)).core pru).rank := by
    rw [Monitor.run_append, Monitor.run_cons]
    have hafter : Easier _ (M.run (M.next (M.run s before) ⟨.store 1 (control pru), ()⟩) after) :=
      easier_run fun e he => ht e (by simp [he])
    refine le_trans ?_ (hafter.core pru).1
    show 1 ≤ Core.rank (((M.run s before).stored (controlOffsets pru) 1).core pru)
    simp only [Takeover.stored, coreAt_control, Function.update_self]
    exact Core.rank_commanded _ _ rfl
  -- and at the read it had stopped
  rw [Monitor.run_append, Monitor.run_cons]
  have hpost : Easier _ (M.run (M.next (M.run s (before ++ ⟨.store 1 (control pru), ()⟩ :: after))
      ⟨.load (control pru), v⟩) (⟨.store 0 (control pru), ()⟩ :: post)) :=
    easier_run fun e he => ht e (by
      rw [List.mem_append]
      exact .inr (.tail _ he))
  refine le_trans ?_ (hpost.core pru).1
  generalize M.run s (before ++ ⟨.store 1 (control pru), ()⟩ :: after) = s₁ at hpre ⊢
  show 2 ≤ Core.rank ((s₁.read (controlOffsets pru) v).core pru)
  simp only [Takeover.read, coreAt_control, Function.update_self]
  rcases hc : s₁.core pru with - | - | - | -
  · rw [hc] at hpre
    exact absurd hpre (by decide)
  · rw [Core.observed, if_pos ⟨rfl, hv⟩]
    exact le_rfl
  · exact le_rfl
  · exact (by decide : 2 ≤ 3)

theorem wp_stopPrus_takeover (mask : Word) (error : String) (cap : Nat) :
    (takeover image imageBytes config).wp (stopPrus mask error cap) s fun s' r => Easier s s' ∧
      (r.1 = true → ∀ pru, selected mask pru = true → 2 ≤ (s'.core pru).rank) := by
  have heasing := emits_stopPrus_easing mask error cap
  have hsafe : (takeover image imageBytes config).wp (stopPrus mask error cap) s fun _ _ => True :=
    Monitor.wp_invariant heasing trivial fun _ _ he _ _ => ⟨(easier_next he).1, trivial⟩
  have hall : (stopPrus mask error cap).All fun t r => (∀ e ∈ t, Easing e) ∧
      (r.1 = true → ∀ pru, selected mask pru = true →
        ∀ s, 2 ≤ (((takeover image imageBytes config).run s t).core pru).rank) := by
    refine Prog.all_iff.mpr fun t r hrun => ?_
    have ht := heasing.runs hrun
    obtain ⟨hrule, -, hreset⟩ := Monitor.history_runs (wp_stopPrus mask error cap) hrun
    exact ⟨ht, fun hok pru hpru s => rank_of_inReset ht hrule (hreset hok pru hpru) hpru⟩
  refine Monitor.wp_mono (Monitor.wp_all hsafe hall) ?_
  rintro _ r ⟨-, t, rfl, ht, hstopped⟩
  exact ⟨easier_run ht, fun hok pru hpru => hstopped hok pru hpru s⟩

/-! ### Taking control -/

/-- Stores to PRUSS that reach no core. -/
def Aside (e : UEvent) : Prop :=
  match e with
  | ⟨.store _ (.pruss n), _⟩ => coreAt n = none
  | ⟨.barrier, _⟩ => True
  | _ => False

theorem emits_disableNotifications_aside : disableNotifications.Emits Aside := by
  have hstore (v : Word) {n : Nat} (hn : coreAt n = none) : (store v (.pruss n)).Emits Aside :=
    (Prog.emits_op _).mpr fun _ => hn
  refine Prog.emits_bind (hstore 19 (by decide)) fun _ => ?_
  refine Prog.emits_bind (hstore 20 (by decide)) fun _ => ?_
  refine Prog.emits_bind (hstore 2 (by decide)) fun _ => ?_
  refine Prog.emits_bind (hstore 3 (by decide)) fun _ => ?_
  refine Prog.emits_bind (hstore 19 (by decide)) fun _ => ?_
  refine Prog.emits_bind (hstore 20 (by decide)) fun _ => ?_
  exact (Prog.emits_op _).mpr fun _ => trivial

/-- PRUSS memory apart, nothing changes. -/
structure Beyond (s s' : Takeover) : Prop where
  core : s'.core = s.core
  held : s'.held = s.held

theorem wp_disableNotifications {Q : Takeover → Unit → Prop}
    (hQ : ∀ s', Beyond s s' → Q s' ()) :
    (takeover image imageBytes config).wp disableNotifications s Q := by
  refine Monitor.wp_mono (Monitor.wp_invariant (I := Beyond s) emits_disableNotifications_aside
    ⟨rfl, rfl⟩ ?_) fun s' _ hs' => hQ s' hs'
  rintro s' ⟨op, v⟩ he hs' -
  cases op with
  | store w r =>
    cases r with
    | pruss n =>
      have he : coreAt n = none := he
      refine ⟨fun pru hpru => absurd hpru (by rw [he]; exact fun h => by cases h), ?_⟩
      show Beyond s (s'.stored n w)
      rw [Takeover.stored, he]
      exact ⟨hs'.core, hs'.held⟩
    | _ => exact he.elim
  | barrier => exact ⟨trivial, hs'⟩
  | _ => exact he.elim

/-- The command block without a magic, as far as it can be told. -/
theorem wp_storeMagic {Q : Takeover → Unit → Prop}
    (hQ : ∀ s', s'.core = s.core → (Calm s.core → s'.held .magic = some 0) → Q s' ()) :
    (takeover image imageBytes config).wp (store 0 (.command .magic)) s Q := by
  refine fun _ _ => ⟨fun _ => rfl, hQ _ rfl fun hcalm => ?_⟩
  show Function.update s.held .magic (if Calm s.core then some 0 else none) .magic = some 0
  rw [Function.update_self, if_pos hcalm]

/-- A success of the takeover has stopped both cores. -/
theorem wp_dldHwTakeControl_takeover {hw : DldHw} {error : String} {cap : Nat}
    (hforeign : ∀ pru, s.core pru ≠ .running) :
    (takeover image imageBytes config).wp (dldHwTakeControl hw error cap) s fun s' r =>
      r.2.1 = true → ∀ pru, s'.core pru = .stopped := by
  refine wp_tracedTakeover (Monitor.wp_ite.mpr ⟨fun _ => ?_, fun _ => ?_⟩)
  · rw [Monitor.wp_bind]
    exact wp_elsewhere (emits_failErrno _ _ _) fun _ h => by cases h
  rw [Monitor.wp_bind]
  refine Monitor.wp_mono (wp_stopPrus_takeover 3 error cap) ?_
  rintro s₁ ⟨stopped, error⟩ ⟨hs₁, hstopped⟩
  rw [Monitor.wp_bind]
  refine wp_disableNotifications fun s₂ hs₂ => ?_
  rw [Monitor.wp_bind]
  refine wp_storeMagic fun s₃ hs₃ _ => Monitor.wp_op_bind fun _ _ => ⟨trivial, fun hok pru => ?_⟩
  show s₃.core pru = .stopped
  have hrank := hstopped hok pru (by revert pru; decide)
  rw [hs₃, hs₂.core]
  rcases hc : s₁.core pru with - | - | - | -
  · rw [hc] at hrank
    exact absurd hrank (by decide)
  · rw [hc] at hrank
    exact absurd hrank (by decide)
  · rfl
  · exact absurd ((hs₁.core pru).2.mp hc) (hforeign pru)

/-! ### Filling and starting -/

/-- The words are held, one after the other. -/
theorem wp_storeWords_takeover {words : List (Off × Word)} {Q : Takeover → Unit → Prop}
    (hstopped : ∀ pru, s.core pru = .stopped) (hnodup : (words.map Prod.fst).Nodup)
    (hQ : ∀ s', s'.core = s.core → (∀ w ∈ words, s'.held w.1 = some w.2) →
      (∀ off ∉ words.map Prod.fst, s'.held off = s.held off) → Q s' ()) :
    (takeover image imageBytes config).wp (storeWords words) s Q := by
  induction words generalizing s Q with
  | nil => exact hQ s rfl (fun _ h => absurd h List.not_mem_nil) fun _ _ => rfl
  | cons w rest ih =>
    rw [List.map_cons, List.nodup_cons] at hnodup
    have hcalm : Calm s.core := fun pru => .inl (hstopped pru)
    refine Monitor.wp_op_bind fun _ _ => ⟨fun hrunning => ?_, ?_⟩
    · rw [hstopped 0] at hrunning
      cases hrunning
    refine ih hstopped hnodup.2 fun s' hcore hwords hothers => hQ s' hcore ?_ fun off hoff => ?_
    · intro x hx
      rcases List.mem_cons.mp hx with rfl | hx
      · refine (hothers _ hnodup.1).trans ?_
        show Function.update s.held x.1 (if Calm s.core then some x.2 else none) x.1 = some x.2
        rw [Function.update_self, if_pos hcalm]
      · exact hwords x hx
    · rw [List.map_cons, List.mem_cons, not_or] at hoff
      exact (hothers off hoff.2).trans (Function.update_of_ne hoff.1 _ _)

theorem wp_copyCode_takeover {words : List Nat} {Q : Takeover → Unit → Prop}
    (hQ : ∀ s', Beyond s s' → Q s' ()) :
    (takeover image imageBytes config).wp (copyCode image words) s Q := by
  induction words generalizing s with
  | nil => exact hQ s ⟨rfl, rfl⟩
  | cons word rest ih =>
    refine Monitor.wp_op_bind fun _ _ => ⟨fun pru hpru => ?_, ih fun s' hs' => hQ s' ?_⟩
    · rw [coreAt_iram] at hpru
      cases hpru
    · have hnext : (takeover image imageBytes config).next s ⟨.store (image word) (iram word), ()⟩ =
          s.stored (pru0Iram + 4 * word) (image word) := rfl
      rw [hnext, Takeover.stored, coreAt_iram] at hs'
      exact ⟨hs'.core, hs'.held⟩

/-- A verification that finds nothing has read back every word. -/
theorem wp_verifyCode_takeover {words : List Nat} {Q : Takeover → Option Nat → Prop}
    (hcalm : Calm s.core) (hnodup : words.Nodup)
    (hQ : ∀ s' bad, Beyond s s' →
      (∀ n, (∀ word ∈ words, n ≠ pru0Iram + 4 * word) → s'.found n = s.found n) →
      (bad = none → ∀ word ∈ words, s'.found (pru0Iram + 4 * word) = some (image word)) →
      Q s' bad) :
    (takeover image imageBytes config).wp (verifyCode image words) s Q := by
  induction words generalizing s Q with
  | nil =>
    exact hQ s none ⟨rfl, rfl⟩ (fun _ _ => rfl) fun _ _ h => absurd h List.not_mem_nil
  | cons word rest ih =>
    rw [List.nodup_cons] at hnodup
    refine Monitor.wp_op_bind fun v _ => ⟨trivial, ?_⟩
    have hnext : (takeover image imageBytes config).next s ⟨.load (iram word), v⟩ =
        { s with found := Function.update s.found (pru0Iram + 4 * word) (some v) } := by
      show s.read (pru0Iram + 4 * word) v = _
      rw [Takeover.read, coreAt_iram, if_pos hcalm]
    rw [hnext]
    have hother {n : Nat} (hn : ∀ w ∈ word :: rest, n ≠ pru0Iram + 4 * w) :
        Function.update s.found (pru0Iram + 4 * word) (some v) n = s.found n :=
      Function.update_of_ne (hn word (.head _)) _ _
    refine Monitor.wp_ite.mpr ⟨fun _ => ?_, ?_⟩
    · exact hQ _ _ ⟨rfl, rfl⟩ (fun n hn => hother hn) fun h => by cases h
    intro hsame
    refine ih hcalm hnodup.2 fun s' bad hs' hkept hread => hQ s' bad ⟨hs'.core, hs'.held⟩ ?_ ?_
    · exact fun n hn => (hkept n fun w hw => hn w (.tail _ hw)).trans (hother hn)
    · intro hbad w hw
      rcases List.mem_cons.mp hw with rfl | hw
      · refine (hkept _ fun w' hw' heq => hnodup.1 ?_).trans ?_
        · obtain rfl : w = w' := by omega
          exact hw'
        · show Function.update s.found (pru0Iram + 4 * w) (some v) (pru0Iram + 4 * w) = _
          rw [Function.update_self, not_not.mp hsame]
      · exact hread hbad w hw

/-- PRU0 is started over the image. -/
theorem wp_dldHwStart_takeover {hw : DldHw} {error : String} {cap : Nat}
    (hstopped : ∀ pru, s.core pru = .stopped)
    (hwords : ∀ w ∈ initialWords config, s.held w.1 = some w.2) :
    (takeover image imageBytes config).wp (dldHwStart hw image imageBytes error cap) s
      fun s' r => r.1 = true → s'.Started config := by
  refine Monitor.wp_ite.mpr ⟨fun _ => ?_, fun _ => ?_⟩
  · rw [Monitor.wp_bind]
    exact wp_elsewhere (emits_failErrno _ _ _) fun _ h => by cases h
  rw [Monitor.wp_bind]
  refine Monitor.wp_mono (wp_stopPrus_takeover 1 error cap) ?_
  rintro s₁ ⟨stopped, error⟩ ⟨hs₁, -⟩
  refine Monitor.wp_ite.mpr ⟨fun _ h => (by cases h), fun _ => ?_⟩
  have hstopped₁ (pru : Fin 2) : s₁.core pru = .stopped := by
    have heased := hs₁.core pru
    rw [hstopped pru] at heased
    exact heased.stopped
  rw [Monitor.wp_bind]
  refine wp_copyCode_takeover fun s₂ hs₂ => ?_
  refine Monitor.wp_op_bind fun _ _ => ⟨trivial, ?_⟩
  show (takeover image imageBytes config).wp _ s₂ _
  have hstopped₂ (pru : Fin 2) : s₂.core pru = .stopped := by rw [hs₂.core, hstopped₁ pru]
  rw [Monitor.wp_bind]
  refine wp_verifyCode_takeover (fun pru => .inl (hstopped₂ pru)) List.nodup_range ?_
  intro s₃ bad hs₃ _ hread
  rcases bad with - | word
  swap
  · exact fun h => by cases h
  have hstopped₃ (pru : Fin 2) : s₃.core pru = .stopped := by rw [hs₃.core, hstopped₂ pru]
  have hwords₃ : ∀ w ∈ initialWords config, s₃.held w.1 = some w.2 := by
    intro w hw
    rw [hs₃.held, hs₂.held, hs₁.held]
    exact hwords w hw
  have hprepared : s₃.Prepared image imageBytes config :=
    ⟨hstopped₃, fun word hword => hread rfl word (List.mem_range.mpr hword), hwords₃⟩
  refine Monitor.wp_op_bind fun _ _ => ⟨fun pru hpru _ => ⟨hprepared, ?_⟩, ?_⟩
  · rw [coreAt_control] at hpru
    exact (Option.mem_some_iff.mp hpru).symm
  have hnext : (takeover image imageBytes config).next s₃
      ⟨.store 2 (.pruss (controlOffsets 0)), ()⟩ =
        { s₃ with core := Function.update s₃.core 0 .running } := by
    show s₃.stored (controlOffsets 0) 2 = _
    rw [Takeover.stored, coreAt_control]
    rfl
  refine Monitor.wp_op_bind fun _ _ => ⟨trivial, fun _ => ?_⟩
  rw [hnext]
  show Takeover.Started { s₃ with core := Function.update s₃.core 0 .running } config
  have hrunning : Function.update s₃.core 0 Core.running 0 = .running := Function.update_self ..
  refine ⟨hrunning, fun pru => ?_, hwords₃⟩
  by_cases hpru : pru = 0
  · subst hpru
    exact .inr hrunning
  · exact .inl ((Function.update_of_ne hpru _ _).trans (hstopped₃ pru))

/-! ### The readiness wait -/

/-- Reads of the command block, and what touches no register. -/
def Looking (e : UEvent) : Prop :=
  match e with
  | ⟨.store .., _⟩ | ⟨.load (.pruss _), _⟩ | ⟨.readFile, _⟩ => False
  | _ => True

theorem takeover_looking {e : UEvent} (he : Looking e) (hrunning : s.core 0 = .running) :
    (takeover image imageBytes config).safe s e ∧
      (takeover image imageBytes config).next s e = s := by
  obtain ⟨op, v⟩ := e
  cases op with
  | load r =>
    cases r with
    | command off => exact ⟨hrunning, rfl⟩
    | pruss n => exact he.elim
    | _ => exact ⟨trivial, rfl⟩
  | store w r => exact he.elim
  | readFile => exact he.elim
  | _ => exact ⟨trivial, rfl⟩

theorem emits_waitReady (deadline : Timespec) (error : String) (cap fuel : Nat) :
    (waitReady deadline error cap fuel).Emits Looking := by
  have hop (o : UOp) (ho : ∀ r, Looking ⟨o, r⟩) : (uop o).Emits Looking :=
    (Prog.emits_op o).mpr ho
  have hreport {β : Type} (f : String → β) :
      (strerror >>= fun text => pure (f text)).Emits Looking :=
    fun _ => ⟨trivial, trivial⟩
  have hwords (snapshot : DldCommand) (offs : List Off) :
      (loadWords snapshot offs).Emits Looking := by
    induction offs generalizing snapshot with
    | nil => exact Prog.emits_pure _
    | cons off rest ih => exact Prog.emits_op_bind.mpr fun _ => ⟨trivial, ih _⟩
  have hconfirm : (confirmReady deadline error cap).Emits Looking := by
    refine Prog.emits_op_bind.mpr fun now => ⟨trivial, ?_⟩
    rcases now with errno | now
    · exact hreport _
    · exact Prog.emits_ite (fun _ => Prog.emits_pure _) fun _ => Prog.emits_pure _
  have hjudge (state : DldCommand) : (judgeReady deadline state error cap).Emits Looking := by
    refine Prog.emits_ite (fun _ => Prog.emits_pure _) fun _ => ?_
    refine Prog.emits_ite (fun _ => Prog.emits_map_iff.mpr hconfirm) fun _ => ?_
    exact Prog.emits_ite (fun _ => Prog.emits_pure _) fun _ => Prog.emits_pure _
  have hround : (readyRound deadline error cap).Emits Looking := by
    refine Prog.emits_op_bind.mpr fun flag => ⟨trivial, Prog.emits_ite (fun _ => ?_) fun _ => ?_⟩
    · exact Prog.emits_op_bind.mpr fun _ => ⟨trivial, Prog.emits_pure _⟩
    refine Prog.emits_op_bind.mpr fun now => ⟨trivial, ?_⟩
    rcases now with errno | now
    · exact hreport _
    refine Prog.emits_ite (fun _ => Prog.emits_pure _) fun _ => ?_
    refine Prog.emits_bind ?_ hjudge
    refine Prog.emits_op_bind.mpr fun _ => ⟨trivial, ?_⟩
    exact Prog.emits_op_bind.mpr fun _ => ⟨trivial, hwords _ _⟩
  induction fuel with
  | zero => exact Prog.emits_op_bind.mpr fun never => never.elim
  | succ fuel ih =>
    refine Prog.emits_bind hround fun result => ?_
    rcases result with - | result
    · refine Prog.emits_op_bind.mpr fun slept => ⟨trivial, ?_⟩
      exact Prog.emits_ite (fun _ => hreport _) fun _ => ih
    · exact Prog.emits_pure _

/-! ### From the mailbox to the exit -/

section Fill

variable {fuel : Nat} {hw : DldHw} {error : String} {cap : Nat}

theorem wp_startFirmware_takeover {deadline : Timespec} (hstopped : ∀ pru, s.core pru = .stopped)
    (hwords : ∀ w ∈ initialWords config, s.held w.1 = some w.2) :
    (takeover image imageBytes config).wp
      (startFirmware fuel image imageBytes hw deadline config error cap) s
      fun s' r => r.1 = .ok → s'.Started config := by
  rw [startFirmware, Monitor.wp_bind]
  refine Monitor.wp_mono (wp_dldHwStart_takeover hstopped hwords) ?_
  rintro s₁ ⟨started, error⟩ hstarted
  refine Monitor.wp_ite.mpr ⟨fun _ h => (by cases h), fun hnot => ?_⟩
  have hstarted : s₁.Started config := hstarted (Bool.not_eq_false _ ▸ hnot)
  rw [Monitor.wp_bind]
  refine Monitor.wp_frame' (emits_waitReady _ _ _ _)
    (fun e he => takeover_looking he hstarted.running) ?_
  rintro ⟨ready, error⟩
  refine Monitor.wp_ite.mpr ⟨fun _ h => (by cases h), fun _ => ?_⟩
  refine Monitor.wp_op_bind fun flag _ => ⟨trivial, Monitor.wp_ite.mpr ⟨fun _ => ?_, fun _ => ?_⟩⟩
  · exact Monitor.wp_op_bind fun _ _ => ⟨trivial, fun h => by cases h⟩
  · refine Monitor.wp_op_bind fun _ _ => ⟨trivial, ?_⟩
    exact Monitor.wp_op_bind fun _ _ => ⟨trivial, fun _ => hstarted⟩

theorem wp_fillMailbox_takeover (hstopped : ∀ pru, s.core pru = .stopped) :
    (takeover image imageBytes config).wp (fillMailbox fuel image imageBytes hw config error cap) s
      fun s' r => r.1 = .ok → s'.Started config := by
  rw [fillMailbox, Monitor.wp_bind]
  refine wp_storeWords_takeover hstopped (initialWords_nodup config) fun s₁ hcore hwords _ => ?_
  refine Monitor.wp_op_bind fun _ _ => ⟨trivial, ?_⟩
  refine Monitor.wp_op_bind fun flag _ => ⟨trivial, ?_⟩
  refine Monitor.wp_ite.mpr ⟨fun _ h => (by cases h), fun _ => ?_⟩
  refine Monitor.wp_op_bind fun now _ => ⟨trivial, ?_⟩
  rcases now with errno | now
  · exact Monitor.wp_op_bind fun _ _ => ⟨trivial, fun h => by cases h⟩
  · exact wp_startFirmware_takeover (fun pru => by rw [← hstopped pru]; exact congrFun hcore pru)
      hwords

theorem wp_initTaken_takeover (hforeign : ∀ pru, s.core pru ≠ .running) :
    (takeover image imageBytes config).wp (initTaken fuel image imageBytes hw config error cap) s
      fun s' r => r.2.1 = .ok → s'.Started config := by
  rw [initTaken, Monitor.wp_bind]
  refine Monitor.wp_mono (wp_dldHwTakeControl_takeover hforeign) ?_
  rintro s₁ ⟨hw₁, stopped, error⟩ hstopped
  refine Monitor.wp_ite.mpr ⟨fun _ h => (by cases h), fun hnot => ?_⟩
  rw [Monitor.wp_bind]
  refine wp_elsewhere (emits_dldHwConfigureOutputs trivial (fun _ => trivial) (fun _ => trivial)
    (fun _ _ => trivial) (fun _ _ => trivial) _ _ _) ?_
  rintro ⟨hw₂, configured, error⟩
  refine Monitor.wp_ite.mpr ⟨fun _ h => (by cases h), fun _ => ?_⟩
  rw [Monitor.wp_bind]
  refine Monitor.wp_mono (wp_fillMailbox_takeover (hstopped (Bool.not_eq_false _ ▸ hnot))) ?_
  rintro s₂ ⟨code, error⟩ hstarted
  exact hstarted

/-- The mapping of PRUSS is kept to the label `done`. -/
theorem initTaken_mapped (hmap : hw.prussMap ≠ none) :
    (initTaken fuel image imageBytes hw config error cap).All fun _ r => r.1.prussMap ≠ none := by
  have htake : (dldHwTakeControl hw error cap).All fun _ r => r.1.prussMap ≠ none := by
    refine Prog.all_op_bind.mpr fun _ => Prog.all_bind.mpr ?_
    refine Prog.all_mono (Q := fun _ r => r.1.prussMap ≠ none) ?_ ?_
    · refine Prog.all_ite.mpr ⟨fun h => absurd h hmap, fun _ => ?_⟩
      refine Prog.all_bind.mpr (Prog.all_of_forall fun _ _ => ?_)
      refine Prog.all_bind.mpr (Prog.all_of_forall fun _ _ => ?_)
      exact Prog.all_op_bind.mpr fun _ => Prog.all_op_bind.mpr fun _ => hmap
    · exact fun _ _ h => Prog.all_op_bind.mpr fun _ => h
  refine Prog.all_bind.mpr (Prog.all_mono htake ?_)
  rintro - ⟨hw₁, stopped, error⟩ hmap₁
  refine Prog.all_ite.mpr ⟨fun _ => hmap₁, fun _ => ?_⟩
  refine Prog.all_bind.mpr (Prog.all_mono (dldHwConfigureOutputs_prussMap hw₁ error cap) ?_)
  rintro - ⟨hw₂, configured, error⟩ hmap₂
  have hmap₂' : hw₂.prussMap ≠ none := by
    rw [hmap₂]
    exact hmap₁
  refine Prog.all_ite.mpr ⟨fun _ => hmap₂', fun _ => ?_⟩
  exact Prog.all_bind.mpr (Prog.all_of_forall fun _ _ => hmap₂')

end Fill

/-- The cleanup of a mapped PRUSS leaves no magic where it could stop the
cores. -/
theorem wp_dldHwCleanup_takeover {hw : DldHw} (hmap : hw.prussMap ≠ none) :
    (takeover image imageBytes config).wp (dldHwCleanup hw) s fun s' _ =>
      Calm s'.core → s'.held .magic = some 0 := by
  refine wp_tracedTakeover (Monitor.wp_ite.mpr ⟨fun h => absurd h hmap, fun _ => ?_⟩)
  rw [Monitor.wp_bind]
  refine Monitor.wp_mono (wp_stopPrus_takeover 3 "" 192) ?_
  rintro s₁ ⟨stopped, error⟩ -
  have hrest : (takeover image imageBytes config).wp (do
      store 0 (.command .magic)
      memoryBarrier
      disableNotifications
      cleanupOutputs hw error) s₁ fun s' _ => Calm s'.core → s'.held .magic = some 0 := by
    rw [Monitor.wp_bind]
    refine wp_storeMagic fun s₂ hs₂ hmagic => Monitor.wp_op_bind fun _ _ => ⟨trivial, ?_⟩
    show (takeover image imageBytes config).wp _ s₂ _
    rw [Monitor.wp_bind]
    refine wp_disableNotifications fun s₃ hs₃ => ?_
    refine wp_elsewhere (emits_cleanupOutputs trivial (fun _ => trivial) (fun _ => trivial)
      (fun _ _ => trivial) (fun _ _ => trivial) _ _) fun _ hcalm => ?_
    rw [hs₃.core, hs₂] at hcalm
    rw [hs₃.held]
    exact hmagic hcalm
  refine Monitor.wp_ite.mpr ⟨fun _ => ?_, fun _ => hrest⟩
  exact Monitor.wp_op_bind fun _ _ => ⟨trivial, hrest⟩

section Exit

variable {code : DldExitCode} {error : String} {lockFd : Nat}

theorem wp_initReport_takeover (h : s.Outcome config code) :
    (takeover image imageBytes config).wp (initReport code error) s (Takeover.Outcome config) := by
  refine Monitor.wp_ite.mpr ⟨fun _ => ?_, fun _ => h⟩
  exact Monitor.wp_op_bind fun _ _ => ⟨trivial, h⟩

theorem wp_initUnopened_takeover (h : s.Outcome config code) :
    (takeover image imageBytes config).wp (initUnopened lockFd code error) s
      (Takeover.Outcome config) :=
  Monitor.wp_op_bind fun _ _ => ⟨trivial, wp_initReport_takeover h⟩

/-- An exit before anything was taken over: the cores may do anything. -/
theorem Takeover.Outcome.untaken (hforeign : ¬ Calm s.core) (hcode : code ≠ .ok) :
    s.Outcome config code :=
  ⟨fun hok => absurd hok hcode, fun _ hcalm => absurd hcalm hforeign⟩

theorem wp_initDone_takeover {hw : DldHw} {taken : Bool} (hmap : hw.prussMap ≠ none)
    (hstarted : code = .ok → s.Started config) (htaken : taken = false → ¬ Calm s.core) :
    (takeover image imageBytes config).wp (initDone hw taken lockFd code error) s
      (Takeover.Outcome config) := by
  refine Monitor.wp_ite.mpr ⟨fun hfailed => ?_, fun hkept => ?_⟩
  · rw [Monitor.wp_bind]
    refine Monitor.wp_mono (wp_dldHwCleanup_takeover hmap) fun s' hw' hmagic => ?_
    rw [Monitor.wp_bind]
    refine wp_elsewhere (emits_dldHwClose trivial _) fun _ => wp_initUnopened_takeover ?_
    exact ⟨fun hok => absurd hok hfailed.1, fun _ => hmagic⟩
  · rw [Monitor.wp_bind]
    refine wp_elsewhere (emits_dldHwClose trivial _) fun _ => wp_initUnopened_takeover ?_
    refine ⟨hstarted, fun hbad hcalm => absurd hcalm (htaken ?_)⟩
    exact Bool.eq_false_iff.mpr fun h => hkept ⟨hbad, h⟩

end Exit

/-! ### main -/

/-- No core is under control. -/
theorem not_calm (hforeign : ∀ pru, s.core pru = .foreign) : ¬ Calm s.core := by
  intro hcalm
  rcases hcalm 0 with h | h <;> rw [hforeign 0] at h <;> cases h

theorem wp_initLocked_takeover {fuel cap lockFd : Nat} {error : String}
    (hforeign : ∀ pru, s.core pru = .foreign) :
    (takeover image imageBytes config).wp
      (initLocked fuel image imageBytes config lockFd error cap) s (Takeover.Outcome config) := by
  have huntaken {code : DldExitCode} (hcode : code ≠ .ok) : s.Outcome config code :=
    .untaken (not_calm hforeign) hcode
  refine Monitor.wp_op_bind fun euid _ => ⟨trivial, ?_⟩
  refine Monitor.wp_ite.mpr ⟨fun _ => ?_, fun _ => ?_⟩
  · exact wp_initUnopened_takeover (huntaken fun h => by cases h)
  rw [Monitor.wp_bind]
  refine Monitor.wp_frame (emits_dldHwOpen trivial _ _ _) (fun _ he => takeover_elsewhere he)
    (dldHwOpen_prussMap _ _ _) ?_
  rintro ⟨hw, opened, error⟩ hmap
  refine Monitor.wp_ite.mpr ⟨fun _ => ?_, fun hopened => ?_⟩
  · exact wp_initUnopened_takeover (huntaken fun h => by cases h)
  have hmap : hw.prussMap ≠ none := hmap (Bool.not_eq_false _ ▸ hopened)
  refine Monitor.wp_op_bind fun flag _ => ⟨trivial, Monitor.wp_ite.mpr ⟨fun _ => ?_, fun _ => ?_⟩⟩
  · exact wp_initDone_takeover hmap (fun h => by cases h) fun _ => not_calm hforeign
  · rw [Monitor.wp_bind]
    have hmapped : (initTaken fuel image imageBytes hw config error cap).All
        fun _ r => r.1.prussMap ≠ none := initTaken_mapped hmap
    have hstopped (pru : Fin 2) : s.core pru ≠ .running := by
      rw [hforeign pru]
      exact fun h => by cases h
    refine Monitor.wp_mono (Monitor.wp_all (wp_initTaken_takeover hstopped) hmapped) ?_
    rintro s' ⟨hw', code, error⟩ ⟨hstarted, -, -, hmap'⟩
    exact wp_initDone_takeover hmap' hstarted (fun h => by cases h)

/-- `dld-init` takes the cores over. -/
theorem wp_dldInit_takeover {fuel : Nat} (args : List String) :
    (takeover image imageBytes config).wp (dldInit fuel image imageBytes args) {}
      (Takeover.Outcome config) := by
  have hforeign (pru : Fin 2) : ({} : Takeover).core pru = .foreign := rfl
  have huntaken {code : DldExitCode} (hcode : code ≠ .ok) :
      ({} : Takeover).Outcome config code := .untaken (not_calm hforeign) hcode
  have husage : (takeover image imageBytes config).wp (do
      uop (.printError "usage: dld-init CONFIG_FILE\n")
      pure DldExitCode.badArgument) {} (Takeover.Outcome config) :=
    Monitor.wp_op_bind fun _ _ => ⟨trivial, huntaken (fun h => by cases h)⟩
  rcases args with - | ⟨path, - | ⟨extra, rest⟩⟩
  · exact husage
  swap
  · exact husage
  rw [dldInit, Monitor.wp_bind]
  have hread : (takeover image imageBytes config).wp (dldReadConfig path default "" 256) {}
      fun s r => s = {} ∧ (r.1 = .ok → r.2.1 = config) := by
    refine Monitor.wp_op_bind fun file henv => ⟨trivial, ?_⟩
    rcases file with bytes | - | - | - | -
    · rcases hparse : parseConfig bytes with text | parsed
      · simp only [dldParseConfig, hparse]
        exact ⟨rfl, fun h => by cases h⟩
      · simp only [dldParseConfig, hparse]
        exact ⟨rfl, fun _ => henv parsed hparse⟩
    · exact Monitor.wp_op_bind fun _ _ => ⟨trivial, rfl, fun h => by cases h⟩
    · exact Monitor.wp_op_bind fun _ _ => ⟨trivial, rfl, fun h => by cases h⟩
    · exact ⟨rfl, fun h => by cases h⟩
    · exact ⟨rfl, fun h => by cases h⟩
  refine Monitor.wp_mono hread ?_
  rintro _ ⟨code, parsed, error⟩ ⟨rfl, hconfig⟩
  refine Monitor.wp_ite.mpr ⟨fun hbad => wp_initReport_takeover (huntaken hbad), fun hgood => ?_⟩
  obtain rfl : parsed = config := hconfig (not_not.mp hgood)
  rw [Monitor.wp_bind, dldInstallSignals, Monitor.wp_bind]
  have hhandlers (n : Nat) : (takeover image imageBytes parsed).wp (installHandlers n) {}
      fun s _ => s = {} := by
    induction n with
    | zero => rfl
    | succ n ih =>
      refine Monitor.wp_op_bind fun failed _ => ⟨trivial, ?_⟩
      exact Monitor.wp_ite.mpr ⟨fun _ => rfl, fun _ => ih⟩
  refine Monitor.wp_mono (hhandlers 3) ?_
  rintro _ installed rfl
  refine Monitor.wp_ite.mpr ⟨fun _ => ?_, fun _ => ?_⟩
  swap
  · refine Monitor.wp_op_bind fun _ _ => ⟨trivial, ?_⟩
    refine Monitor.wp_ite.mpr ⟨fun _ => ?_, fun h => absurd rfl h⟩
    exact wp_initReport_takeover (huntaken (fun h => by cases h))
  refine Monitor.wp_ite.mpr ⟨fun h => (by cases h), fun _ => ?_⟩
  rw [Monitor.wp_bind]
  refine Monitor.wp_frame (emits_dldLock trivial _ _) (fun _ he => takeover_elsewhere he)
    dldLock_error ?_
  rintro ⟨code | lockFd, error⟩ hcode
  · exact wp_initReport_takeover (huntaken (hcode code rfl))
  · exact wp_initLocked_takeover hforeign

end Steps

end Dld
