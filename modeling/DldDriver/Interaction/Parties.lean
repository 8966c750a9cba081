/-
DldDriver/Interaction/Parties.lean

Several parties over one memory: clients that run finite programs, and one
device that runs a machine.  Their operations interleave in any order; each
is one atomic step on the memory.

    Step S w a w'     one operation of one party
    Run S w t w'      the operations t, in order

Each party is watched by a monitor of its own.  `Upholds` relates them: the
global invariant implies what each monitor expects of its environment, and
safe operations keep it.  From that, `Good.run` carries the invariant and
every party's verification along a whole run, in which each monitor has
seen exactly the party's own events (`events`, `deviceEvents`).
-/
import Mathlib.Logic.Function.Basic
import Mathlib.Data.List.Count
import DldDriver.Interaction.Machine

namespace Interaction

variable {ι : Type} [DecidableEq ι] {Op₁ Op₂ : Type} {Res₁ : Op₁ → Type} {Res₂ : Op₂ → Type}
variable {Λ Mem α σ₁ σ₂ : Type}

/-! ### Systems and their runs -/

/-- What the operations of the parties do to the memory, and the code of
the device. -/
structure System (ι Op₁ : Type) (Res₁ : Op₁ → Type) (Op₂ : Type) (Res₂ : Op₂ → Type)
    (Λ Mem : Type) where
  code : Code Op₂ Res₂ Λ
  client : ι → Mem → Event Op₁ Res₁ → Mem → Prop
  device : Mem → Event Op₂ Res₂ → Mem → Prop

/-- The memory, and what each party has left to do. -/
structure World (ι Op₁ : Type) (Res₁ : Op₁ → Type) (Op₂ : Type) (Res₂ : Op₂ → Type)
    (Λ Mem α : Type) where
  mem : Mem
  clients : ι → Prog Op₁ Res₁ α
  device : Prog Op₂ Res₂ (Option Λ)

/-- An operation of a client, or of the device. -/
abbrev Act (ι Op₁ : Type) (Res₁ : Op₁ → Type) (Op₂ : Type) (Res₂ : Op₂ → Type) :=
  (ι × Event Op₁ Res₁) ⊕ Event Op₂ Res₂

namespace System

variable (S : System ι Op₁ Res₁ Op₂ Res₂ Λ Mem)

/-- One operation of one party. -/
inductive Step : World ι Op₁ Res₁ Op₂ Res₂ Λ Mem α → Act ι Op₁ Res₁ Op₂ Res₂ →
    World ι Op₁ Res₁ Op₂ Res₂ Λ Mem α → Prop
  | client {w : World ι Op₁ Res₁ Op₂ Res₂ Λ Mem α} {i o k m'} (r : Res₁ o)
      (hp : w.clients i = .call o k) (hm : S.client i w.mem ⟨o, r⟩ m') :
      Step w (.inl (i, ⟨o, r⟩)) ⟨m', Function.update w.clients i (k r), w.device⟩
  | device {w : World ι Op₁ Res₁ Op₂ Res₂ Λ Mem α} {e q m'}
      (hp : Machine.Steps S.code w.device [e] q) (hm : S.device w.mem e m') :
      Step w (.inr e) ⟨m', w.clients, q⟩

/-- Operations in order. -/
inductive Run : World ι Op₁ Res₁ Op₂ Res₂ Λ Mem α → List (Act ι Op₁ Res₁ Op₂ Res₂) →
    World ι Op₁ Res₁ Op₂ Res₂ Λ Mem α → Prop
  | nil (w) : Run w [] w
  | cons {w a w' t w''} : S.Step w a w' → Run w' t w'' → Run w (a :: t) w''

variable {S} {w w' : World ι Op₁ Res₁ Op₂ Res₂ Λ Mem α}
variable {t t' : List (Act ι Op₁ Res₁ Op₂ Res₂)}

theorem run_append_iff {w'' : World ι Op₁ Res₁ Op₂ Res₂ Λ Mem α} :
    S.Run w (t ++ t') w'' ↔ ∃ w', S.Run w t w' ∧ S.Run w' t' w'' := by
  induction t generalizing w with
  | nil =>
    constructor
    · intro h
      exact ⟨w, .nil w, h⟩
    · rintro ⟨w', ⟨⟩, h⟩
      exact h
  | cons a t ih =>
    constructor
    · intro h
      cases h with
      | cons hstep h =>
        obtain ⟨w', h₁, h₂⟩ := ih.mp h
        exact ⟨w', .cons hstep h₁, h₂⟩
    · rintro ⟨w', h₁, h₂⟩
      cases h₁ with
      | cons hstep h₁ => exact .cons hstep (ih.mpr ⟨w', h₁, h₂⟩)

theorem Run.append {w'' : World ι Op₁ Res₁ Op₂ Res₂ Λ Mem α} (h : S.Run w t w')
    (h' : S.Run w' t' w'') : S.Run w (t ++ t') w'' :=
  run_append_iff.mpr ⟨w', h, h'⟩

/-- The step at a place of a run. -/
theorem Run.at {a : Act ι Op₁ Res₁ Op₂ Res₂} {w'' : World ι Op₁ Res₁ Op₂ Res₂ Λ Mem α}
    (h : S.Run w (t ++ a :: t') w'') :
    ∃ w₁ w₂, S.Run w t w₁ ∧ S.Step w₁ a w₂ ∧ S.Run w₂ t' w'' := by
  obtain ⟨w₁, h₁, h₂⟩ := run_append_iff.mp h
  cases h₂ with
  | cons hstep h₂ => exact ⟨w₁, _, h₁, hstep, h₂⟩

end System

/-! ### What each party has done -/

/-- The events of client `i`. -/
def events (i : ι) (t : List (Act ι Op₁ Res₁ Op₂ Res₂)) : List (Event Op₁ Res₁) :=
  t.filterMap fun
    | .inl (j, e) => if j = i then some e else none
    | .inr _ => none

/-- The events of the device. -/
def deviceEvents (t : List (Act ι Op₁ Res₁ Op₂ Res₂)) : List (Event Op₂ Res₂) :=
  t.filterMap fun
    | .inl _ => none
    | .inr e => some e

section Events

variable {i j : ι} {t t' : List (Act ι Op₁ Res₁ Op₂ Res₂)} {e : Event Op₁ Res₁} {f : Event Op₂ Res₂}

@[simp] theorem events_nil : events i ([] : List (Act ι Op₁ Res₁ Op₂ Res₂)) = [] := rfl

omit [DecidableEq ι] in
@[simp] theorem deviceEvents_nil :
    deviceEvents ([] : List (Act ι Op₁ Res₁ Op₂ Res₂)) = [] := rfl

@[simp] theorem events_append : events i (t ++ t') = events i t ++ events i t' :=
  List.filterMap_append ..

omit [DecidableEq ι] in
@[simp] theorem deviceEvents_append : deviceEvents (t ++ t') = deviceEvents t ++ deviceEvents t' :=
  List.filterMap_append ..

@[simp] theorem events_self : events i (.inl (i, e) :: t) = e :: events i t := by
  simp [events]

theorem events_other (h : j ≠ i) : events i (.inl (j, e) :: t) = events i t := by
  simp [events, h]

@[simp] theorem events_device : events i (.inr f :: t) = events i t := rfl

omit [DecidableEq ι] in
@[simp] theorem deviceEvents_client : deviceEvents (.inl (i, e) :: t) = deviceEvents t := rfl

omit [DecidableEq ι] in
@[simp] theorem deviceEvents_device : deviceEvents (.inr f :: t) = f :: deviceEvents t := rfl

end Events

/-- A complete run of a client is a run of its program. -/
theorem System.Run.client_steps {S : System ι Op₁ Res₁ Op₂ Res₂ Λ Mem}
    {w w' : World ι Op₁ Res₁ Op₂ Res₂ Λ Mem α} {t : List (Act ι Op₁ Res₁ Op₂ Res₂)}
    (h : S.Run w t w') (i : ι) : (w.clients i).Steps (events i t) (w'.clients i) := by
  induction h with
  | nil w => exact .refl _
  | @cons w a w' t w'' hstep _ ih =>
    cases hstep with
    | @client j o k m' r hp hm =>
      by_cases hj : j = i
      · subst hj
        rw [events_self, hp]
        simp only [Function.update_self] at ih
        exact .call r ih
      · rw [events_other hj]
        simpa only [Function.update_of_ne (Ne.symm hj)] using ih
    | device hp hm => exact ih

/-! ### One party at a time -/

/-- The events of one party, in order, on the memory. -/
inductive Through {E : Type} (R : Mem → E → Mem → Prop) : Mem → List E → Mem → Prop
  | nil (m) : Through R m [] m
  | cons {m e m' t m''} : R m e m' → Through R m' t m'' → Through R m (e :: t) m''

theorem Through.append {E : Type} {R : Mem → E → Mem → Prop} {m m' m'' : Mem} {t t' : List E}
    (h : Through R m t m') (h' : Through R m' t' m'') : Through R m (t ++ t') m'' := by
  induction h with
  | nil m => exact h'
  | cons hstep _ ih => exact .cons hstep (ih h')

/-- A memory seen through another one. -/
theorem Through.map {E Mem' : Type} {R : Mem → E → Mem → Prop} {R' : Mem' → E → Mem' → Prop}
    (f : Mem → Mem') (hR : ∀ m e m', R m e m' → R' (f m) e (f m')) {m m' : Mem} {t : List E}
    (h : Through R m t m') : Through R' (f m) t (f m') := by
  induction h with
  | nil m => exact .nil _
  | cons hstep _ ih => exact .cons (hR _ _ _ hstep) ih

/-- A client that runs while the others wait. -/
theorem System.run_of_client {S : System ι Op₁ Res₁ Op₂ Res₂ Λ Mem}
    {w : World ι Op₁ Res₁ Op₂ Res₂ Λ Mem α} {i : ι} {t : List (Event Op₁ Res₁)}
    {q : Prog Op₁ Res₁ α} {m' : Mem} (h : (w.clients i).Steps t q)
    (hm : Through (S.client i) w.mem t m') :
    S.Run w (t.map fun e => .inl (i, e)) ⟨m', Function.update w.clients i q, w.device⟩ := by
  induction t generalizing w with
  | nil =>
    cases hm
    generalize hp : w.clients i = p at h
    cases h
    rw [← hp, Function.update_eq_self]
    exact .nil w
  | cons e t ih =>
    cases hm with
    | cons hstep hm =>
      generalize hp : w.clients i = p at h
      cases h with
      | @call o k _ _ x h =>
        have hrest := ih (w := ⟨_, Function.update w.clients i (k x), w.device⟩)
          (by simpa using h) hm
        rw [Function.update_idem] at hrest
        exact .cons (.client x hp hstep) hrest

/-- The device runs while the clients wait. -/
theorem System.run_of_device {S : System ι Op₁ Res₁ Op₂ Res₂ Λ Mem}
    {w : World ι Op₁ Res₁ Op₂ Res₂ Λ Mem α} {t : List (Event Op₂ Res₂)}
    {q : Prog Op₂ Res₂ (Option Λ)} {m' : Mem} (ht : t ≠ [])
    (h : Machine.Steps S.code w.device t q) (hm : Through S.device w.mem t m') :
    S.Run w (t.map .inr) ⟨m', w.clients, q⟩ := by
  induction t generalizing w with
  | nil => exact absurd rfl ht
  | cons e t ih =>
    cases hm with
    | cons hstep hm =>
      by_cases hlast : t = []
      · subst hlast
        cases hm
        exact .cons (.device h hstep) (.nil _)
      · obtain ⟨q', hfirst, hrest⟩ := Machine.Steps.split (t := [e]) h
        exact .cons (.device hfirst hstep) (ih (w := ⟨_, w.clients, q'⟩) hlast hrest hm)

/-! ### Verifying the parties together -/

/-- What the verification of a system consists of: a monitor for each
party, the label invariants of the device, and a global invariant. -/
structure Proofs (ι Op₁ : Type) (Res₁ : Op₁ → Type) (Op₂ : Type) (Res₂ : Op₂ → Type)
    (Λ Mem σ₁ σ₂ : Type) where
  client : ι → Monitor Op₁ Res₁ σ₁
  device : Monitor Op₂ Res₂ σ₂
  label : Option Λ → σ₂ → Prop
  inv : Mem → (ι → σ₁) → σ₂ → Prop

namespace Proofs

variable (P : Proofs ι Op₁ Res₁ Op₂ Res₂ Λ Mem σ₁ σ₂)
variable (S : System ι Op₁ Res₁ Op₂ Res₂ Λ Mem)

/-- The invariant implies what the monitors expect of the environment, and
safe operations keep it. -/
structure Upholds : Prop where
  label : Machine.Invariant S.code P.device P.label
  client : ∀ {m g d i e m'}, P.inv m g d → S.client i m e m' →
    (P.client i).env (g i) e ∧ ((P.client i).safe (g i) e →
      P.inv m' (Function.update g i ((P.client i).next (g i) e)) d)
  device : ∀ {m g d e m'}, P.inv m g d → S.device m e m' →
    P.device.env d e ∧ (P.device.safe d e → P.inv m' g (P.device.next d e))

/-- The invariant, and what each party still guarantees. -/
structure Good (Q : ι → σ₁ → α → Prop) (w : World ι Op₁ Res₁ Op₂ Res₂ Λ Mem α) (g : ι → σ₁)
    (d : σ₂) : Prop where
  inv : P.inv w.mem g d
  client : ∀ i, (P.client i).wp (w.clients i) (g i) (Q i)
  device : Machine.Good P.device P.label w.device d

/-- The operation is safe for the party that performs it. -/
def SafeAct (g : ι → σ₁) (d : σ₂) : Act ι Op₁ Res₁ Op₂ Res₂ → Prop
  | .inl (i, e) => (P.client i).safe (g i) e
  | .inr e => P.device.safe d e

/-- The monitors of the clients after a run. -/
def watched (g : ι → σ₁) (t : List (Act ι Op₁ Res₁ Op₂ Res₂)) : ι → σ₁ :=
  fun i => (P.client i).run (g i) (events i t)

/-- The monitor of the device after a run. -/
def watchedDevice (d : σ₂) (t : List (Act ι Op₁ Res₁ Op₂ Res₂)) : σ₂ :=
  P.device.run d (deviceEvents t)

variable {P S} {Q : ι → σ₁ → α → Prop} {w w' : World ι Op₁ Res₁ Op₂ Res₂ Λ Mem α}
variable {g : ι → σ₁} {d : σ₂} {t : List (Act ι Op₁ Res₁ Op₂ Res₂)} {a : Act ι Op₁ Res₁ Op₂ Res₂}

theorem watched_cons : P.watched g (a :: t) = P.watched (P.watched g [a]) t := by
  funext i
  unfold watched
  rw [← List.singleton_append, events_append, Monitor.run_append]

omit [DecidableEq ι] in
theorem watchedDevice_cons :
    P.watchedDevice d (a :: t) = P.watchedDevice (P.watchedDevice d [a]) t := by
  unfold watchedDevice
  rw [← List.singleton_append, deviceEvents_append, Monitor.run_append]

theorem watched_client {i : ι} {e : Event Op₁ Res₁} :
    P.watched g [(.inl (i, e) : Act ι Op₁ Res₁ Op₂ Res₂)] =
      Function.update g i ((P.client i).next (g i) e) := by
  funext j
  unfold watched
  by_cases hj : j = i
  · subst hj
    simp
  · rw [events_other (Ne.symm hj), Function.update_of_ne hj]
    rfl

/-- One operation of a verified system. -/
theorem Good.step (hP : P.Upholds S) (h : P.Good Q w g d) (hstep : S.Step w a w') :
    P.SafeAct g d a ∧ P.Good Q w' (P.watched g [a]) (P.watchedDevice d [a]) := by
  cases hstep with
  | @client i o k m' r hp hm =>
    obtain ⟨henv, hnext⟩ := hP.client h.inv hm
    have hwp := h.client i
    rw [hp] at hwp
    obtain ⟨hsafe, hk⟩ := hwp r henv
    refine ⟨hsafe, ?_⟩
    rw [watched_client]
    refine ⟨hnext hsafe, fun j => ?_, h.device⟩
    by_cases hj : j = i
    · subst hj
      simpa only [Function.update_self] using hk
    · simpa only [Function.update_of_ne hj] using h.client j
  | @device e q m' hp hm =>
    obtain ⟨henv, hnext⟩ := hP.device h.inv hm
    obtain ⟨hsafe, hgood⟩ := hP.label.steps h.device hp ⟨henv, trivial⟩
    exact ⟨hsafe.1, hnext hsafe.1, h.client, hgood⟩

/-- **A verified system stays verified**, along every run. -/
theorem Good.run (hP : P.Upholds S) (h : P.Good Q w g d) (hrun : S.Run w t w') :
    P.Good Q w' (P.watched g t) (P.watchedDevice d t) := by
  induction hrun generalizing g d with
  | nil w => exact h
  | cons hstep _ ih =>
    rw [watched_cons, watchedDevice_cons]
    exact ih (h.step hP hstep).2

/-- What the safe operations keep besides the invariant. -/
structure Keeps (P : Proofs ι Op₁ Res₁ Op₂ Res₂ Λ Mem σ₁ σ₂)
    (S : System ι Op₁ Res₁ Op₂ Res₂ Λ Mem) (J : Mem → (ι → σ₁) → σ₂ → Prop) : Prop where
  client : ∀ {m g d i e m'}, P.inv m g d → J m g d → S.client i m e m' →
    (P.client i).safe (g i) e → J m' (Function.update g i ((P.client i).next (g i) e)) d
  device : ∀ {m g d e m'}, P.inv m g d → J m g d → S.device m e m' → P.device.safe d e →
    J m' g (P.device.next d e)

/-- It holds along every run, too. -/
theorem Good.keeps {J : Mem → (ι → σ₁) → σ₂ → Prop} (hP : P.Upholds S) (hJ : P.Keeps S J)
    (h : P.Good Q w g d) (hstart : J w.mem g d) (hrun : S.Run w t w') :
    J w'.mem (P.watched g t) (P.watchedDevice d t) := by
  induction hrun generalizing g d with
  | nil w => exact hstart
  | @cons w a w' t w'' hstep _ ih =>
    rw [watched_cons, watchedDevice_cons]
    obtain ⟨hsafe, hnext⟩ := h.step hP hstep
    refine ih hnext ?_
    cases hstep with
    | @client i o k m' r hp hm =>
      rw [watched_client]
      exact hJ.client h.inv hstart hm hsafe
    | device hp hm => exact hJ.device h.inv hstart hm hsafe

/-- At each place of a run of a verified system. -/
theorem Good.at {w'' : World ι Op₁ Res₁ Op₂ Res₂ Λ Mem α} {t' : List (Act ι Op₁ Res₁ Op₂ Res₂)}
    (hP : P.Upholds S) (h : P.Good Q w g d) (hrun : S.Run w (t ++ a :: t') w'') :
    ∃ w₁ w₂, S.Run w t w₁ ∧ S.Step w₁ a w₂ ∧ S.Run w₂ t' w'' ∧
      P.Good Q w₁ (P.watched g t) (P.watchedDevice d t) ∧
      P.SafeAct (P.watched g t) (P.watchedDevice d t) a := by
  obtain ⟨w₁, w₂, h₁, hstep, h₂⟩ := hrun.at
  have hgood := h.run hP h₁
  exact ⟨w₁, w₂, h₁, hstep, h₂, hgood, (hgood.step hP hstep).1⟩

/-- Every event of a client is safe where it happens. -/
theorem Good.safeAlong (hP : P.Upholds S) (h : P.Good Q w g d) (hrun : S.Run w t w') (i : ι) :
    (P.client i).SafeAlong (g i) (events i t) := by
  induction hrun generalizing g d with
  | nil w => trivial
  | @cons w a w' t w'' hstep _ ih =>
    obtain ⟨hsafe, hgood⟩ := h.step hP hstep
    have hrest := ih hgood
    cases hstep with
    | @client j o k m' r hp hm =>
      by_cases hj : j = i
      · subst hj
        rw [events_self]
        refine ⟨hsafe, ?_⟩
        rwa [watched_client, Function.update_self] at hrest
      · rw [events_other hj]
        rwa [watched_client, Function.update_of_ne (Ne.symm hj)] at hrest
    | device hp hm => exact hrest

theorem Good.deviceSafeAlong (hP : P.Upholds S) (h : P.Good Q w g d) (hrun : S.Run w t w') :
    P.device.SafeAlong d (deviceEvents t) := by
  induction hrun generalizing g d with
  | nil w => trivial
  | @cons w a w' t w'' hstep _ ih =>
    obtain ⟨hsafe, hgood⟩ := h.step hP hstep
    have hrest := ih hgood
    cases hstep with
    | client r hp hm => exact hrest
    | device hp hm => exact ⟨hsafe, hrest⟩

end Proofs

end Interaction
