/-
DldDriver/Interaction/Timed.lean

Machines with a clock.  Operations follow each other without a pause; how
long one may last depends on the operation and on the label of the block it
belongs to.

    Timed code lasts x p now t y q stop

From residual `p` of the block of `x`, at time `now`, the machine performs
the operations `t`; at time `stop` it has `q` left of the block of `y`.

`Meets` is a weakest precondition for deadlines: the program reaches one of
its targets, or leaves the block, by the deadline `D`.  `Timed.meets` reads
it along a run: either a target has been reached in time, or the run has
not come to the deadline yet.
-/
import Mathlib.Tactic.Ring
import DldDriver.Interaction.Machine

namespace Interaction

/-- An operation that has been performed: the label of its block, its
response, and when it began and ended. -/
structure Instr (Op : Type) (Res : Op → Type) (Λ : Type) where
  label : Λ
  event : Event Op Res
  start : Nat
  stop : Nat

variable {Op : Type} {Res : Op → Type} {Λ σ α β : Type}

namespace Machine

/-! ### Timed runs -/

/-- Each operation begins where the one before has ended, and lasts as long
as it may. -/
inductive Paced (lasts : Λ → Op → Nat → Prop) : Nat → List (Instr Op Res Λ) → Prop
  | nil (now : Nat) : Paced lasts now []
  | cons {x : Λ} {e : Event Op Res} {now d : Nat} {t : List (Instr Op Res Λ)}
      (hd : lasts x e.1 d) (h : Paced lasts (now + d) t) :
      Paced lasts now (⟨x, e, now, now + d⟩ :: t)

section Timed

variable (code : Code Op Res Λ) (lasts : Λ → Op → Nat → Prop)

/-- Timed partial runs: operations take time, jumps do not. -/
inductive Timed : Λ → Prog Op Res (Option Λ) → Nat → List (Instr Op Res Λ) → Λ →
    Prog Op Res (Option Λ) → Nat → Prop
  | refl (x p now) : Timed x p now [] x p now
  | call {x o k now t y q stop} (r : Res o) (d : Nat) (hd : lasts x o d)
      (h : Timed x (k r) (now + d) t y q stop) :
      Timed x (.call o k) now (⟨x, ⟨o, r⟩, now, now + d⟩ :: t) y q stop
  | jump {x l now t y q stop} (h : Timed l (code l) now t y q stop) :
      Timed x (.ret (some l)) now t y q stop

variable {code lasts} {x y : Λ} {p q : Prog Op Res (Option Λ)} {now stop : Nat}
variable {t t' : List (Instr Op Res Λ)} {i : Instr Op Res Λ}

/-- The run, without its times. -/
theorem Timed.steps (h : Timed code lasts x p now t y q stop) :
    Steps code p (t.map (·.event)) q := by
  induction h with
  | refl x p now => exact .refl p
  | call r d _ _ ih => exact .call r ih
  | jump _ ih => exact .jump ih

theorem Timed.paced (h : Timed code lasts x p now t y q stop) : Paced lasts now t := by
  induction h with
  | refl x p now => exact .nil now
  | call r d hd _ ih => exact .cons hd ih
  | jump _ ih => exact ih

theorem Paced.start_le (h : Paced lasts now t) :
    ∀ i ∈ t, now ≤ i.start ∧ i.start ≤ i.stop := by
  induction h with
  | nil now =>
    intro i hi
    exact nomatch hi
  | @cons x e now d t _ _ ih =>
    intro i hi
    rcases List.mem_cons.mp hi with rfl | hi
    · exact ⟨le_rfl, Nat.le_add_right now d⟩
    · obtain ⟨hnow, hstop⟩ := ih i hi
      exact ⟨(Nat.le_add_right now d).trans hnow, hstop⟩

/-- What comes after an operation begins after it. -/
theorem Paced.after {pre : List (Instr Op Res Λ)} (h : Paced lasts now (pre ++ i :: t)) :
    now ≤ i.start ∧ lasts i.label i.event.1 (i.stop - i.start) ∧ Paced lasts i.stop t := by
  induction pre generalizing now with
  | nil =>
    cases h with
    | @cons _ _ _ d _ hd h =>
      refine ⟨le_rfl, ?_, h⟩
      show lasts _ _ (now + d - now)
      rw [Nat.add_sub_cancel_left]
      exact hd
  | cons j pre ih =>
    cases h with
    | @cons _ _ _ d _ hd h =>
      obtain ⟨hle, hrest⟩ := ih h
      exact ⟨(Nat.le_add_right now d).trans hle, hrest⟩

theorem Timed.append {x' y' : Λ} {p' q' : Prog Op Res (Option Λ)} {mid : Nat}
    (h : Timed code lasts x p now t x' p' mid) (h' : Timed code lasts x' p' mid t' y' q' stop) :
    Timed code lasts x p now (t ++ t') y' q' stop := by
  induction h with
  | refl => exact h'
  | call r d hd _ ih => exact .call r d hd (ih h')
  | jump _ ih => exact .jump (ih h')

/-- The run up to an operation, the operation, and what follows. -/
theorem Timed.at (h : Timed code lasts x p now (t ++ i :: t') y q stop) :
    ∃ k, Timed code lasts x p now t i.label (.call i.event.1 k) i.start ∧
      lasts i.label i.event.1 (i.stop - i.start) ∧ i.start ≤ i.stop ∧
      Timed code lasts i.label (k i.event.2) i.stop t' y q stop := by
  generalize hu : t ++ i :: t' = u at h
  induction h generalizing t with
  | refl x p now => cases t <;> exact nomatch hu
  | @call x o k now u y q stop r d hd h ih =>
    cases t with
    | nil =>
      obtain ⟨rfl, rfl⟩ := List.cons.inj hu
      refine ⟨k, .refl _ _ _, ?_, Nat.le_add_right now d, h⟩
      show lasts x o (now + d - now)
      rw [Nat.add_sub_cancel_left]
      exact hd
    | cons j t =>
      obtain ⟨hj, htail⟩ := List.cons.inj hu
      obtain ⟨k', hpre, hrest⟩ := ih htail
      rw [hj]
      exact ⟨k', .call r d hd hpre, hrest⟩
  | jump _ ih =>
    obtain ⟨k', hpre, hrest⟩ := ih hu
    exact ⟨k', .jump hpre, hrest⟩

theorem Timed.le (h : Timed code lasts x p now t y q stop) : now ≤ stop := by
  induction h with
  | refl x p now => exact le_rfl
  | call r d _ _ ih => exact (Nat.le_add_right _ d).trans ih
  | jump _ ih => exact ih

theorem Timed.stop_le (h : Timed code lasts x p now t y q stop) : ∀ i ∈ t, i.stop ≤ stop := by
  intro i hi
  obtain ⟨pre, post, rfl⟩ := List.append_of_mem hi
  obtain ⟨k, -, -, -, hrest⟩ := h.at
  exact hrest.le

/-- The events of a run, each of the same length. -/
structure Even (w : Nat) (es : List (Event Op Res)) (t : List (Instr Op Res Λ)) : Prop where
  events : t.map (·.event) = es
  length : ∀ i ∈ t, i.stop = i.start + w

theorem Even.nil {w : Nat} : Even (Λ := Λ) w ([] : List (Event Op Res)) [] :=
  ⟨rfl, fun _ hi => nomatch hi⟩

theorem Even.cons {w : Nat} {es : List (Event Op Res)} {e : Event Op Res} (h : Even w es t) :
    Even w (e :: es) (⟨x, e, now, now + w⟩ :: t) where
  events := by rw [List.map_cons, h.events]
  length := by
    intro i hi
    rcases List.mem_cons.mp hi with rfl | hi
    · rfl
    · exact h.length i hi

theorem Even.append {w : Nat} {es es' : List (Event Op Res)} (h : Even w es t) (h' : Even w es' t') :
    Even w (es ++ es') (t ++ t') where
  events := by rw [List.map_append, h.events, h'.events]
  length := by
    intro i hi
    rcases List.mem_append.mp hi with hi | hi
    · exact h.length i hi
    · exact h'.length i hi

variable (code lasts) in
/-- Where every operation may last `w`, a run may take `w` for each. -/
theorem Timed.of_steps {w : Nat} {es : List (Event Op Res)} (hw : ∀ x o, lasts x o w)
    (h : Steps code p es q) (x : Λ) (now : Nat) :
    ∃ t y stop, Timed code lasts x p now t y q stop ∧ Even w es t := by
  induction h generalizing x now with
  | refl p => exact ⟨[], x, now, .refl x p now, .nil⟩
  | @call o _ _ _ r _ ih =>
    obtain ⟨t, y, stop, ht, heven⟩ := ih x (now + w)
    exact ⟨_, y, stop, .call r w (hw x o) ht, heven.cons⟩
  | @jump l _ _ _ ih =>
    obtain ⟨t, y, stop, ht, heven⟩ := ih l now
    exact ⟨t, y, stop, .jump ht, heven⟩

variable (code lasts) in
/-- A run of a block, with its label. -/
theorem Timed.of_runs {w : Nat} {es : List (Event Op Res)} {l : Λ} (hw : ∀ o, lasts x o w)
    (h : p.Runs es (some l)) (now : Nat) :
    ∃ t stop, Timed code lasts x p now t l (code l) stop ∧ Even w es t ∧ ∀ i ∈ t, i.label = x := by
  generalize ha : some l = a at h
  induction h generalizing now with
  | ret a =>
    subst ha
    exact ⟨[], now, .jump (.refl l (code l) now), .nil, fun _ hi => nomatch hi⟩
  | @call o _ _ _ r _ ih =>
    obtain ⟨t, stop, ht, heven, hlabel⟩ := ih (now + w) ha
    refine ⟨_, stop, .call r w (hw o) ht, heven.cons, ?_⟩
    intro i hi
    rcases List.mem_cons.mp hi with rfl | hi
    · rfl
    · exact hlabel i hi

variable (code lasts) in
/-- The same for a run of several blocks. -/
theorem Timed.of_exec {w n : Nat} {es : List (Event Op Res)} {h : (o : Op) → Res o} {l : Λ}
    (hw : ∀ x o, lasts x o w) (hexec : exec code h n x = some (es, l)) (now : Nat) :
    ∃ t stop, Timed code lasts x (code x) now t l (code l) stop ∧ Even w es t := by
  induction n generalizing x now es with
  | zero =>
    cases hexec
    exact ⟨[], now, .refl _ _ _, .nil⟩
  | succ n ih =>
    rw [exec] at hexec
    rcases hblock : ((code x).exec h).2 with - | l'
    · rw [hblock] at hexec
      cases hexec
    · rw [hblock] at hexec
      obtain ⟨⟨es', last⟩, hrest, heq⟩ := Option.map_eq_some_iff.mp hexec
      cases heq
      have hruns := Prog.exec_runs h (code x)
      rw [hblock] at hruns
      obtain ⟨t, mid, ht, heven, -⟩ := of_runs code lasts (hw x) hruns now
      obtain ⟨t', stop, ht', heven'⟩ := ih hrest mid
      exact ⟨_, stop, ht.append ht', heven.append heven'⟩

end Timed

/-! ### Labels on the way -/

section Labels

variable {code : Code Op Res Λ} {lasts : Λ → Op → Nat → Prop}
variable {M : Monitor Op Res σ} {L : Option Λ → σ → Prop}
variable {x y : Λ} {p q : Prog Op Res (Option Λ)} {now stop : Nat} {s : σ}
variable {t : List (Instr Op Res Λ)}

/-- `p` is what is left of the block of `x`, entered where the label
invariant held, and the monitor has come to `s`. -/
structure InBlock (code : Code Op Res Λ) (M : Monitor Op Res σ) (L : Option Λ → σ → Prop) (x : Λ)
    (p : Prog Op Res (Option Λ)) (s : σ) : Prop where
  entered : ∃ s₀ t₀, L (some x) s₀ ∧ (code x).Steps t₀ p
  good : Good M L p s

theorem InBlock.entry (hinv : Invariant code M L) (h : L (some x) s) :
    InBlock code M L x (code x) s :=
  ⟨⟨s, [], h, .refl _⟩, hinv x s h⟩

theorem InBlock.call {o : Op} {k : Res o → Prog Op Res (Option Λ)}
    (h : InBlock code M L x (.call o k) s) (r : Res o) (henv : M.env s ⟨o, r⟩) :
    InBlock code M L x (k r) (M.next s ⟨o, r⟩) := by
  obtain ⟨⟨s₀, t₀, hL, hsteps⟩, hgood⟩ := h
  exact ⟨⟨s₀, t₀ ++ [⟨o, r⟩], hL, hsteps.trans (.call r (.refl _))⟩, (hgood r henv).2⟩

/-- Along a timed run the block is always known. -/
theorem Timed.inBlock (hinv : Invariant code M L) (h : Timed code lasts x p now t y q stop)
    (hp : InBlock code M L x p s) (henv : M.EnvAlong s (t.map (·.event))) :
    InBlock code M L y q (M.run s (t.map (·.event))) := by
  induction h generalizing s with
  | refl x p now => exact hp
  | call r d _ _ ih => exact ih (hp.call r henv.1) henv.2
  | jump _ ih => exact ih (InBlock.entry hinv hp.good) henv

end Labels

/-! ### What an event leaves of its block -/

end Machine

namespace Prog

section Leaves

variable {K : Event Op Res → Prop} {P : Prog Op Res α → Prop} {p : Prog Op Res α}

/-- After an event in `K`, what is left of the program satisfies `P`. -/
def Leaves (K : Event Op Res → Prop) (P : Prog Op Res α → Prop) : Prog Op Res α → Prop
  | .ret _ => True
  | .call o k => ∀ r, (K ⟨o, r⟩ → P (k r)) ∧ (k r).Leaves K P

theorem leaves_of_emits (h : p.Emits fun e => ¬ K e) : p.Leaves K P := by
  induction p with
  | ret a => trivial
  | call o k ih => exact fun r => ⟨fun hr => absurd hr (h r).1, ih r (h r).2⟩

theorem leaves_of_forall (h : ∀ q, P q) : p.Leaves K P := by
  induction p with
  | ret a => trivial
  | call o k ih => exact fun r => ⟨fun _ => h _, ih r⟩

/-- One operation and the rest. -/
theorem leaves_op_bind {o : Op} {f : Res o → Prog Op Res α}
    (h : ∀ r, (K ⟨o, r⟩ → P (f r)) ∧ (f r).Leaves K P) : (op o >>= f).Leaves K P := h

/-- A program none of whose events is in `K`, and the rest. -/
theorem leaves_bind {p : Prog Op Res β} {f : β → Prog Op Res α} {R : β → Prop}
    (hp : p.Emits fun e => ¬ K e) (hR : p.All fun _ a => R a)
    (hf : ∀ a, R a → (f a).Leaves K P) : (p >>= f).Leaves K P := by
  induction p with
  | ret a => exact hf a hR
  | call o k ih => exact fun r => ⟨fun hr => absurd hr (hp r).1, ih r (hp r).2 (hR r)⟩

/-- The same where nothing is known about the result. -/
theorem leaves_bind' {p : Prog Op Res β} {f : β → Prog Op Res α} (hp : p.Emits fun e => ¬ K e)
    (hf : ∀ a, (f a).Leaves K P) : (p >>= f).Leaves K P :=
  leaves_bind (R := fun _ => True) hp (all_of_forall fun _ _ => trivial) fun a _ => hf a

theorem leaves_ite {c : Prop} [Decidable c] {p q : Prog Op Res α} (hp : c → p.Leaves K P)
    (hq : ¬ c → q.Leaves K P) : (if c then p else q).Leaves K P := by
  split
  · exact hp ‹_›
  · exact hq ‹_›

theorem Leaves.mono {P' : Prog Op Res α → Prop} (h : p.Leaves K P) (hP : ∀ q, P q → P' q) :
    p.Leaves K P' := by
  induction p with
  | ret a => trivial
  | call o k ih => exact fun r => ⟨fun hr => hP _ ((h r).1 hr), ih r (h r).2⟩

theorem Leaves.steps {t : List (Event Op Res)} {o : Op} {k : Res o → Prog Op Res α} {r : Res o}
    (hp : p.Leaves K P) (h : p.Steps t (.call o k)) (hr : K ⟨o, r⟩) : P (k r) := by
  generalize hq : Prog.call o k = q at h
  induction h with
  | refl p =>
    subst hq
    exact (hp r).1 hr
  | call r' _ ih => exact ih (hp r').2 hq

end Leaves

end Prog

namespace Machine

section Leaving

variable {code : Code Op Res Λ} {lasts : Λ → Op → Nat → Prop}
variable {M : Monitor Op Res σ} {L : Option Λ → σ → Prop} {K : Event Op Res → Prop}
variable {P : Λ → Prog Op Res (Option Λ) → Prop}
variable {x y : Λ} {p q : Prog Op Res (Option Λ)} {now stop : Nat} {s : σ}
variable {t t' : List (Instr Op Res Λ)} {i : Instr Op Res Λ}

/-- The run after an event in `K`, from what the event leaves of its block. -/
theorem Timed.leaving (hinv : Invariant code M L)
    (h : Timed code lasts x p now (t ++ i :: t') y q stop) (hp : InBlock code M L x p s)
    (henv : M.EnvAlong s ((t ++ i :: t').map (·.event)))
    (hleaves : ∀ x s, L (some x) s → (code x).Leaves K (P x)) (hK : K i.event) :
    ∃ p', P i.label p' ∧ Timed code lasts i.label p' i.stop t' y q stop ∧
      Good M L p' (M.next (M.run s (t.map (·.event))) i.event) ∧ i.start ≤ i.stop ∧
      lasts i.label i.event.1 (i.stop - i.start) := by
  obtain ⟨k, hpre, hlasts, hle, hpost⟩ := h.at
  rw [List.map_append, Monitor.envAlong_append] at henv
  have hblock := hpre.inBlock hinv hp henv.1
  have hgood := (hblock.call i.event.2 henv.2.1).good
  obtain ⟨s₀, t₀, hs₀, hsteps⟩ := hblock.entered
  exact ⟨_, (hleaves _ s₀ hs₀).steps hsteps hK, hpost, hgood, hle, hlasts⟩

end Leaving

/-! ### Deadlines -/

section Deadline

variable (lasts : Op → Nat → Prop) (env : Nat → Nat → Event Op Res → Prop)
variable (target : Event Op Res → Prop) (D : Nat)

/-- From time `now` on the program performs a target by `D`, or returns in
time and where `Q` holds; `env` is what the surroundings promise of an
operation from its begin to its end. -/
def Meets : Prog Op Res α → Nat → (α → Nat → Prop) → Prop
  | .ret a, now, Q => now ≤ D ∧ Q a now
  | .call o k, now, Q => now ≤ D ∧ ∀ d r, lasts o d → env now (now + d) ⟨o, r⟩ →
      (target ⟨o, r⟩ ∧ now + d ≤ D) ∨ Meets (k r) (now + d) Q

variable {lasts env target D} {p : Prog Op Res α} {now : Nat} {Q Q' : α → Nat → Prop}

theorem Meets.le (h : Meets lasts env target D p now Q) : now ≤ D := by
  cases p with
  | ret a => exact h.1
  | call o k => exact h.1

theorem meets_pure {a : α} (hle : now ≤ D) (hQ : Q a now) :
    Meets lasts env target D (pure a) now Q :=
  ⟨hle, hQ⟩

theorem Meets.mono (h : Meets lasts env target D p now Q)
    (hQ : ∀ a t, t ≤ D → Q a t → Q' a t) : Meets lasts env target D p now Q' := by
  induction p generalizing now with
  | ret a => exact ⟨h.1, hQ a now h.1 h.2⟩
  | call o k ih =>
    refine ⟨h.1, fun d r hd henv => ?_⟩
    exact (h.2 d r hd henv).imp_right (ih r)

theorem Meets.bind {f : α → Prog Op Res β} {R : β → Nat → Prop}
    (h : Meets lasts env target D p now Q)
    (hf : ∀ a t, t ≤ D → Q a t → Meets lasts env target D (f a) t R) :
    Meets lasts env target D (p >>= f) now R := by
  induction p generalizing now with
  | ret a => exact hf a now h.1 h.2
  | call o k ih =>
    refine ⟨h.1, fun d r hd henv => ?_⟩
    exact (h.2 d r hd henv).imp_right (ih r)

/-- One operation and the rest of the program. -/
theorem meets_op_bind {o : Op} {f : Res o → Prog Op Res β} {R : β → Nat → Prop} (hle : now ≤ D)
    (hf : ∀ d r, lasts o d → env now (now + d) ⟨o, r⟩ →
      Meets lasts env target D (f r) (now + d) R) :
    Meets lasts env target D (Prog.op o >>= f) now R :=
  ⟨hle, fun d r hd henv => .inr (hf d r hd henv)⟩

/-- A program with one run, each of whose operations lasts at most `w`. -/
theorem meets_of_runs {t : List (Event Op Res)} {a : α} {w : Nat} (h : p.Runs t a)
    (hone : ∀ e ∈ t, Subsingleton (Res e.1)) (hw : ∀ e ∈ t, ∀ d, lasts e.1 d → d ≤ w)
    (hD : now + w * t.length ≤ D) (hQ : ∀ t', t' ≤ now + w * t.length → Q a t') :
    Meets lasts env target D p now Q := by
  induction h generalizing now with
  | ret a => exact ⟨hD, hQ now le_rfl⟩
  | @call o k t a r _ ih =>
    refine ⟨(Nat.le_add_right _ _).trans hD, fun d r' hd _ => .inr ?_⟩
    have hsub : Subsingleton (Res o) := hone ⟨o, r⟩ (.head _)
    obtain rfl : r = r' := Subsingleton.elim r r'
    have hd : d ≤ w := hw ⟨o, r⟩ (.head _) d hd
    have hlength : w * (t.length + 1) = w + w * t.length := by ring
    rw [List.length_cons, hlength] at hD hQ
    refine ih (fun e he => hone e (.tail _ he)) (fun e he => hw e (.tail _ he)) (by omega) ?_
    intro t' ht'
    exact hQ t' (by omega)

/-- The same from any time up to `n` on. -/
def Soon (lasts : Op → Nat → Prop) (env : Nat → Nat → Event Op Res → Prop)
    (target : Event Op Res → Prop) (D : Nat) (p : Prog Op Res α) (n : Nat)
    (Q : α → Nat → Prop) : Prop :=
  ∀ now ≤ n, Meets lasts env target D p now Q

section Soon

variable {n m w : Nat} {o : Op} {R : β → Nat → Prop}

theorem soon_pure {a : α} (hle : n ≤ D) (hQ : ∀ t ≤ n, Q a t) :
    Soon lasts env target D (pure a) n Q :=
  fun now hnow => meets_pure (hnow.trans hle) (hQ now hnow)

/-- One operation that lasts at most `w`. -/
theorem soon_op {f : Res o → Prog Op Res β} (hw : ∀ d, lasts o d → d ≤ w) (hle : n ≤ D)
    (hf : ∀ r, Soon lasts env target D (f r) (n + w) R) :
    Soon lasts env target D (Prog.op o >>= f) n R := by
  intro now hnow
  apply meets_op_bind (hnow.trans hle)
  intro d r hd _
  exact hf r (now + d) (Nat.add_le_add hnow (hw d hd))

/-- One operation whose response the surroundings have promised something of. -/
theorem soon_read {f : Res o → Prog Op Res β} (hw : ∀ d, lasts o d → d ≤ w) (hle : n ≤ D)
    (hf : ∀ r t t', env t t' ⟨o, r⟩ → Soon lasts env target D (f r) (n + w) R) :
    Soon lasts env target D (Prog.op o >>= f) n R := by
  intro now hnow
  apply meets_op_bind (hnow.trans hle)
  intro d r hd henv
  exact hf r _ _ henv (now + d) (Nat.add_le_add hnow (hw d hd))

/-- A target that is reached in time. -/
theorem soon_target {f : Res o → Prog Op Res β} (hw : ∀ d, lasts o d → d ≤ w)
    (hle : n + w ≤ D) (htarget : ∀ r, target ⟨o, r⟩) :
    Soon lasts env target D (Prog.op o >>= f) n R := by
  intro now hnow
  refine ⟨by omega, fun d r hd _ => .inl ⟨htarget r, ?_⟩⟩
  have hd := hw d hd
  omega

/-- A program that is done by `m`, and the rest. -/
theorem Soon.bind {P : α → Prop} {f : α → Prog Op Res β}
    (h : Soon lasts env target D p n fun a t => P a ∧ t ≤ m)
    (hf : ∀ a, P a → Soon lasts env target D (f a) m R) :
    Soon lasts env target D (p >>= f) n R := by
  intro now hnow
  apply (h now hnow).bind
  rintro a t - ⟨ha, ht⟩
  exact hf a ha t ht

theorem soon_ite {c : Prop} [Decidable c] {p q : Prog Op Res α}
    (hp : c → Soon lasts env target D p n Q) (hq : ¬ c → Soon lasts env target D q n Q) :
    Soon lasts env target D (if c then p else q) n Q := by
  split
  · exact hp ‹_›
  · exact hq ‹_›

theorem Soon.mono (h : Soon lasts env target D p n Q)
    (hQ : ∀ a t, t ≤ D → Q a t → Q' a t) : Soon lasts env target D p n Q' :=
  fun now hnow => (h now hnow).mono hQ

end Soon

end Deadline

/-! ### Deadlines of machines -/

section Ranking

variable {code : Code Op Res Λ} {lasts : Λ → Op → Nat → Prop}
variable {env : Nat → Nat → Event Op Res → Prop} {target : Event Op Res → Prop} {D : Nat}
variable {x y : Λ} {p q : Prog Op Res (Option Λ)} {now stop : Nat} {t : List (Instr Op Res Λ)}

/-- A block does not halt; this has to hold where it ends. -/
def Arrives (V : Λ → Nat → Prop) (o : Option Λ) (now : Nat) : Prop := ∃ l, o = some l ∧ V l now

/-- **Deadlines**: when every block, entered where `V` holds, reaches a
target or the next label in time, a run has reached a target in time, or it
has neither come to the deadline nor halted yet. -/
theorem Timed.meets {V : Λ → Nat → Prop} (h : Timed code lasts x p now t y q stop)
    (hV : ∀ l now, V l now → Meets (lasts l) env target D (code l) now (Arrives V))
    (hp : Meets (lasts x) env target D p now (Arrives V))
    (henv : ∀ i ∈ t, env i.start i.stop i.event) :
    (∃ i ∈ t, target i.event ∧ i.stop ≤ D) ∨ (stop ≤ D ∧ q ≠ .ret none) := by
  induction h with
  | refl x p now =>
    refine .inr ⟨hp.le, ?_⟩
    rintro rfl
    obtain ⟨l, hl, -⟩ := hp.2
    cases hl
  | @call x o k now t y q stop r d hd _ ih =>
    rcases hp.2 d r hd (henv _ (.head _)) with ⟨htarget, hle⟩ | hrest
    · exact .inl ⟨_, .head _, htarget, hle⟩
    · refine (ih hrest fun i hi => henv i (.tail _ hi)).imp_left ?_
      rintro ⟨i, hi, htarget, hle⟩
      exact ⟨i, .tail _ hi, htarget, hle⟩
  | jump _ ih =>
    obtain ⟨l, hl, hV'⟩ := hp.2
    obtain rfl := Option.some.inj hl
    exact ih (hV _ _ hV') henv

end Ranking

end Machine

end Interaction
