/-
DldDriver/Interaction/Monitor.lean

Monitors and their weakest preconditions.  A monitor watches the events of
a program: its state advances with every event (`next`), it says which
events a well-behaved program may perform (`safe`) and which responses the
environment promises (`env`).  A ghost state, a protocol automaton and the
plain history of a run are all monitors.

    M.wp p s Q     from monitor state s, every event of p is safe, and p
                   returns with the monitor in a state satisfying Q

`wp` is computed along the program; `wp_runs` and `wp_steps` are its two
readings, for complete and for partial runs.  `wp_frame` discharges a
program none of whose events concerns the monitor.
-/
import DldDriver.Interaction.Prog

namespace Interaction

variable {Op : Type} {Res : Op → Type} {α β σ : Type}

/-- A monitor with states `σ` over the events of a program. -/
structure Monitor (Op : Type) (Res : Op → Type) (σ : Type) where
  /-- The responses the environment promises. -/
  env : σ → Event Op Res → Prop
  /-- The events a conforming program may perform. -/
  safe : σ → Event Op Res → Prop
  /-- The state after an event. -/
  next : σ → Event Op Res → σ

namespace Monitor

variable (M : Monitor Op Res σ)

/-- The monitor's state after a list of events. -/
def run (s : σ) (t : List (Event Op Res)) : σ := t.foldl M.next s

@[simp] theorem run_nil (s : σ) : M.run s [] = s := rfl

@[simp] theorem run_cons (s : σ) (e : Event Op Res) (t : List (Event Op Res)) :
    M.run s (e :: t) = M.run (M.next s e) t := rfl

@[simp] theorem run_append (s : σ) (t t' : List (Event Op Res)) :
    M.run s (t ++ t') = M.run (M.run s t) t' := List.foldl_append

/-- An invariant that each event of the list keeps. -/
theorem run_invariant {I : σ → Prop} {t : List (Event Op Res)} {s : σ} (hI : I s)
    (ht : ∀ e ∈ t, ∀ s, I s → I (M.next s e)) : I (M.run s t) := by
  induction t generalizing s with
  | nil => exact hI
  | cons e t ih => exact ih (ht e (.head _) s hI) fun e he => ht e (.tail _ he)

/-- Every response along the events is one the environment promises. -/
def EnvAlong : σ → List (Event Op Res) → Prop
  | _, [] => True
  | s, e :: t => M.env s e ∧ EnvAlong (M.next s e) t

instance decidableEnvAlong [∀ s e, Decidable (M.env s e)] :
    (s : σ) → (t : List (Event Op Res)) → Decidable (M.EnvAlong s t)
  | _, [] => inferInstanceAs (Decidable True)
  | s, e :: t =>
    have := decidableEnvAlong (M.next s e) t
    inferInstanceAs (Decidable (M.env s e ∧ M.EnvAlong (M.next s e) t))

/-- Every event of the list is safe where it happens. -/
def SafeAlong : σ → List (Event Op Res) → Prop
  | _, [] => True
  | s, e :: t => M.safe s e ∧ SafeAlong (M.next s e) t

variable {M}

theorem safeAlong_append {s : σ} {t t' : List (Event Op Res)} :
    M.SafeAlong s (t ++ t') ↔ M.SafeAlong s t ∧ M.SafeAlong (M.run s t) t' := by
  induction t generalizing s with
  | nil => simp [SafeAlong]
  | cons e t ih => simp [SafeAlong, ih, and_assoc]

theorem envAlong_append {s : σ} {t t' : List (Event Op Res)} :
    M.EnvAlong s (t ++ t') ↔ M.EnvAlong s t ∧ M.EnvAlong (M.run s t) t' := by
  induction t generalizing s with
  | nil => simp [EnvAlong]
  | cons e t ih => simp [EnvAlong, ih, and_assoc]

/-- A safe list of events is safe at each of its events. -/
theorem SafeAlong.at {s : σ} {pre post : List (Event Op Res)} {e : Event Op Res}
    (h : M.SafeAlong s (pre ++ e :: post)) : M.safe (M.run s pre) e :=
  (safeAlong_append.mp h).2.1

theorem envAlong_of_forall (h : ∀ s e, M.env s e) (s : σ) (t : List (Event Op Res)) :
    M.EnvAlong s t := by
  induction t generalizing s with
  | nil => trivial
  | cons e t ih => exact ⟨h s e, ih _⟩

/-! ### Weakest preconditions -/

variable (M) in
/-- From monitor state `s`, `p` performs safe events only and returns with
the monitor in a state satisfying `Q`, as long as the environment keeps its
promises. -/
def wp : Prog Op Res α → σ → (σ → α → Prop) → Prop
  | .ret a, s, Q => Q s a
  | .call o k, s, Q => ∀ r, M.env s ⟨o, r⟩ →
      M.safe s ⟨o, r⟩ ∧ wp (k r) (M.next s ⟨o, r⟩) Q

variable {p : Prog Op Res α} {s : σ} {Q Q' : σ → α → Prop}

@[simp] theorem wp_ret (a : α) : M.wp (.ret a) s Q ↔ Q s a := Iff.rfl

@[simp] theorem wp_pure (a : α) : M.wp (pure a) s Q ↔ Q s a := Iff.rfl

theorem wp_call {o : Op} {k : Res o → Prog Op Res α} :
    M.wp (.call o k) s Q ↔ ∀ r, M.env s ⟨o, r⟩ →
      M.safe s ⟨o, r⟩ ∧ M.wp (k r) (M.next s ⟨o, r⟩) Q := Iff.rfl

theorem wp_op {o : Op} {Q : σ → Res o → Prop} :
    M.wp (.op o) s Q ↔ ∀ r, M.env s ⟨o, r⟩ →
      M.safe s ⟨o, r⟩ ∧ Q (M.next s ⟨o, r⟩) r := Iff.rfl

@[simp] theorem wp_bind {f : α → Prog Op Res β} {Q : σ → β → Prop} :
    M.wp (p >>= f) s Q ↔ M.wp p s fun s' a => M.wp (f a) s' Q := by
  induction p generalizing s with
  | ret a => rfl
  | call o k ih =>
    simp only [Prog.call_bind, wp_call]
    exact forall_congr' fun r => imp_congr_right fun _ => and_congr_right fun _ => ih r

/-- One operation and the rest. -/
theorem wp_op_bind {o : Op} {f : Res o → Prog Op Res β} {Q : σ → β → Prop}
    (h : ∀ r, M.env s ⟨o, r⟩ → M.safe s ⟨o, r⟩ ∧ M.wp (f r) (M.next s ⟨o, r⟩) Q) :
    M.wp (.op o >>= f) s Q := h

theorem wp_ite {c : Prop} [Decidable c] {p q : Prog Op Res α} :
    M.wp (if c then p else q) s Q ↔ (c → M.wp p s Q) ∧ (¬ c → M.wp q s Q) := by
  split <;> simp [*]

theorem wp_mono (h : M.wp p s Q) (hQ : ∀ s a, Q s a → Q' s a) : M.wp p s Q' := by
  induction p generalizing s with
  | ret a => exact hQ s a h
  | call o k ih =>
    intro r hr
    obtain ⟨h₁, h₂⟩ := h r hr
    exact ⟨h₁, ih r h₂⟩

/-! ### Reading a weakest precondition -/

/-- Along a partial run every event is safe and what is left is still good. -/
theorem wp_steps {q : Prog Op Res α} {t} (hwp : M.wp p s Q) (h : p.Steps t q)
    (henv : M.EnvAlong s t) : M.SafeAlong s t ∧ M.wp q (M.run s t) Q := by
  induction h generalizing s with
  | refl p => exact ⟨trivial, hwp⟩
  | call r _ ih =>
    obtain ⟨hs, hk⟩ := hwp r henv.1
    obtain ⟨hs', hq⟩ := ih hk henv.2
    exact ⟨⟨hs, hs'⟩, hq⟩

/-- Along a complete run every event is safe and the result satisfies `Q`. -/
theorem wp_runs {t a} (hwp : M.wp p s Q) (h : p.Runs t a) (henv : M.EnvAlong s t) :
    M.SafeAlong s t ∧ Q (M.run s t) a := by
  induction h generalizing s with
  | ret a => exact ⟨trivial, hwp⟩
  | call r _ ih =>
    obtain ⟨hs, hk⟩ := hwp r henv.1
    obtain ⟨hs', hq⟩ := ih hk henv.2
    exact ⟨⟨hs, hs'⟩, hq⟩

/-- A program none of whose responses carries information has one run, and
only that run has to be watched. -/
theorem wp_of_runs {t a} (h : p.Runs t a) (ht : ∀ e ∈ t, Subsingleton (Res e.1))
    (hsafe : M.SafeAlong s t) (hQ : Q (M.run s t) a) : M.wp p s Q := by
  induction h generalizing s with
  | ret a => exact hQ
  | @call o k t a r _ ih =>
    intro r' _
    have hsub : Subsingleton (Res o) := ht ⟨o, r⟩ (by simp)
    obtain rfl : r = r' := Subsingleton.elim r r'
    exact ⟨hsafe.1, ih (fun e he => ht e (by simp [he])) hsafe.2 hQ⟩

/-! ### Combining with facts about complete runs -/

/-- Add to a postcondition what every complete run is known to satisfy. -/
theorem wp_all {R : List (Event Op Res) → α → Prop} (hwp : M.wp p s Q) (hR : p.All R) :
    M.wp p s fun s' a => Q s' a ∧ ∃ t, s' = M.run s t ∧ R t a := by
  induction p generalizing s R with
  | ret a => exact ⟨hwp, [], rfl, hR⟩
  | call o k ih =>
    intro r hr
    refine ⟨(hwp r hr).1, wp_mono (ih r (hwp r hr).2 (hR r)) ?_⟩
    rintro s' a ⟨hQ, t, rfl, ht⟩
    exact ⟨hQ, ⟨o, r⟩ :: t, rfl, ht⟩

/-- An invariant of the monitor that the events of `p` keep. -/
theorem wp_invariant {K : Event Op Res → Prop} {I : σ → Prop} (hp : p.Emits K) (hI : I s)
    (hK : ∀ s e, K e → I s → M.env s e → M.safe s e ∧ I (M.next s e)) :
    M.wp p s fun s' _ => I s' := by
  induction p generalizing s with
  | ret a => exact hI
  | call o k ih =>
    intro r hr
    obtain ⟨hsafe, hnext⟩ := hK s _ (hp r).1 hI hr
    exact ⟨hsafe, ih r (hp r).2 hnext⟩

/-- **Frame rule**: a program whose events do not concern the monitor
leaves its state alone, and only its result matters. -/
theorem wp_frame {K : Event Op Res → Prop} {R : α → Prop} (hp : p.Emits K)
    (hK : ∀ e, K e → M.safe s e ∧ M.next s e = s) (hR : p.All fun _ a => R a)
    (hQ : ∀ a, R a → Q s a) : M.wp p s Q := by
  have hinv : M.wp p s fun s' _ => s' = s := by
    refine wp_invariant hp rfl ?_
    rintro s' e he rfl -
    exact hK e he
  refine wp_mono (wp_all hinv hR) ?_
  rintro s' a ⟨rfl, -, -, ha⟩
  exact hQ a ha

/-- The frame rule where nothing is known about the result. -/
theorem wp_frame' {K : Event Op Res → Prop} (hp : p.Emits K)
    (hK : ∀ e, K e → M.safe s e ∧ M.next s e = s) (hQ : ∀ a, Q s a) : M.wp p s Q :=
  wp_frame (R := fun _ => True) hp hK (Prog.all_of_forall fun _ _ => trivial) fun a _ => hQ a

/-! ### Two monitors side by side -/

section Both

variable {τ : Type} (M : Monitor Op Res σ) (N : Monitor Op Res τ)

/-- Both monitors watch the program.  The environment owes the first its
promise only where the event is safe for the second. -/
def both : Monitor Op Res (σ × τ) where
  env s e := N.env s.2 e ∧ (N.safe s.2 e → M.env s.1 e)
  safe s e := M.safe s.1 e ∧ N.safe s.2 e
  next s e := (M.next s.1 e, N.next s.2 e)

variable {M N}

/-- The two verifications of a program are one of both. -/
theorem both_wp {x : τ} {R : τ → α → Prop} (hM : M.wp p s Q) (hN : N.wp p x R) :
    (both M N).wp p (s, x) fun s' a => Q s'.1 a ∧ R s'.2 a := by
  induction p generalizing s x with
  | ret a => exact ⟨hM, hN⟩
  | call o k ih =>
    rintro r ⟨hpromised, howed⟩
    obtain ⟨hsafe, hrest⟩ := hN r hpromised
    obtain ⟨hsafe', hrest'⟩ := hM r (howed hsafe)
    exact ⟨⟨hsafe', hsafe⟩, ih r hrest' hrest⟩

end Both

end Monitor

/-! ### The history of a run -/

/-- The monitor whose state is the list of events so far.  `P h e` says that
event `e` is allowed after history `h`; no response is excluded. -/
def Monitor.history (P : List (Event Op Res) → Event Op Res → Prop) :
    Monitor Op Res (List (Event Op Res)) where
  env _ _ := True
  safe := P
  next h e := h ++ [e]

namespace Monitor

variable {P : List (Event Op Res) → Event Op Res → Prop} {h t : List (Event Op Res)}

@[simp] theorem history_run : (history P).run h t = h ++ t := by
  induction t generalizing h with
  | nil => simp
  | cons e t ih =>
    rw [run_cons, ih]
    simp [history]

theorem history_envAlong : (history P).EnvAlong h t :=
  envAlong_of_forall (fun _ _ => trivial) h t

/-- One operation and the rest. -/
theorem history_op_bind {o : Op} {f : Res o → Prog Op Res α} {Q : List (Event Op Res) → α → Prop}
    (hf : ∀ r, P h ⟨o, r⟩ ∧ (history P).wp (f r) (h ++ [⟨o, r⟩]) Q) :
    (history P).wp (.op o >>= f) h Q := fun r _ => hf r

/-- A program whose events are allowed after every history, with what its
complete runs satisfy. -/
theorem history_wp {p : Prog Op Res α} {K : Event Op Res → Prop}
    {R : List (Event Op Res) → α → Prop} {Q : List (Event Op Res) → α → Prop} (hp : p.Emits K)
    (hK : ∀ h e, K e → P h e) (hR : p.All R) (hQ : ∀ t a, R t a → Q (h ++ t) a) :
    (history P).wp p h Q := by
  have hsafe : (history P).wp p h fun _ _ => True :=
    wp_invariant hp trivial fun s e he _ _ => ⟨hK s e he, trivial⟩
  refine wp_mono (wp_all hsafe hR) ?_
  rintro _ a ⟨-, t, rfl, ht⟩
  rw [history_run]
  exact hQ t a ht

/-- Replaying a verification after another history, under another rule. -/
theorem history_shift {P' : List (Event Op Res) → Event Op Res → Prop} {p : Prog Op Res α}
    {Q Q' : List (Event Op Res) → α → Prop} (hwp : (history P).wp p t Q)
    (hP : ∀ u e, P (t ++ u) e → P' (h ++ u) e) (hQ : ∀ u a, Q (t ++ u) a → Q' (h ++ u) a) :
    (history P').wp p h Q' := by
  induction p generalizing h t with
  | ret a => simpa using hQ [] a (by simpa using hwp)
  | call o k ih =>
    intro r _
    obtain ⟨hsafe, hk⟩ := hwp r trivial
    have hsafe : P (t ++ []) ⟨o, r⟩ := by rwa [List.append_nil]
    have hop : P' h ⟨o, r⟩ := by simpa using hP [] ⟨o, r⟩ hsafe
    refine ⟨hop, ih r hk ?_ ?_⟩
    · intro u e
      simpa [history] using hP (⟨o, r⟩ :: u) e
    · intro u a
      simpa [history] using hQ (⟨o, r⟩ :: u) a

/-- A program verified against its history satisfies `P` at every event of
every complete run. -/
theorem history_runs {p : Prog Op Res α} {Q : List (Event Op Res) → α → Prop} {a : α}
    (hwp : (history P).wp p h Q) (ht : p.Runs t a) :
    (∀ pre e post, t = pre ++ e :: post → P (h ++ pre) e) ∧ Q (h ++ t) a := by
  obtain ⟨hsafe, hQ⟩ := wp_runs hwp ht history_envAlong
  refine ⟨?_, by simpa using hQ⟩
  rintro pre e post rfl
  have hat := hsafe.at
  rwa [history_run] at hat

end Monitor

end Interaction
