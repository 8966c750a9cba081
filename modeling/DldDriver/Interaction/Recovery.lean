/-
DldDriver/Interaction/Recovery.lean

Programs that raise exceptions, and programs that are cut off.

    M.ewp p s Q R          p raises, and R holds, or returns, and Q holds
    M.keeping I            M, where every event has to keep I as well
    M.Sessions C s t s'    programs of C one after another, each cut off
                           anywhere or run to its end

`sessions_keep` is the rule for an invariant of the state that whoever comes
next has to find, wherever the program before was cut off.
-/
import DldDriver.Interaction.Monitor

namespace Interaction

namespace Monitor

variable {Op : Type} {Res : Op → Type} {α β ε σ : Type}

/-! ### Exceptions -/

/-- What holds of a result, and of an exception. -/
def Exits (Q : α → Prop) (R : ε → Prop) : Except ε α → Prop
  | .ok a => Q a
  | .error e => R e

section Raising

variable (M : Monitor Op Res σ)

/-- From `s`, `p` performs safe events only; it returns where `Q` holds or
raises where `R` holds. -/
def ewp (p : ExceptT ε (Prog Op Res) α) (s : σ) (Q : σ → α → Prop) (R : σ → ε → Prop) : Prop :=
  M.wp p.run s fun s' => Exits (Q s') (R s')

variable {M} {s : σ} {Q Q' : σ → α → Prop} {R R' : σ → ε → Prop}

theorem ewp_mono {p : ExceptT ε (Prog Op Res) α} (h : M.ewp p s Q R)
    (hQ : ∀ s a, Q s a → Q' s a) (hR : ∀ s e, R s e → R' s e) : M.ewp p s Q' R' := by
  refine wp_mono h fun s r hr => ?_
  cases r with
  | ok a => exact hQ s a hr
  | error e => exact hR s e hr

theorem ewp_bind {p : ExceptT ε (Prog Op Res) β} {f : β → ExceptT ε (Prog Op Res) α} :
    M.ewp (p >>= f) s Q R ↔ M.ewp p s (fun s' b => M.ewp (f b) s' Q R) R := by
  rw [ewp, ExceptT.run_bind, wp_bind]
  constructor
  · refine fun h => wp_mono h fun s' r hr => ?_
    cases r with
    | ok b => exact hr
    | error e => exact hr
  · refine fun h => wp_mono h fun s' r hr => ?_
    cases r with
    | ok b => exact hr
    | error e => exact hr

/-- One operation and the rest. -/
theorem ewp_op_bind {o : Op} {f : Res o → ExceptT ε (Prog Op Res) α}
    (h : ∀ r, M.env s ⟨o, r⟩ → M.safe s ⟨o, r⟩ ∧ M.ewp (f r) (M.next s ⟨o, r⟩) Q R) :
    M.ewp (ExceptT.lift (Prog.op o) >>= f) s Q R := h

theorem ewp_ite {c : Prop} [Decidable c] {p q : ExceptT ε (Prog Op Res) α} :
    M.ewp (if c then p else q) s Q R ↔ (c → M.ewp p s Q R) ∧ (¬ c → M.ewp q s Q R) := by
  split <;> simp [*]

end Raising

/-! ### Cut off anywhere -/

section Cut

variable (M : Monitor Op Res σ)

/-- Every event has to keep `I`. -/
def keeping (I : σ → Prop) : Monitor Op Res σ where
  env := M.env
  safe s e := M.safe s e ∧ I (M.next s e)
  next := M.next

/-- Programs of `C`, one after another; each is cut off anywhere. -/
inductive Sessions (C : Prog Op Res α → Prop) : σ → List (Event Op Res) → σ → Prop
  | nil (s) : Sessions C s [] s
  | cons {s t t' s' p q} : C p → p.Steps t q → M.EnvAlong s t → Sessions C (M.run s t) t' s' →
      Sessions C s (t ++ t') s'

variable {M} {I : σ → Prop} {C : Prog Op Res α → Prop} {s s' : σ} {t : List (Event Op Res)}

@[simp] theorem keeping_run : (M.keeping I).run s t = M.run s t := rfl

theorem keeping_envAlong : (M.keeping I).EnvAlong s t ↔ M.EnvAlong s t := by
  induction t generalizing s with
  | nil => exact Iff.rfl
  | cons e t ih => exact and_congr_right fun _ => ih

theorem keeping_safeAlong (hI : I s) (h : (M.keeping I).SafeAlong s t) :
    M.SafeAlong s t ∧ I (M.run s t) := by
  induction t generalizing s with
  | nil => exact ⟨trivial, hI⟩
  | cons e t ih =>
    obtain ⟨⟨hsafe, hnext⟩, hrest⟩ := h
    exact ⟨⟨hsafe, (ih hnext hrest).1⟩, (ih hnext hrest).2⟩

/-- The invariant holds at the end too. -/
theorem keeping_wp {p : Prog Op Res β} {Q : σ → β → Prop} (hI : I s)
    (h : (M.keeping I).wp p s Q) : (M.keeping I).wp p s fun s' b => Q s' b ∧ I s' := by
  induction p generalizing s with
  | ret b => exact ⟨h, hI⟩
  | call o k ih =>
    intro r hr
    obtain ⟨hsafe, hrest⟩ := h r hr
    exact ⟨hsafe, ih r hsafe.2 hrest⟩

/-- **Crash safety**: an invariant that every program keeps with every event
is there for the next one, wherever the programs before were cut off. -/
theorem sessions_keep (hC : ∀ p, C p → ∀ s, I s → (M.keeping I).wp p s fun _ _ => True)
    (hI : I s) (h : M.Sessions C s t s') : M.SafeAlong s t ∧ I s' := by
  induction h with
  | nil s => exact ⟨trivial, hI⟩
  | cons hp hsteps henv _ ih =>
    obtain ⟨hsafe, -⟩ := wp_steps (hC _ hp _ hI) hsteps (keeping_envAlong.mpr henv)
    obtain ⟨hsafe, hI⟩ := keeping_safeAlong hI hsafe
    obtain ⟨hrest, hI'⟩ := ih hI
    exact ⟨safeAlong_append.mpr ⟨hsafe, hrest⟩, hI'⟩

end Cut

end Monitor

end Interaction
