/-
DldDriver/Interaction/Ends.lean

Total correctness of machines.

    Ends code M Q p s    as long as the environment keeps its promises, the
                         machine comes to an end from residual p and monitor
                         state s, and where it ends Q holds

A run that goes on forever has no derivation.  `ends_of_rank` is the rule
for loops: every block leaves for a label of a lower rank.
-/
import DldDriver.Interaction.Machine

namespace Interaction

namespace Machine

variable {Op : Type} {Res : Op → Type} {Λ σ : Type}

section

variable (code : Code Op Res Λ) (M : Monitor Op Res σ) (Q : σ → Prop)

/-- Every promised run is finite, and ends where `Q` holds. -/
inductive Ends : Prog Op Res (Option Λ) → σ → Prop
  | halt {s} (h : Q s) : Ends (.ret none) s
  | jump {l s} (h : Ends (code l) s) : Ends (.ret (some l)) s
  | call {o k s} (h : ∀ r, M.env s ⟨o, r⟩ → Ends (k r) (M.next s ⟨o, r⟩)) : Ends (.call o k) s

end

variable {code : Code Op Res Λ} {M : Monitor Op Res σ} {Q : σ → Prop}
variable {p q : Prog Op Res (Option Λ)} {s : σ} {t : List (Event Op Res)}

/-- Where a promised run has come to, the machine still ends. -/
theorem Ends.steps (h : Ends code M Q p s) (ht : Steps code p t q) (henv : M.EnvAlong s t) :
    Ends code M Q q (M.run s t) := by
  induction ht generalizing s with
  | refl p => exact h
  | call r _ ih =>
    cases h with
    | call h => exact ih (h r henv.1) henv.2
  | jump _ ih =>
    cases h with
    | jump h => exact ih h henv

/-- The end of a promised run. -/
theorem Ends.halted (h : Ends code M Q p s) (ht : Steps code p t (.ret none))
    (henv : M.EnvAlong s t) : Q (M.run s t) := by
  cases h.steps ht henv with
  | halt h => exact h

/-- A block whose safe runs end where the machine ends from then on. -/
theorem ends_of_wp (h : M.wp p s fun s' o => Ends code M Q (.ret o) s') : Ends code M Q p s := by
  induction p generalizing s with
  | ret o => exact h
  | call o k ih => exact .call fun r hr => ih r (h r hr).2

/-- Where a block may leave for: the end, or a label of a rank below `n`. -/
def Descends (Q : σ → Prop) (L : Λ → σ → Prop) (rank : Λ → σ → Nat) (n : Nat) :
    σ → Option Λ → Prop
  | s, none => Q s
  | s, some l => L l s ∧ rank l s < n

/-- **The rule for loops**: where `L` holds the block of a label halts at `Q`
or leaves for a label of a lower rank where `L` holds. -/
theorem ends_of_rank {L : Λ → σ → Prop} (rank : Λ → σ → Nat)
    (hblock : ∀ l s, L l s → M.wp (code l) s (Descends Q L rank (rank l s)))
    {l : Λ} (h : L l s) : Ends code M Q (code l) s := by
  suffices hall : ∀ n l s, rank l s < n → L l s → Ends code M Q (code l) s from
    hall _ l s (Nat.lt_succ_self _) h
  intro n
  induction n with
  | zero =>
    intro l s hn
    exact absurd hn (Nat.not_lt_zero _)
  | succ n ih =>
    intro l s hn hL
    apply ends_of_wp
    apply Monitor.wp_mono (hblock l s hL)
    intro s' o ho
    cases o with
    | none => exact .halt ho
    | some l' => exact .jump (ih l' s' (Nat.lt_of_lt_of_le ho.2 (Nat.le_of_lt_succ hn)) ho.1)

end Machine

end Interaction
