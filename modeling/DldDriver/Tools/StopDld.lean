/-
DldDriver/Tools/StopDld.lean

`stop_dld` of `tools/trial-remote.py`: the running commands are asked to stop
and waited for, whatever the process table does in between.

A process is its number with its start time.  The code compares identities
that hold the text of the executable's link as well, and that text changes
when the executable is unlinked or renamed under a running process: such a
process is passed over at its turn and reported as newly started afterwards
(`stopDld_unlinked`).  In every run that reads no such change the handover is
as it should be (`stopDld_phases`).
-/
import DldDriver.Tools.ProcessTable
import Mathlib.Data.Rat.Defs
import Mathlib.Algebra.Order.Ring.Unbundled.Rat

namespace Dld.Trial

open FileTree (Name)
open Interaction

/-! ### The code -/

abbrev sigterm : Nat := 15

def startedMessage : String :=
  "another DLD process started during handover; stop its supervisor before retrying"

def stopTimeoutMessage : String :=
  "DLD shutdown timed out; helper retained, no process was force-killed"

/-- The loop over the processes of the first scan.  A process that is gone
when it is signalled makes no difference. -/
def signalAll : List Identity → Handover Unit
  | [] => pure ()
  | identity :: rest => do
    let now ← processIdentity identity.pid
    if now ≠ some identity then signalAll rest else do
    let _ ← op (.kill identity.pid sigterm)
    op (.say ("Stopping existing DLD: PID " ++ String.ofList identity.pid ++ "; " ++
      String.ofList identity.exe))
    signalAll rest

/-- The loop that waits. -/
def awaitStop (existing : List Identity) (deadline : ℚ) : Nat → Handover Unit
  | 0 => throw (.trial stopTimeoutMessage)
  | n + 1 => do
    let remaining ← runningDld
    if remaining = [] then
      if existing ≠ [] then op (.say "Existing DLD processes stopped.") else pure ()
    else if ∃ identity ∈ remaining, identity ∉ existing then throw (.trial startedMessage)
    else do
    let now ← op .time
    if now ≥ deadline then throw (.trial stopTimeoutMessage) else do
    op .sleep
    awaitStop existing deadline n

/-- `ticks` is `int(timeout / 0.1)`. -/
def stopDld (ticks : Int) (timeout : ℚ) : Handover Unit := do
  let existing ← runningDld
  signalAll existing
  let start ← op .time
  awaitStop existing (start + timeout) (max 1 (ticks + 1)).toNat

/-! ### What a handover is -/

section Phases

variable (ev : Evolution)

/-- The turn of a process: it is revalidated and signalled, or it was not
there all the time. -/
inductive Turn (k : Nat) (id : Identity) : List ProcEvent → Prop
  | signalled {reads delivered message} : (∀ e ∈ reads, IsRead e) → reads.length = 3 →
      At ev k id → At ev (k + 1) id → At ev (k + 2) id →
      Turn k id (reads ++ [⟨.kill id.pid sigterm, delivered⟩, ⟨.say message, ()⟩])
  | gone {reads} : (∀ e ∈ reads, IsRead e) →
      ¬ (Alive ev k id ∧ Alive ev (k + 1) id ∧ Alive ev (k + 2) id) → Turn k id reads

/-- One turn for each process, in order, from step `k` on. -/
def Turns : Nat → List Identity → List ProcEvent → Prop
  | _, [], t => t = []
  | k, id :: rest, t => ∃ turn t', t = turn ++ t' ∧ Turn ev k id turn ∧
      Turns (k + turn.length) rest t'

/-- The process was not found by the first scan. -/
def New (existing : List Identity) (id : Identity) : Prop :=
  ∀ old ∈ existing, ¬ (old.pid = id.pid ∧ old.start = id.start)

/-- The phase that waits. -/
structure Awaited (existing : List Identity) (t : List ProcEvent) (result : Except PyError Unit) :
    Prop where
  quiet : ∀ e ∈ t, ¬ IsKill e
  /-- What counts as newly started is new. -/
  known : ∀ found ∈ scans t, ∀ id ∈ found, id ∉ existing → New existing id
  returned : result = .ok () → [] ∈ scans t
  raised : (∃ found ∈ scans t, ∃ id ∈ found, New existing id) →
    result = .error (.trial startedMessage)
  reported : result = .error (.trial startedMessage) →
    ∃ found ∈ scans t, ∃ id ∈ found, New existing id

/-- A handover: a scan, a turn for each process that it found, and a phase
that waits, with at most `ticks + 2` scans in all. -/
def HandedOver (ticks : Int) (t : List ProcEvent) (result : Except PyError Unit) : Prop :=
  ∃ t₁ t₂ t₃ existing, t = t₁ ++ t₂ ++ t₃ ∧ Scan ev 0 t₁ existing ∧
    Turns ev t₁.length existing t₂ ∧ scans t₂ = [] ∧ Awaited existing t₃ result ∧
    ((scans t).length : Int) ≤ ticks + 2

/-- Where the run reads the link of a process again that it has seen running
a DLD executable, it reads the same text. -/
def Stable (t : List ProcEvent) : Prop :=
  ∀ i j pid p q target target', i ≤ j → ReadsLink t i pid → ReadsLink t j pid →
    ev.table i pid = some p → ev.table j pid = some q → p.start = q.start →
    p.exe = some target → isDld target = true → q.exe = some target' → target' = target

end Phases

/-! ### The turns -/

section Runs

variable {ev : Evolution} {k m : Nat} {t t' whole : List ProcEvent} {id old : Identity}
variable {existing : List Identity} {r : Except PyError Unit}

/-- A part of the run and what follows it. -/
theorem prefix_drop_append (h : t ++ t' <+: whole.drop k) :
    t <+: whole.drop k ∧ t' <+: whole.drop (k + t.length) := by
  obtain ⟨post, hpost⟩ := h
  rw [List.append_assoc] at hpost
  refine ⟨⟨t' ++ post, hpost⟩, post, ?_⟩
  rw [← List.drop_drop, ← hpost, List.drop_left]

theorem ReadsLink.inside {pid : Name} (h : ReadsLink t m pid) (hpart : t <+: whole.drop k) :
    ReadsLink whole (k + m) pid := by
  obtain ⟨post, hpost⟩ := hpart
  obtain ⟨target, h⟩ : ReadsLink (t ++ post) m pid := h.left
  refine ⟨target, ?_⟩
  rwa [hpost, List.getElem?_drop] at h

/-- The same process is found with the same identity. -/
theorem Stable.found (hstable : Stable ev whole) {i j : Nat} (hij : i ≤ j)
    (hlink : ReadsLink whole (i + 1) old.pid) (hold : Found ev i old)
    (hdld : isDld old.exe = true) (hlink' : ReadsLink whole (j + 1) id.pid) (hid : Found ev j id)
    (hpid : old.pid = id.pid) (hstart : old.start = id.start) : id = old := by
  obtain ⟨-, -, p, hp, hpstart, hpexe⟩ := hold
  obtain ⟨-, -, q, hq, hqstart, hqexe⟩ := hid
  have hsame : p.start = q.start := by rw [hpstart, hqstart, hstart]
  have hexe := hstable (i + 1) (j + 1) id.pid p q old.exe id.exe (by omega) (hpid ▸ hlink) hlink'
    (hpid ▸ hp) hq hsame hpexe hdld hqexe
  obtain ⟨pid, exe, start⟩ := id
  obtain ⟨pid', exe', start'⟩ := old
  dsimp only at hpid hstart hexe
  rw [hpid, hstart, hexe]

/-- The identities were found before step `k`. -/
def FoundBefore (ev : Evolution) (whole : List ProcEvent) (k : Nat) (ids : List Identity) : Prop :=
  ∀ id ∈ ids, isDld id.exe = true ∧
    ∃ j, j + 2 < k ∧ ReadsLink whole (j + 1) id.pid ∧ Found ev j id

theorem FoundBefore.later {ids : List Identity} (h : FoundBefore ev whole k ids) (m : Nat) :
    FoundBefore ev whole (k + m) ids := by
  intro id hid
  obtain ⟨hdld, j, hj, hfound⟩ := h id hid
  exact ⟨hdld, j, by omega, hfound⟩

theorem signalAll_runs (hstable : Stable ev whole) {ids : List Identity}
    (hids : FoundBefore ev whole k ids) (h : (signalAll ids).run.Runs t r) (hamong : Among ev k t)
    (hpart : t <+: whole.drop k) : r = .ok () ∧ Turns ev k ids t ∧ scans t = [] := by
  induction ids generalizing k t with
  | nil =>
    cases h
    exact ⟨rfl, rfl, rfl⟩
  | cons id rest ih =>
    obtain ⟨⟨hdld, j, hj, hfirst, hfound⟩, hrest⟩ := List.forall_mem_cons.mp hids
    have hrest : FoundBefore ev whole k rest := hrest
    rw [signalAll] at h
    obtain ⟨t₁, t₂, r₁, rfl, hidentity, h₁⟩ := runs_bind h
    obtain ⟨hamong₁, hamong₂⟩ := (among_append ev).mp hamong
    obtain ⟨hpart₁, hpart₂⟩ := prefix_drop_append hpart
    obtain ⟨hreads, hidentity⟩ := processIdentity_runs hidentity hamong₁
    rcases hidentity with ⟨now, rfl, hpid, hlength, hlink, hnow⟩ | ⟨rfl, hgone⟩
    · have hcurrent := hnow
      obtain ⟨⟨p, hp, hstart⟩, hlast, q, hq, hstart', -⟩ := hcurrent
      by_cases hsame : now = id
      · -- it is still the process that the scan found
        subst hsame
        dsimp only at h₁
        rw [if_neg (not_not.mpr rfl)] at h₁
        obtain ⟨delivered, t₃, rfl, h₂⟩ := runs_op h₁
        obtain ⟨said, t₄, rfl, h₃⟩ := runs_op h₂
        obtain ⟨-, -, hamong₃⟩ := hamong₂
        obtain ⟨-, hpart₃⟩ := prefix_drop_append (t := [_, _]) hpart₂
        obtain ⟨hr, hturns, hscans⟩ := ih ((hrest.later t₁.length).later 2) h₃ hamong₃ hpart₃
        have hturn : Turn ev k now (t₁ ++ [⟨.kill now.pid sigterm, delivered⟩, ⟨.say _, said⟩]) :=
          .signalled hreads hlength ⟨p, hp, hstart⟩ ⟨q, hq, hstart'⟩ hlast
        refine ⟨hr, ⟨_, t₄, ?_, hturn, ?_⟩, ?_⟩
        · rw [List.append_assoc]
          rfl
        · rw [List.length_append]
          exact hturns
        · rw [scans_append, scans_reads hreads]
          exact hscans
      · -- another process has its number
        have h₁ : (signalAll rest).run.Runs t₂ r := by
          dsimp only at h₁
          rwa [if_pos fun heq => hsame (Option.some.inj heq)] at h₁
        obtain ⟨hr, hturns, hscans⟩ := ih (hrest.later _) h₁ hamong₂ hpart₂
        refine ⟨hr, ⟨t₁, t₂, rfl, .gone hreads ?_, hturns⟩, ?_⟩
        · rintro ⟨⟨p', hp', hstart', -⟩, -⟩
          rw [hpid, hp'] at hp
          cases hp
          have hlink : ReadsLink whole (k + 1) now.pid := hpid.symm ▸ hlink.inside hpart₁
          exact hsame (hstable.found (by omega) hfirst hfound hdld hlink hnow hpid.symm
            (hstart'.symm.trans hstart))
        · rw [scans_append, scans_reads hreads, hscans]
          rfl
    · -- there is no process
      have h₁ : (signalAll rest).run.Runs t₂ r := h₁
      obtain ⟨hr, hturns, hscans⟩ := ih (hrest.later _) h₁ hamong₂ hpart₂
      refine ⟨hr, ⟨t₁, t₂, rfl, .gone hreads (hgone id rfl), hturns⟩, ?_⟩
      rw [scans_append, scans_reads hreads, hscans]
      rfl

/-! ### The phase that waits -/

theorem Awaited.timeout : Awaited existing [] (.error (.trial stopTimeoutMessage)) where
  quiet := nofun
  known := nofun
  returned := nofun
  raised := by
    rintro ⟨_, hfound, -⟩
    cases hfound
  reported := by
    intro hmessage
    injection hmessage with hmessage
    injection hmessage with hmessage
    exact absurd hmessage (by decide)

/-- Nothing new has been found yet. -/
theorem Awaited.append (hquiet : ∀ e ∈ t, ¬ IsKill e)
    (hold : ∀ found ∈ scans t, ∀ id ∈ found, id ∈ existing) (h : Awaited existing t' r) :
    Awaited existing (t ++ t') r := by
  have hscans : ∀ found ∈ scans (t ++ t'), found ∈ scans t' ∨ ∀ id ∈ found, id ∈ existing := by
    intro found hfound
    rw [scans_append, List.mem_append] at hfound
    exact hfound.symm.imp_right (hold found)
  have hlater : ∀ found ∈ scans t', found ∈ scans (t ++ t') := by
    intro found hfound
    rw [scans_append]
    exact List.mem_append_right _ hfound
  constructor
  · intro e he
    exact (List.mem_append.mp he).elim (hquiet e) (h.quiet e)
  · intro found hfound id hid hnot
    rcases hscans found hfound with hfound | hfound
    · exact h.known found hfound id hid hnot
    · exact absurd (hfound id hid) hnot
  · intro hr
    exact hlater _ (h.returned hr)
  · rintro ⟨found, hfound, id, hid, hnew⟩
    rcases hscans found hfound with hfound | hfound
    · exact h.raised ⟨found, hfound, id, hid, hnew⟩
    · exact absurd ⟨rfl, rfl⟩ (hnew id (hfound id hid))
  · intro hr
    obtain ⟨found, hfound, hnew⟩ := h.reported hr
    exact ⟨found, hlater _ hfound, hnew⟩

/-- What a scan finds after the first one is as it was then, or new. -/
theorem Scan.known (hstable : Stable ev whole) (hexisting : FoundBefore ev whole k existing)
    {found : List Identity} (hscan : Scan ev k t found) (hpart : t <+: whole.drop k) :
    ∀ id ∈ found, id ∉ existing → New existing id := by
  rintro id hid hnot old hold ⟨hpid, hstart⟩
  obtain ⟨hdld, i, hi, hfirst, holdfound⟩ := hexisting old hold
  obtain ⟨-, m, hlt, hlink, hidfound⟩ := hscan.seen id hid
  have hle : i ≤ k + m := by omega
  have hsame := hstable.found hle hfirst holdfound hdld (hlink.inside hpart) hidfound hpid hstart
  exact hnot (hsame ▸ hold)

theorem awaitStop_runs (hstable : Stable ev whole) {deadline : ℚ}
    (hexisting : FoundBefore ev whole k existing)
    (h : (awaitStop existing deadline m).run.Runs t r) (hamong : Among ev k t)
    (hpart : t <+: whole.drop k) :
    Awaited existing t r ∧ (scans t).length ≤ m := by
  induction m generalizing k t with
  | zero =>
    cases h
    exact ⟨.timeout, le_rfl⟩
  | succ m ih =>
    rw [awaitStop] at h
    obtain ⟨t₁, t₂, r₁, rfl, hrun, h₁⟩ := runs_bind h
    obtain ⟨hamong₁, hamong₂⟩ := (among_append ev).mp hamong
    obtain ⟨hpart₁, hpart₂⟩ := prefix_drop_append hpart
    obtain ⟨found, rfl, hscan⟩ := runningDld_runs hrun hamong₁
    have hknown := hscan.known hstable hexisting hpart₁
    dsimp only at h₁
    split at h₁
    · -- all have stopped
      next hnil =>
      subst hnil
      obtain ⟨rfl, hquiet, hscans⟩ : r = .ok () ∧ (∀ e ∈ t₂, ¬ IsKill e) ∧ scans t₂ = [] := by
        split at h₁
        · cases h₁ with
          | call said h₁ =>
            cases h₁
            exact ⟨rfl, by simp [IsKill], rfl⟩
        · cases h₁
          exact ⟨rfl, nofun, rfl⟩
      have hall : scans (t₁ ++ t₂) = [[]] := by rw [scans_append, hscan.marked, hscans]; rfl
      refine ⟨⟨?_, ?_, ?_, ?_, nofun⟩, ?_⟩
      · intro e he
        exact (List.mem_append.mp he).elim (hscan.quiet e) (hquiet e)
      · rw [hall]
        rintro _ hfound id hid
        cases List.mem_singleton.mp hfound
        cases hid
      · intro _
        rw [hall]
        exact List.mem_singleton_self _
      · rw [hall]
        rintro ⟨_, hfound, id, hid, -⟩
        cases List.mem_singleton.mp hfound
        cases hid
      · rw [hall]
        exact Nat.le_add_left _ _
    split at h₁
    · -- a process that is new
      next hany =>
      cases h₁
      have hall : scans (t₁ ++ []) = [found] := by rw [List.append_nil, hscan.marked]
      have hnew : ∃ found ∈ scans (t₁ ++ []), ∃ id ∈ found, New existing id := by
        obtain ⟨id, hid, hnot⟩ := hany
        rw [hall]
        exact ⟨found, List.mem_singleton_self _, id, hid, hknown id hid hnot⟩
      refine ⟨⟨?_, ?_, nofun, fun _ => rfl, fun _ => hnew⟩, ?_⟩
      · rw [List.append_nil]
        exact hscan.quiet
      · rw [hall]
        intro found' hfound
        cases List.mem_singleton.mp hfound
        exact hknown
      · rw [hall]
        exact Nat.le_add_left _ _
    · next hany =>
      have hold : ∀ id ∈ found, id ∈ existing := by
        intro id hid
        by_contra hnot
        exact hany ⟨id, hid, hnot⟩
      have hold : ∀ found' ∈ scans t₁, ∀ id ∈ found', id ∈ existing := by
        rw [hscan.marked]
        intro found' hfound
        cases List.mem_singleton.mp hfound
        exact hold
      obtain ⟨now, t₃, rfl, h₂⟩ := runs_op h₁
      rw [scans_append, hscan.marked]
      split at h₂
      · -- the time is over
        cases h₂
        refine ⟨.append hscan.quiet hold (.append (t := [_]) ?_ ?_ .timeout), ?_⟩
        · simp [IsKill]
        · exact nofun
        · exact Nat.le_add_left _ _
      · obtain ⟨slept, t₄, rfl, h₃⟩ := runs_op h₂
        obtain ⟨-, -, hamong₃⟩ := hamong₂
        obtain ⟨-, hpart₃⟩ := prefix_drop_append (t := [_, _]) hpart₂
        obtain ⟨hawaited, hlength⟩ := ih ((hexisting.later t₁.length).later 2) h₃ hamong₃ hpart₃
        refine ⟨.append hscan.quiet hold (.append (t := [_, _]) ?_ ?_ hawaited), ?_⟩
        · simp [IsKill]
        · exact nofun
        · show (scans t₄).length + 1 ≤ m + 1
          omega

end Runs

/-! ### Two runs -/

/-- What the table answers, at every step. -/
def answer (ev : Evolution) (entries : {entries : List Name // entries.Nodup}) (k : Nat) :
    (o : ProcOp) → ProcRes o × Nat
  | .listdir => (entries, k + 1)
  | .stat pid => ((ev.table k pid).map (statText pid), k + 1)
  | .exe pid => ((ev.table k pid).bind Process.exe, k + 1)
  | .kill pid _ => ((ev.table k pid).isSome, k + 1)
  | .time => (0, k + 1)
  | .sleep => ((), k + 1)
  | .say _ => ((), k + 1)
  | .scanned _ => ((), k + 1)

theorem among_execWith {α : Type} (ev : Evolution) (entries : {entries : List Name // entries.Nodup})
    (k : Nat) (p : Prog ProcOp ProcRes α) : Among ev k (p.execWith (answer ev entries) k).1 := by
  induction p generalizing k with
  | ret a => trivial
  | call o f ih =>
    cases o with
    | _ => exact ⟨by first | rfl | trivial, ih _ _⟩

/-- A process that is always started at the same time. -/
def receiver (exe : Name) : Process where
  comm := "dld-udp".toList
  fields := List.replicate 20 ['7']
  exe := some exe
  words := by decide
  enough := by decide

/-- The process 100 until step `last`, with its link at every step. -/
def lone (exe : Nat → Name) (last : Nat) : Evolution where
  table k pid := if pid = "100".toList ∧ k < last then some (receiver (exe k)) else none
  lives := by
    intro i j k pid p q hij hjk hp hq _
    obtain ⟨⟨hpid, -⟩, hp⟩ := Option.ite_none_right_eq_some.mp hp
    obtain ⟨⟨-, hk⟩, -⟩ := Option.ite_none_right_eq_some.mp hq
    cases hp
    exact ⟨receiver (exe j), if_pos ⟨hpid, by omega⟩, rfl⟩

def installed : Name := "/run/prior/build/dld-udp".toList

def procEntries : {entries : List Name // entries.Nodup} :=
  ⟨["self".toList, "100".toList], by decide⟩

/-- The executable is unlinked after the first scan. -/
def unlinked : Evolution := lone (fun k => if k < 5 then installed else installed ++ deletedSuffix) 50

/-- The process exits when it is signalled. -/
def obedient : Evolution := lone (fun _ => installed) 9

/-- The run with the default of 20 seconds. -/
def handover (ev : Evolution) : List ProcEvent × Except PyError Unit :=
  (stopDld 200 20).run.execWith (answer ev procEntries) 0

/-- A process whose link stays. -/
theorem stable_lone (exe : Name) (last : Nat) (t : List ProcEvent) :
    Stable (lone (fun _ => exe) last) t := by
  intro i j pid p q target target' _ _ _ hp hq _ hexe _ hexe'
  obtain ⟨-, hp⟩ := Option.ite_none_right_eq_some.mp hp
  obtain ⟨-, hq⟩ := Option.ite_none_right_eq_some.mp hq
  cases hp
  cases hq
  cases hexe
  cases hexe'
  rfl

/-! ### The handover -/

/-- **A handover is as it should be**, whatever the process table does, where
the links of the processes of the DLD are read as they were. -/
theorem stopDld_phases (ev : Evolution) {ticks : Int} (hticks : 0 ≤ ticks) (timeout : ℚ) :
    (stopDld ticks timeout).run.All fun t result =>
      Among ev 0 t → Stable ev t → HandedOver ev ticks t result := by
  apply Prog.all_iff.mpr
  intro t result h hamong hlinks
  obtain ⟨whole, hstable, hpart⟩ : ∃ whole, Stable ev whole ∧ t <+: whole.drop 0 :=
    ⟨t, hlinks, List.prefix_refl _⟩
  rw [stopDld] at h
  obtain ⟨t₁, t₂, r₁, rfl, hfirst, h⟩ := runs_bind h
  obtain ⟨hamong₁, hamong₂⟩ := (among_append ev).mp hamong
  obtain ⟨existing, rfl, hscan⟩ := runningDld_runs hfirst hamong₁
  obtain ⟨hpart₁, hpart₂⟩ := prefix_drop_append hpart
  have hexisting : FoundBefore ev whole (0 + t₁.length) existing := by
    intro id hid
    obtain ⟨hdld, m, hlt, hlink, hfound⟩ := hscan.seen id hid
    exact ⟨hdld, 0 + m, by omega, hlink.inside hpart₁, hfound⟩
  -- the turns
  obtain ⟨t₂, t₃, r₂, rfl, hsignals, h₁⟩ := runs_bind h
  obtain ⟨hamong₂, hamong₃⟩ := (among_append ev).mp hamong₂
  obtain ⟨hpart₂, hpart₃⟩ := prefix_drop_append hpart₂
  obtain ⟨rfl, hturns, hscans⟩ := signalAll_runs hstable hexisting hsignals hamong₂ hpart₂
  -- the phase that waits
  obtain ⟨start, t₄, rfl, h₂⟩ := runs_op h₁
  obtain ⟨-, hamong₄⟩ := hamong₃
  obtain ⟨-, hpart₄⟩ := prefix_drop_append (t := [_]) hpart₃
  obtain ⟨hawaited, hlength⟩ := awaitStop_runs hstable ((hexisting.later t₂.length).later 1) h₂
    hamong₄ hpart₄
  have hawaited : Awaited existing (⟨.time, start⟩ :: t₄) result :=
    hawaited.append (t := [_]) (by simp [IsKill]) nofun
  refine ⟨t₁, t₂, _, existing, (List.append_assoc _ _ _).symm, hscan, ?_, hscans, hawaited, ?_⟩
  · rwa [Nat.zero_add] at hturns
  · rw [scans_append, scans_append, hscan.marked, hscans]
    have hsome : (scans (⟨.time, start⟩ :: t₄)).length ≤ (max 1 (ticks + 1)).toNat := hlength
    rw [List.nil_append, List.singleton_append, List.length_cons]
    omega

theorem stopDld_obedient :
    HandedOver obedient 200 (handover obedient).1 (handover obedient).2 ∧
      (handover obedient).2 = .ok () ∧ scans (handover obedient).1 =
        [[⟨"100".toList, installed, ['7']⟩], []] :=
  ⟨Prog.all_iff.mp (stopDld_phases obedient (by decide) 20) _ _ (Prog.execWith_runs _ _ _)
    (among_execWith _ _ _ _) (stable_lone _ _ _), by rfl, by decide +kernel⟩

/-- The process 100 is passed over at its turn, and the next scan finds it
again, as new. -/
theorem stopDld_unlinked :
    (stopDld 200 20).run.Runs (handover unlinked).1 (handover unlinked).2 ∧
      Among unlinked 0 (handover unlinked).1 ∧ (∀ e ∈ (handover unlinked).1, ¬ IsKill e) ∧
      (handover unlinked).2 = .error (.trial startedMessage) ∧
      ¬ HandedOver unlinked 200 (handover unlinked).1 (handover unlinked).2 := by
  refine ⟨Prog.execWith_runs _ _ _, among_execWith _ _ _ _, by decide +kernel, by rfl, ?_⟩
  rintro ⟨t₁, t₂, t₃, existing, ht, hscan, -, hscans, hawaited, -⟩
  have hall : scans (handover unlinked).1 = [[⟨"100".toList, installed, ['7']⟩],
      [⟨"100".toList, installed ++ deletedSuffix, ['7']⟩]] := by
    decide +kernel
  rw [ht, scans_append, scans_append, hscan.marked, hscans] at hall
  obtain ⟨rfl, hlater⟩ := List.cons.inj hall
  have hlater : scans t₃ = [[⟨"100".toList, installed ++ deletedSuffix, ['7']⟩]] := hlater
  obtain ⟨found, hfound, id, hid, hnew⟩ := hawaited.reported (by rfl)
  rw [hlater] at hfound
  cases List.mem_singleton.mp hfound
  cases List.mem_singleton.mp hid
  exact hnew _ (List.mem_singleton_self _) ⟨rfl, rfl⟩

end Dld.Trial
