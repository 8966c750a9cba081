/-
DldDriver/Tools/ProcessTable.lean

Processes as `tools/trial-remote.py` sees them: `/proc`, `process_identity`
and `running_dld`.

The process table changes between any two system calls.  An `Evolution` is the
table at every step; a run is one with it (`Among ev k t`) if the events t,
from step k on, got the answers of the tables of their steps.  Reads fail only
where there is no process, and an exited one has no executable.

    At ev j id      at step j the process id.pid, id.start is there
    Alive ev j id   ... and has not exited
    Found ev j id   its three reads, from step j on, gave id
    Seen ev k t id  ... among the events t, which begin at step k, and it runs a
                    DLD executable
-/
import DldDriver.Interaction.Prog
import DldDriver.Tools.Python
import Mathlib.Data.List.Nodup

namespace Dld.Trial

open FileTree (Name)
open Interaction

/-! ### Text -/

/-- `str.isspace` -/
def isSpace (c : Char) : Bool :=
  c.toNat ∈ List.range' 0x09 5 ++ List.range' 0x1c 5 ++ [0x85, 0xa0, 0x1680] ++
    List.range' 0x2000 11 ++ [0x2028, 0x2029, 0x202f, 0x205f, 0x3000]

def strip (text : Name) : Name :=
  ((text.dropWhile isSpace).reverse.dropWhile isSpace).reverse

/-- `text.rsplit(c, 1)[1]`, if there is a `c` -/
def afterLast (c : Char) (text : Name) : Option Name :=
  if c ∈ text then some (text.reverse.takeWhile (· != c)).reverse else none

/-- The loop of `str.split`, with the word so far. -/
def wordsFrom (word : Name) : Name → List Name
  | [] => if word.isEmpty then [] else [word]
  | c :: rest =>
    if isSpace c then
      if word.isEmpty then wordsFrom [] rest else word :: wordsFrom [] rest
    else wordsFrom (word ++ [c]) rest

/-- `read(base + "/stat").rsplit(")", 1)[1].split()[19]` -/
def startTime (text : Name) : Option Name :=
  ((afterLast ')' (strip text)).map (wordsFrom [])).bind (·[19]?)

def isDigits (entry : Name) : Bool := !entry.isEmpty && entry.all Char.isDigit

/-- `os.path.basename` -/
def basename (path : Name) : Name := (path.reverse.takeWhile (· != '/')).reverse

def deletedSuffix : Name := " (deleted)".toList

/-- The name of the executable, unlinked or not. -/
def executableName (target : Name) : Name :=
  let name := basename target
  if deletedSuffix.isSuffixOf name then name.take (name.length - 10) else name

def dldNames : List Name := ["dld-init".toList, "dld-send".toList, "dld-udp".toList]

def isDld (target : Name) : Bool := dldNames.contains (executableName target)

/-! ### Processes -/

/-- A word of `/proc/<pid>/stat`. -/
def IsWord (word : Name) : Prop := word ≠ [] ∧ ∀ c ∈ word, c ≠ ')' ∧ isSpace c = false

instance (word : Name) : Decidable (IsWord word) :=
  @instDecidableAnd _ _ inferInstance (List.decidableBAll _ word)

/-- A process; `fields` is what `stat` shows behind the command name, which
may hold any character. -/
structure Process where
  comm : Name
  fields : List Name
  /-- The link `/proc/<pid>/exe`, none once the process has exited. -/
  exe : Option Name
  words : ∀ field ∈ fields, IsWord field
  enough : 20 ≤ fields.length

/-- When the process was started. -/
def Process.start (p : Process) : Name :=
  p.fields.get ⟨19, Nat.lt_of_lt_of_le (by decide) p.enough⟩

/-- The content of `/proc/<pid>/stat`. -/
def statText (pid : Name) (p : Process) : Name :=
  pid ++ ' ' :: '(' :: p.comm ++ ')' :: p.fields.flatMap (' ' :: ·) ++ ['\n']

/-- `(pid, target, before)` -/
structure Identity where
  pid : Name
  exe : Name
  start : Name
  deriving DecidableEq

inductive ProcOp
  /-- `os.listdir("/proc")` -/
  | listdir
  /-- `read` of `/proc/<pid>/stat` -/
  | stat (pid : Name)
  /-- `os.readlink` of `/proc/<pid>/exe` -/
  | exe (pid : Name)
  /-- `os.kill` -/
  | kill (pid : Name) (signal : Nat)
  | time
  | sleep
  | say (message : String)
  /-- Mark: `running_dld` has returned. -/
  | scanned (found : List Identity)
  deriving DecidableEq

/-- A read gives nothing, and a signal is not delivered, where the process is
gone. -/
abbrev ProcRes : ProcOp → Type
  | .listdir => {entries : List Name // entries.Nodup}
  | .stat _ => Option Name
  | .exe _ => Option Name
  | .kill .. => Bool
  | .time => ℚ
  | .sleep => Unit
  | .say _ => Unit
  | .scanned _ => Unit

abbrev Handover := ExceptT PyError (Prog ProcOp ProcRes)

abbrev ProcEvent := Event ProcOp ProcRes

def op (o : ProcOp) : Handover (ProcRes o) := ExceptT.lift (Prog.op o)

/-- The start time that a `stat` shows. -/
def startOf (text : Name) : Handover Name :=
  match startTime text with
  | some start => pure start
  | none => throw (.raised "IndexError")

def processIdentity (pid : Name) : Handover (Option Identity) := do
  let some stat ← op (.stat pid) | pure none
  let before ← startOf stat
  let some target ← op (.exe pid) | pure none
  let some stat ← op (.stat pid) | pure none
  let after ← startOf stat
  if before ≠ after then pure none else pure (some ⟨pid, target, before⟩)

/-- The loop of `running_dld`. -/
def scanEntries : List Name → Handover (List Identity)
  | [] => pure []
  | entry :: rest => do
    if isDigits entry = false then scanEntries rest else do
    let identity ← processIdentity entry
    match identity with
    | none => scanEntries rest
    | some found => do
      let processes ← scanEntries rest
      pure (if isDld found.exe then found :: processes else processes)

def runningDld : Handover (List Identity) := do
  let entries ← op .listdir
  let processes ← scanEntries entries.1
  op (.scanned processes)
  pure processes

/-! ### The start time of a process -/

section Words

variable {word rest : Name}

theorem wordsFrom_append (start word rest : Name) (hword : ∀ c ∈ word, isSpace c = false) :
    wordsFrom start (word ++ rest) = wordsFrom (start ++ word) rest := by
  induction word generalizing start with
  | nil => simp
  | cons c word ih =>
    obtain ⟨hc, hword⟩ := List.forall_mem_cons.mp hword
    rw [List.cons_append, wordsFrom, hc, if_neg Bool.false_ne_true, ih _ hword, List.append_assoc]
    rfl

/-- Words with blanks between them are split at the blanks. -/
theorem wordsFrom_flatMap {fields : List Name} (hfields : ∀ field ∈ fields, IsWord field)
    (word : Name) : wordsFrom word (fields.flatMap (' ' :: ·)) =
      if word.isEmpty then fields else word :: fields := by
  induction fields generalizing word with
  | nil =>
    rw [List.flatMap_nil, wordsFrom]
  | cons field fields ih =>
    obtain ⟨⟨hne, hplain⟩, hfields⟩ := List.forall_mem_cons.mp hfields
    have hfirst : wordsFrom [] (field ++ fields.flatMap (' ' :: ·)) = field :: fields := by
      rw [wordsFrom_append _ _ _ fun c hc => (hplain c hc).2, List.nil_append, ih hfields,
        if_neg (by simpa using hne)]
    rw [List.flatMap_cons, List.cons_append, wordsFrom, if_pos (by decide), hfirst]

/-- Blanks at the end of a text that ends otherwise. -/
theorem dropWhile_reverse (text : Name) {c : Char} (hc : isSpace c = false) (blanks : Name)
    (hblanks : ∀ b ∈ blanks, isSpace b = true) :
    ((text ++ [c] ++ blanks).reverse.dropWhile isSpace).reverse = text ++ [c] := by
  rw [List.reverse_append, List.dropWhile_append_of_pos (by simpa using hblanks),
    List.reverse_append, List.reverse_singleton, List.singleton_append,
    List.dropWhile_cons_of_neg (by simp [hc]), List.reverse_cons, List.reverse_reverse]

theorem afterLast_append (c : Char) (front back : Name) (hback : c ∉ back) :
    afterLast c (front ++ c :: back) = some back := by
  have hne : ∀ d ∈ back.reverse, (d != c) = true := by
    intro d hd
    rw [List.mem_reverse] at hd
    exact bne_iff_ne.mpr fun heq => hback (heq ▸ hd)
  rw [afterLast, if_pos (by simp), List.reverse_append, List.reverse_cons, List.append_assoc,
    List.takeWhile_append_of_pos hne, List.singleton_append,
    List.takeWhile_cons_of_neg (by simp), List.append_nil, List.reverse_reverse]

/-- The fields of a process end in a character of a word. -/
theorem Process.fields_last (p : Process) :
    ∃ body c, p.fields.flatMap (' ' :: ·) = body ++ [c] ∧ isSpace c = false := by
  have henough := p.enough
  rcases p.fields.eq_nil_or_concat with hnil | ⟨init, last, hfields⟩
  · rw [hnil] at henough
    cases henough
  · obtain ⟨hne, hplain⟩ := p.words last (by simp [hfields])
    obtain ⟨word, c, rfl⟩ := (last.eq_nil_or_concat).resolve_left hne
    refine ⟨init.flatMap (' ' :: ·) ++ ' ' :: word, c, ?_, (hplain c (by simp)).2⟩
    rw [hfields]
    simp

theorem Process.no_bracket (p : Process) : ')' ∉ p.fields.flatMap (' ' :: ·) := by
  intro hmem
  obtain ⟨field, hfield, hmem⟩ := List.mem_flatMap.mp hmem
  rcases List.mem_cons.mp hmem with hblank | hmem
  · exact absurd hblank (by decide)
  · exact ((p.words field hfield).2 _ hmem).1 rfl

/-- **`process_identity` reads the start time**, whatever the command is
called. -/
theorem startTime_statText (pid : Name) (p : Process) :
    startTime (statText pid p) = some p.start := by
  obtain ⟨body, c, hbody, hc⟩ := p.fields_last
  -- the blanks at both ends
  obtain ⟨front, hfront⟩ : ∃ front, (statText pid p).dropWhile isSpace =
      front ++ ')' :: (body ++ [c]) ++ ['\n'] := by
    rw [statText, hbody, List.append_assoc, List.dropWhile_append]
    split
    · exact ⟨[], rfl⟩
    · exact ⟨_, (List.append_assoc _ _ _).symm⟩
  have hstrip : strip (statText pid p) = front ++ ')' :: (body ++ [c]) := by
    have hblanks := dropWhile_reverse (front ++ ')' :: body) hc ['\n']
      (List.forall_mem_singleton.mpr (by decide))
    rw [strip, hfront]
    simpa using hblanks
  have hbracket := p.no_bracket
  have hwords := wordsFrom_flatMap p.words []
  rw [hbody] at hbracket hwords
  rw [startTime, hstrip, afterLast_append _ _ _ hbracket]
  show (wordsFrom [] (body ++ [c]))[19]? = some p.start
  rw [hwords]
  exact List.getElem?_eq_getElem _

end Words

/-! ### The table over time -/

/-- The table at every step.  A process lives without a gap: between two steps
at which it is there it is there. -/
structure Evolution where
  table : Nat → Name → Option Process
  lives : ∀ {i j k pid p q}, i ≤ j → j ≤ k → table i pid = some p → table k pid = some q →
    p.start = q.start → ∃ m, table j pid = some m ∧ m.start = p.start

/-- The event got the answer of the table: a read or a signal fails only where
there is no process. -/
def Answers (table : Name → Option Process) (e : ProcEvent) : Prop :=
  match e with
  | ⟨.stat pid, text⟩ => text = (table pid).map (statText pid)
  | ⟨.exe pid, target⟩ => target = (table pid).bind Process.exe
  | ⟨.kill pid _, delivered⟩ => delivered = (table pid).isSome
  | _ => True

section Among

variable (ev : Evolution)

/-- The events, from step `k` on, got the answers of their steps. -/
def Among : Nat → List ProcEvent → Prop
  | _, [] => True
  | k, e :: t => Answers (ev.table k) e ∧ Among (k + 1) t

theorem among_append {k : Nat} {t t' : List ProcEvent} :
    Among ev k (t ++ t') ↔ Among ev k t ∧ Among ev (k + t.length) t' := by
  induction t generalizing k with
  | nil => simp [Among]
  | cons e t ih =>
    rw [List.cons_append, Among, Among, ih, and_assoc, List.length_cons,
      Nat.add_assoc, Nat.add_comm 1]

/-- The process is there. -/
def At (j : Nat) (id : Identity) : Prop := ∃ p, ev.table j id.pid = some p ∧ p.start = id.start

/-- The process is there and has not exited. -/
def Alive (j : Nat) (id : Identity) : Prop :=
  ∃ p, ev.table j id.pid = some p ∧ p.start = id.start ∧ p.exe ≠ none

/-- The three reads of `process_identity`, from step `j` on, gave `id`. -/
def Found (j : Nat) (id : Identity) : Prop :=
  At ev j id ∧ At ev (j + 2) id ∧
    ∃ p, ev.table (j + 1) id.pid = some p ∧ p.start = id.start ∧ p.exe = some id.exe

end Among

/-- A read: neither a signal nor a mark. -/
def IsRead (e : ProcEvent) : Prop :=
  match e.1 with
  | .listdir | .stat _ | .exe _ => True
  | _ => False

/-- The event `m` reads the link of the process `pid`. -/
def ReadsLink (t : List ProcEvent) (m : Nat) (pid : Name) : Prop :=
  ∃ target, t[m]? = some ⟨.exe pid, target⟩

/-- The events, from step `k` on, found a process that runs a DLD executable. -/
def Seen (ev : Evolution) (k : Nat) (t : List ProcEvent) (id : Identity) : Prop :=
  isDld id.exe = true ∧ ∃ m, m + 2 < t.length ∧ ReadsLink t (m + 1) id.pid ∧ Found ev (k + m) id

section Link

variable {ev : Evolution} {k m : Nat} {t t' : List ProcEvent} {pid : Name} {id : Identity}

theorem ReadsLink.left (h : ReadsLink t m pid) : ReadsLink (t ++ t') m pid := by
  obtain ⟨target, h⟩ := h
  obtain ⟨hm, -⟩ := List.getElem?_eq_some_iff.mp h
  exact ⟨target, (List.getElem?_append_left hm).trans h⟩

theorem ReadsLink.right (h : ReadsLink t' m pid) : ReadsLink (t ++ t') (t.length + m) pid := by
  obtain ⟨target, h⟩ := h
  refine ⟨target, ?_⟩
  rw [List.getElem?_append_right (Nat.le_add_right _ _), Nat.add_sub_cancel_left]
  exact h

theorem Seen.left (h : Seen ev k t id) : Seen ev k (t ++ t') id := by
  obtain ⟨hdld, m, hlt, hlink, hfound⟩ := h
  refine ⟨hdld, m, ?_, hlink.left, hfound⟩
  rw [List.length_append]
  omega

theorem Seen.right (h : Seen ev (k + t.length) t' id) : Seen ev k (t ++ t') id := by
  obtain ⟨hdld, m, hlt, hlink, hfound⟩ := h
  refine ⟨hdld, t.length + m, ?_, hlink.right, ?_⟩
  · rw [List.length_append]
    omega
  · rwa [← Nat.add_assoc]

end Link

section Reads

variable {ev : Evolution} {k : Nat} {t : List ProcEvent} {α β : Type}

theorem runs_bind {x : Handover α} {f : α → Handover β} {r : Except PyError β}
    (h : (x >>= f).run.Runs t r) :
    ∃ t₁ t₂ r₁, t = t₁ ++ t₂ ∧ x.run.Runs t₁ r₁ ∧
      (match r₁ with
        | .ok a => (f a).run.Runs t₂ r
        | .error error => t₂ = [] ∧ r = .error error) := by
  rw [ExceptT.run_bind] at h
  obtain ⟨t₁, t₂, r₁, rfl, hx, hf⟩ := Prog.runs_bind_iff.mp h
  refine ⟨t₁, t₂, r₁, rfl, hx, ?_⟩
  rcases r₁ with error | a
  · cases hf
    exact ⟨rfl, rfl⟩
  · exact hf

theorem runs_op {o : ProcOp} {f : ProcRes o → Handover β} {r : Except PyError β}
    (h : (op o >>= f).run.Runs t r) : ∃ a t', t = ⟨o, a⟩ :: t' ∧ (f a).run.Runs t' r := by
  obtain ⟨t₁, t₂, r₁, rfl, hx, hf⟩ := runs_bind h
  cases hx with
  | call a hx =>
    cases hx
    exact ⟨a, t₂, rfl, hf⟩

theorem startOf_statText (pid : Name) (p : Process) : startOf (statText pid p) = pure p.start := by
  rw [startOf, startTime_statText]

/-- What `process_identity` returns: the identity it has read, or nothing if
the process was not there all the time. -/
theorem processIdentity_runs {pid : Name} {r : Except PyError (Option Identity)}
    (h : (processIdentity pid).run.Runs t r) (hamong : Among ev k t) :
    (∀ e ∈ t, IsRead e) ∧
      ((∃ id, r = .ok (some id) ∧ id.pid = pid ∧ t.length = 3 ∧ ReadsLink t 1 pid ∧ Found ev k id) ∨
        r = .ok none ∧ ∀ id : Identity, id.pid = pid →
          ¬ (Alive ev k id ∧ Alive ev (k + 1) id ∧ Alive ev (k + 2) id)) := by
  rw [processIdentity] at h
  -- the first read of stat
  obtain ⟨stat, t₁, rfl, h₁⟩ := runs_op h
  obtain ⟨hstat, hamong⟩ := hamong
  rcases hp : ev.table k pid with - | p
  · obtain rfl : stat = none := by rw [hstat, hp]; rfl
    cases h₁
    refine ⟨by simp [IsRead], .inr ⟨rfl, ?_⟩⟩
    rintro id rfl ⟨⟨p, hthere, -⟩, -⟩
    rw [hp] at hthere
    cases hthere
  obtain rfl : stat = some (statText pid p) := by rw [hstat, hp]; rfl
  dsimp only at h₁
  rw [startOf_statText, pure_bind] at h₁
  -- the link
  obtain ⟨target, t₂, rfl, h₂⟩ := runs_op h₁
  obtain ⟨htarget, hamong⟩ := hamong
  rcases target with - | target
  · cases h₂
    refine ⟨by simp [IsRead], .inr ⟨rfl, ?_⟩⟩
    rintro id rfl ⟨-, ⟨q, hthere, -, hexe⟩, -⟩
    have htarget : none = (ev.table (k + 1) id.pid).bind Process.exe := htarget
    rw [hthere] at htarget
    exact hexe htarget.symm
  have htarget : some target = (ev.table (k + 1) pid).bind Process.exe := htarget
  obtain ⟨q, hq, hexe⟩ := Option.bind_eq_some_iff.mp htarget.symm
  dsimp only at h₂
  -- the second read of stat
  obtain ⟨stat, t₃, rfl, h₃⟩ := runs_op h₂
  obtain ⟨hstat, -⟩ := hamong
  rcases hm : ev.table (k + 2) pid with - | m
  · obtain rfl : stat = none := by
      have hstat : stat = (ev.table (k + 2) pid).map (statText pid) := hstat
      rw [hstat, hm]
      rfl
    cases h₃
    refine ⟨by simp [IsRead], .inr ⟨rfl, ?_⟩⟩
    rintro id rfl ⟨-, -, ⟨m, hthere, -⟩⟩
    rw [hm] at hthere
    cases hthere
  obtain rfl : stat = some (statText pid m) := by
    have hstat : stat = (ev.table (k + 2) pid).map (statText pid) := hstat
    rw [hstat, hm]
    rfl
  dsimp only at h₃
  rw [startOf_statText, pure_bind] at h₃
  by_cases hsame : p.start = m.start
  · rw [if_neg (not_not.mpr hsame)] at h₃
    cases h₃
    refine ⟨by simp [IsRead], .inl ⟨⟨pid, target, p.start⟩, rfl, rfl, rfl, ⟨_, rfl⟩, ?_⟩⟩
    obtain ⟨q', hq', hstart⟩ := ev.lives (Nat.le_succ k) (Nat.le_succ (k + 1)) hp hm hsame
    rw [hq] at hq'
    cases hq'
    exact ⟨⟨p, hp, rfl⟩, ⟨m, hm, hsame.symm⟩, q, hq, hstart, hexe⟩
  · rw [if_pos hsame] at h₃
    cases h₃
    refine ⟨by simp [IsRead], .inr ⟨rfl, ?_⟩⟩
    rintro id rfl ⟨⟨p', hp', hstart, -⟩, -, ⟨m', hm', hstart', -⟩⟩
    rw [hp] at hp'
    rw [hm] at hm'
    cases hp'
    cases hm'
    exact hsame (hstart.trans hstart'.symm)

theorem scanEntries_runs {entries : List Name} {r : Except PyError (List Identity)}
    (h : (scanEntries entries).run.Runs t r) (hamong : Among ev k t) :
    (∀ e ∈ t, IsRead e) ∧ ∃ found, r = .ok found ∧ (found.map Identity.pid).Sublist entries ∧
      ∀ id ∈ found, Seen ev k t id := by
  induction entries generalizing k t r with
  | nil =>
    cases h
    exact ⟨nofun, [], rfl, List.Sublist.refl _, nofun⟩
  | cons entry rest ih =>
    rw [scanEntries] at h
    split at h
    · obtain ⟨hreads, found, hr, hsub, hfound⟩ := ih h hamong
      exact ⟨hreads, found, hr, hsub.cons _, hfound⟩
    obtain ⟨t₁, t₂, r₁, rfl, hidentity, h⟩ := runs_bind h
    obtain ⟨hamong₁, hamong₂⟩ := (among_append ev).mp hamong
    obtain ⟨hreads₁, hidentity⟩ := processIdentity_runs hidentity hamong₁
    rcases hidentity with ⟨id, rfl, hpid, hlength, hlink, hid⟩ | ⟨rfl, -⟩
    · -- a process, which may be one of ours
      obtain ⟨t₂, t₃, r₂, rfl, hrest, hlast⟩ := runs_bind h
      obtain ⟨hamong₂, -⟩ := (among_append ev).mp hamong₂
      obtain ⟨hreads₂, found, rfl, hsub, hfound⟩ := ih hrest hamong₂
      cases hlast
      refine ⟨?_, _, rfl, ?_, ?_⟩
      · intro e he
        rw [List.append_nil, List.mem_append] at he
        exact he.elim (hreads₁ e) (hreads₂ e)
      · split
        · rw [List.map_cons, hpid]
          exact hsub.cons_cons _
        · exact hsub.cons _
      · have hlater : ∀ id ∈ found, Seen ev k (t₁ ++ (t₂ ++ [])) id :=
          fun other hother => (hfound other hother).left.right
        split
        · next hdld =>
          have hfirst : Seen ev k t₁ id := ⟨hdld, 0, by omega, hpid ▸ hlink, hid⟩
          exact List.forall_mem_cons.mpr ⟨hfirst.left, hlater⟩
        · exact hlater
    · obtain ⟨hreads₂, found, hr, hsub, hfound⟩ := ih h hamong₂
      refine ⟨?_, found, hr, hsub.cons _, ?_⟩
      · intro e he
        exact (List.mem_append.mp he).elim (hreads₁ e) (hreads₂ e)
      · exact fun id hid => (hfound id hid).right

/-- The scans that the events mark. -/
def scans (t : List ProcEvent) : List (List Identity) :=
  t.filterMap fun e =>
    match e.1 with
    | .scanned found => some found
    | _ => none

theorem scans_append (t t' : List ProcEvent) : scans (t ++ t') = scans t ++ scans t' :=
  List.filterMap_append

theorem scans_reads (h : ∀ e ∈ t, IsRead e) : scans t = [] := by
  rw [scans, List.filterMap_eq_nil_iff]
  rintro ⟨o, a⟩ he
  have hread := h _ he
  cases o with
  | scanned found => exact absurd hread id
  | _ => rfl

/-- A signal. -/
def IsKill (e : ProcEvent) : Prop :=
  match e.1 with
  | .kill .. => True
  | _ => False

instance : DecidablePred IsKill := fun ⟨o, _⟩ =>
  match o with
  | .kill .. => .isTrue trivial
  | .listdir | .stat _ | .exe _ | .time | .sleep | .say _ | .scanned _ => .isFalse fun h => h

theorem not_kill_of_read {e : ProcEvent} (h : IsRead e) : ¬ IsKill e := by
  obtain ⟨o, a⟩ := e
  cases o with
  | kill pid signal => exact absurd h id
  | _ => exact id

/-- What `running_dld` returns, and that it only reads. -/
structure Scan (ev : Evolution) (k : Nat) (t : List ProcEvent) (found : List Identity) : Prop where
  marked : scans t = [found]
  quiet : ∀ e ∈ t, ¬ IsKill e
  distinct : (found.map Identity.pid).Nodup
  seen : ∀ id ∈ found, Seen ev k t id

theorem runningDld_runs {r : Except PyError (List Identity)} (h : runningDld.run.Runs t r)
    (hamong : Among ev k t) : ∃ found, r = .ok found ∧ Scan ev k t found := by
  rw [runningDld] at h
  obtain ⟨entries, t₁, rfl, h₁⟩ := runs_op h
  obtain ⟨-, hamong⟩ := hamong
  obtain ⟨t₁, t₂, r₁, rfl, hscan, h₂⟩ := runs_bind h₁
  obtain ⟨hamong₁, -⟩ := (among_append ev).mp hamong
  obtain ⟨hreads, found, rfl, hsub, hfound⟩ := scanEntries_runs hscan hamong₁
  obtain ⟨mark, t₃, rfl, h₃⟩ := runs_op h₂
  cases h₃
  refine ⟨found, rfl, ?_, ?_, hsub.nodup entries.2, ?_⟩
  · show scans (t₁ ++ [⟨.scanned found, mark⟩]) = [found]
    rw [scans_append, scans_reads hreads]
    rfl
  · intro e he
    rcases List.mem_cons.mp he with rfl | he
    · exact id
    rcases List.mem_append.mp he with he | he
    · exact not_kill_of_read (hreads e he)
    · cases List.mem_singleton.mp he
      exact id
  · exact fun id hid => (hfound id hid).left.right (t := [_])

end Reads

end Dld.Trial
