/-
DldDriver/Tools/FileTree.lean

A file tree with symbolic links: what a path names, and what the calls that
create something do.

A tree is a partial map from paths to nodes in which every node lies in a
directory; the proof is part of it.  A path is looked up component by
component (`locate`); links are followed on the way, at most `maxLinks` of
them, and at the end if asked for.

    Real t path          a directory of t, named without links and dots
    Created t es t'      t' is t with the entries es, which were not there

`Created` is all that a caller needs to know of `mkdir` and of exclusive
creation.
-/
import Mathlib.Data.List.Induction
import Mathlib.Logic.Function.Basic
import Mathlib.Tactic.Common

namespace FileTree

abbrev Name := List Char

/-- The components of a path, from the root. -/
abbrev Path := List Name

inductive Node
  | file (bytes : List UInt8) (mode : Nat)
  | directory
  /-- A symbolic link with the path it holds. -/
  | link (absolute : Bool) (target : Path)
  /-- A device, a socket or a pipe. -/
  | special
  deriving DecidableEq

/-- Every node lies in a directory; the root is one. -/
structure Tree where
  node : Path → Option Node
  closed : ∀ p name, node (p ++ [name]) ≠ none → p = [] ∨ node p = some .directory

@[ext] theorem Tree.ext {t t' : Tree} (h : t.node = t'.node) : t = t' := by
  cases t
  cases t'
  cases h
  rfl

inductive Errno
  | exist
  | noEntry
  deriving DecidableEq

/-! ### Paths -/

/-- No component with a meaning of its own. -/
def Plain (name : Name) : Prop := name ≠ [] ∧ name ≠ ['.'] ∧ name ≠ ['.', '.']

instance (name : Name) : Decidable (Plain name) := inferInstanceAs (Decidable (_ ∧ _))

abbrev maxLinks : Nat := 40

/-- Where the path leads from the directory `base`; a link at its end is
followed if `follow` says so. -/
def locate (t : Tree) (follow : Bool) (links : Nat) (base : Path) : Path → Option Path
  | [] => some base
  | name :: rest =>
    if name = [] ∨ name = ['.'] then locate t follow links base rest
    else if name = ['.', '.'] then locate t follow links base.dropLast rest
    else
      match t.node (base ++ [name]) with
      | some (.link absolute target) =>
        if rest = [] ∧ follow = false then some (base ++ [name])
        else
          match links with
          | 0 => none
          | links + 1 => locate t follow links (if absolute then [] else base) (target ++ rest)
      | some .directory => locate t follow links (base ++ [name]) rest
      | _ => if rest = [] then some (base ++ [name]) else none
termination_by path => (links, path.length)

/-- `os.path.lexists` -/
def lexists (t : Tree) (path : Path) : Bool :=
  match locate t false maxLinks [] path with
  | none => false
  | some p => p.isEmpty || (t.node p).isSome

/-! ### Creation -/

/-- The tree with a new node. -/
def Tree.create (t : Tree) (p : Path) (n : Node) : Except Errno Tree :=
  if hnone : t.node p = none then
    if hparent : p ≠ [] ∧ (p.dropLast = [] ∨ t.node p.dropLast = some .directory) then
      .ok {
        node := Function.update t.node p (some n)
        closed := by
          intro q name h
          by_cases hq : q ++ [name] = p
          · have hparent := hparent.2
            rw [← hq, List.dropLast_concat] at hparent
            rw [Function.update_of_ne (fun heq => by simp [← hq] at heq)]
            exact hparent
          · rw [Function.update_of_ne hq] at h
            rcases t.closed q name h with hroot | hdir
            · exact .inl hroot
            · refine .inr ?_
              rw [Function.update_of_ne (fun heq => by simp [heq, hnone] at hdir)]
              exact hdir }
    else .error .noEntry
  else .error .exist

/-- `mkdir` -/
def mkdir (path : Path) (t : Tree) : Except Errno Tree :=
  match locate t false maxLinks [] path with
  | none => .error .noEntry
  | some p => t.create p .directory

/-- `open` with `O_CREAT | O_EXCL`: the file, and the tree with it.  The file
gets the mode it is opened with: no bit of it is in the umask. -/
def openNew (path : Path) (mode : Nat) (t : Tree) : Except Errno (Path × Tree) :=
  match locate t false maxLinks [] path with
  | none => .error .noEntry
  | some p => (t.create p (.file [] mode)).map fun t => (p, t)

/-- The tree with the file at `p` changed; any other node stays. -/
def Tree.alter (t : Tree) (p : Path) (f : List UInt8 → Nat → List UInt8 × Nat) : Tree where
  node q :=
    match t.node q with
    | some (.file bytes mode) =>
      if q = p then some (.file (f bytes mode).1 (f bytes mode).2) else some (.file bytes mode)
    | other => other
  closed := by
    intro q name h
    have hsome : t.node (q ++ [name]) ≠ none := by
      intro hnone
      simp [hnone] at h
    rcases t.closed q name hsome with hroot | hdir
    · exact .inl hroot
    · exact .inr (by simp [hdir])

/-- Writing through the descriptor of the file `p`. -/
def write (p : Path) (bytes : List UInt8) (t : Tree) : Tree := t.alter p fun _ mode => (bytes, mode)

/-- `chmod` -/
def chmod (path : Path) (mode : Nat) (t : Tree) : Except Errno Tree :=
  match locate t true maxLinks [] path with
  | none => .error .noEntry
  | some p => .ok (t.alter p fun bytes _ => (bytes, mode))

/-! ### Directories without links -/

section Lookup

variable {t t' : Tree} {path p q : Path} {name : Name} {n : Node}

/-- What lies above a node is a directory. -/
theorem Tree.above (t : Tree) {p q : Path} (h : t.node (p ++ q) ≠ none) (hq : q ≠ []) :
    p = [] ∨ t.node p = some .directory := by
  induction q using List.reverseRecOn with
  | nil => exact absurd rfl hq
  | append_singleton q name ih =>
    rw [← List.append_assoc] at h
    rcases q with - | ⟨first, q⟩
    · rw [List.append_nil] at h
      exact t.closed p name h
    · rcases t.closed _ name h with hroot | hdir
      · simp at hroot
      · exact ih (by simp [hdir]) (List.cons_ne_nil _ _)

/-- The path names a directory, without links and dots. -/
def Real (t : Tree) (path : Path) : Prop :=
  (∀ name ∈ path, Plain name) ∧ (path = [] ∨ t.node path = some .directory)

/-- A lookup goes down a real directory. -/
theorem locate_down (t : Tree) (follow : Bool) (links : Nat) (path rest : Path) (base : Path)
    (hplain : ∀ name ∈ path, Plain name)
    (hdir : path = [] ∨ t.node (base ++ path) = some .directory) :
    locate t follow links base (path ++ rest) = locate t follow links (base ++ path) rest := by
  induction path generalizing base with
  | nil => simp
  | cons name path ih =>
    obtain ⟨hempty, hdot, hdots⟩ := hplain name List.mem_cons_self
    have hdir := hdir.resolve_left (List.cons_ne_nil _ _)
    have hfirst : t.node (base ++ [name]) = some .directory := by
      rcases path with - | ⟨second, path⟩
      · exact hdir
      · have habove := t.above (p := base ++ [name]) (q := second :: path)
          (by rw [List.append_assoc]; simpa using hdir ▸ nofun) (List.cons_ne_nil _ _)
        exact habove.resolve_left (by simp)
    rw [List.cons_append, locate, if_neg (by simp [hempty, hdot]), if_neg hdots, hfirst]
    dsimp only
    rw [ih (base ++ [name]) (fun other h => hplain other (List.mem_cons_of_mem _ h)) ?_]
    · rw [List.append_assoc, List.singleton_append]
    · rw [List.append_assoc, List.singleton_append]
      exact .inr hdir

theorem Real.locate (h : Real t path) (follow : Bool) (links : Nat) (rest : Path) :
    locate t follow links [] (path ++ rest) = FileTree.locate t follow links path rest :=
  locate_down t follow links path rest [] h.1 h.2

/-- The last component: what is there, if it is no link to be followed. -/
theorem locate_last {follow : Bool} {links : Nat} (hname : Plain name)
    (hlink : follow = false ∨ ∀ absolute target,
      t.node (path ++ [name]) ≠ some (.link absolute target)) :
    locate t follow links path [name] = some (path ++ [name]) := by
  obtain ⟨hempty, hdot, hdots⟩ := hname
  rw [locate, if_neg (by simp [hempty, hdot]), if_neg hdots]
  split
  · next absolute target hnode =>
    rcases hlink with hfollow | hlink
    · rw [if_pos ⟨rfl, hfollow⟩]
    · exact absurd hnode (hlink absolute target)
  · rw [locate]
  · exact if_pos rfl

theorem Real.lexists_iff (h : Real t path) (hname : Plain name) :
    lexists t (path ++ [name]) = true ↔ t.node (path ++ [name]) ≠ none := by
  rw [lexists, h.locate, locate_last hname (.inl rfl)]
  simp [Option.isSome_iff_ne_none]

/-! ### What is created -/

theorem Real.create (h : Real t path) (hnone : t.node (path ++ [name]) = none) (n : Node) :
    ∃ t', t.create (path ++ [name]) n = .ok t' ∧
      t'.node = Function.update t.node (path ++ [name]) (some n) := by
  have hparent : path ++ [name] ≠ [] ∧
      ((path ++ [name]).dropLast = [] ∨ t.node (path ++ [name]).dropLast = some .directory) := by
    rw [List.dropLast_concat]
    exact ⟨by simp, h.2⟩
  rw [Tree.create, dif_pos hnone, dif_pos hparent]
  exact ⟨_, rfl, rfl⟩

/-- The tree with the entries, none of which was there before. -/
inductive Created : Tree → List (Path × Node) → Tree → Prop
  | nil (t : Tree) : Created t [] t
  | cons {t t₁ t' : Tree} {p n es} : t.node p = none → t₁.node = Function.update t.node p (some n) →
      Created t₁ es t' → Created t ((p, n) :: es) t'

namespace Created

variable {es es' : List (Path × Node)} {t'' : Tree}

theorem single (hnone : t.node p = none) (hnode : t'.node = Function.update t.node p (some n)) :
    Created t [(p, n)] t' := .cons hnone hnode (.nil t')

theorem append (h : Created t es t') (h' : Created t' es' t'') : Created t (es ++ es') t'' := by
  induction h with
  | nil => exact h'
  | cons hnone hnode _ ih => exact .cons hnone hnode (ih h')

/-- What was there stays. -/
theorem keeps (h : Created t es t') (hp : t.node p ≠ none) : t'.node p = t.node p := by
  induction h with
  | nil => rfl
  | @cons t t₁ t' q n es hnone hnode _ ih =>
    have hne : p ≠ q := by
      rintro rfl
      exact hp hnone
    have hsame : t₁.node p = t.node p := by
      rw [hnode, Function.update_of_ne hne]
    rw [ih (hsame ▸ hp), hsame]

/-- Nothing else changes. -/
theorem elsewhere (h : Created t es t') (hp : ∀ e ∈ es, e.1 ≠ p) : t'.node p = t.node p := by
  induction h with
  | nil => rfl
  | @cons t t₁ t' q n es hnone hnode _ ih =>
    obtain ⟨hne, hrest⟩ := List.forall_mem_cons.mp hp
    rw [ih hrest, hnode, Function.update_of_ne (Ne.symm hne)]

/-- Each entry is new, and there afterwards. -/
theorem entry (h : Created t es t') {e : Path × Node} (he : e ∈ es) :
    t.node e.1 = none ∧ t'.node e.1 = some e.2 := by
  induction h with
  | nil => cases he
  | @cons t t₁ t' q n es hnone hnode hrest ih =>
    have hthere : t₁.node q = some n := by
      rw [hnode, Function.update_self]
    rcases List.mem_cons.mp he with rfl | he
    · exact ⟨hnone, by rw [hrest.keeps (by simp [hthere]), hthere]⟩
    · obtain ⟨hbefore, hafter⟩ := ih he
      have hne : e.1 ≠ q := by
        intro heq
        rw [heq, hthere] at hbefore
        cases hbefore
      rw [hnode, Function.update_of_ne hne] at hbefore
      exact ⟨hbefore, hafter⟩

theorem real (h : Created t es t') (hreal : Real t path) : Real t' path := by
  refine ⟨hreal.1, hreal.2.imp_right fun hdir => ?_⟩
  rw [h.keeps (by simp [hdir]), hdir]

end Created

theorem Real.mkdir (h : Real t path) (hname : Plain name) (hnone : t.node (path ++ [name]) = none) :
    ∃ t', mkdir (path ++ [name]) t = .ok t' ∧ Created t [(path ++ [name], .directory)] t' := by
  obtain ⟨t', hcreate, hnode⟩ := h.create hnone .directory
  refine ⟨t', ?_, .single hnone hnode⟩
  rw [FileTree.mkdir, h.locate, locate_last hname (.inl rfl)]
  exact hcreate

/-- A new directory is real. -/
theorem Real.child (h : Real t path) (hname : Plain name)
    (hdir : t.node (path ++ [name]) = some .directory) : Real t (path ++ [name]) := by
  refine ⟨fun other hmem => ?_, .inr hdir⟩
  rcases List.mem_append.mp hmem with hmem | hmem
  · exact h.1 other hmem
  · cases List.mem_singleton.mp hmem
    exact hname

theorem Tree.alter_node {bytes : List UInt8} {mode : Nat}
    (hfile : t.node p = some (.file bytes mode)) (f : List UInt8 → Nat → List UInt8 × Nat) :
    (t.alter p f).node =
      Function.update t.node p (some (.file (f bytes mode).1 (f bytes mode).2)) := by
  funext q
  by_cases hq : q = p
  · subst hq
    simp [Tree.alter, hfile]
  · rw [Function.update_of_ne hq]
    rcases hnode : t.node q with - | ⟨bytes', mode'⟩ | - | ⟨absolute, target⟩ | -
    all_goals simp [Tree.alter, hnode, hq]

/-- Exclusive creation, writing, and a change of the mode: one new file. -/
theorem Real.newFile (h : Real t path) (hname : Plain name)
    (hnone : t.node (path ++ [name]) = none) (mode : Nat) :
    ∃ t', openNew (path ++ [name]) mode t = .ok (path ++ [name], t') ∧ ∀ bytes,
      Created t [(path ++ [name], .file bytes mode)] (write (path ++ [name]) bytes t') ∧
      ∀ mode', ∃ t'', chmod (path ++ [name]) mode' (write (path ++ [name]) bytes t') = .ok t'' ∧
        Created t [(path ++ [name], .file bytes mode')] t'' := by
  obtain ⟨t', hcreate, hnode⟩ := h.create hnone (.file [] mode)
  refine ⟨t', ?_, fun bytes => ?_⟩
  · rw [openNew, h.locate, locate_last hname (.inl rfl)]
    show (t.create _ _).map _ = _
    rw [hcreate]
    rfl
  have hfile : t'.node (path ++ [name]) = some (.file [] mode) := by
    rw [hnode, Function.update_self]
  have hwritten : (write (path ++ [name]) bytes t').node =
      Function.update t.node (path ++ [name]) (some (.file bytes mode)) := by
    rw [write, Tree.alter_node hfile, hnode, Function.update_idem]
  have hcreated : Created t [(path ++ [name], .file bytes mode)] (write (path ++ [name]) bytes t') :=
    .single hnone hwritten
  refine ⟨hcreated, fun mode' => ?_⟩
  have hfile' : (write (path ++ [name]) bytes t').node (path ++ [name]) =
      some (.file bytes mode) := by
    rw [hwritten, Function.update_self]
  rw [chmod, (hcreated.real h).locate,
    locate_last hname (.inr fun _ _ hlink => by rw [hfile'] at hlink; cases hlink)]
  refine ⟨_, rfl, .single hnone ?_⟩
  rw [Tree.alter_node hfile', hwritten, Function.update_idem]

end Lookup

end FileTree
