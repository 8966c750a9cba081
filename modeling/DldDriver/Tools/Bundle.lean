/-
DldDriver/Tools/Bundle.lean

`extract_bundle` of `tools/trial-remote.py`: all of the bundle or nothing.

The archive is what iterating over it gives, members or an exception; the
manifest is what `json.loads` makes of its bytes, and the digest is any
function of them.  Sets are iterated in an order of the interpreter's choice
(`Orders`).  The target directory is a real one, as `check_ram` has it.

    verifyBundle …    every check that reads the archive only
    Host α            a step on the file tree: its result, and the tree after

All checks come before the first creation, so that an exception finds the tree
as it was; and behind the checks no creation can fail.
-/
import DldDriver.Tools.Python
import Mathlib.Data.List.Dedup
import Mathlib.Algebra.Ring.Int.Defs

namespace Dld.Trial

open FileTree (Name Path Node Tree)

/-! ### The package -/

/-- The values are the names, as sets. -/
def sameNames (values : List Value) (names : List Name) : Bool :=
  (values.all fun v => names.any v.eqStr) && names.all fun name => values.any (·.eqStr name)

def lockPath : Name := "/run/dld.lock".toList

/-- `FILES` -/
def files : List Name :=
  ["build/dld-init".toList, "build/dld-send".toList, "build/dld-udp".toList,
    "build/dld-config-check".toList, "build/build-report.txt".toList,
    "kernel/dld_quiet.ko".toList, "tools/bench_prepare.py".toList, "tools/trial-remote.py".toList]

def manifestName : Name := "manifest.json".toList

def helperName : Name := "tools/trial-remote.py".toList

abbrev maxBundleBytes : Int := 8 * 1024 * 1024

def expected : List Name := files ++ [manifestName]

/-- `os.path.dirname` of a relative path. -/
def dirname (name : Name) : Name :=
  ((name.reverse.dropWhile (· != '/')).dropWhile (· == '/')).reverse

def parents : List Name := ((expected.map dirname).dedup).filter fun name => !name.isEmpty

/-- The components between the slashes. -/
def components : Name → Path
  | [] => [[]]
  | c :: rest =>
    match c == '/', components rest with
    | true, path => [] :: path
    | false, [] => [[c]]
    | false, first :: path => (c :: first) :: path

/-- `os.path.join(directory, name)` -/
def join (directory : Path) (name : Name) : Path := directory ++ components name

/-- The orders in which the sets are iterated. -/
structure Orders where
  checked : List Name
  made : List Name
  written : List Name
  checked_perm : checked.Perm (expected ++ parents)
  made_perm : made.Perm parents
  written_perm : written.Perm expected

/-! ### The archive -/

/-- `tarfile.TarInfo`, and what its file object holds. -/
structure Member where
  name : Name
  isFile : Bool
  size : Int
  content : Except PyError (List UInt8)

/-- `source.extractfile(member).read(n)` -/
def Member.read (member : Member) (n : Int) : Except PyError (List UInt8) :=
  member.content.map (·.take n.toNat)

/-- What iterating over the archive gives, if it can be opened. -/
abbrev Archive := Except PyError (List (Except PyError Member))

/-- The dictionary of the contents. -/
abbrev Contents := List (Name × List UInt8)

/-- `contents[name]` -/
def contentOf (contents : Contents) (name : Name) : Except PyError (List UInt8) :=
  match contents.lookup name with
  | some data => .ok data
  | none => .error .keyError

def trialError {α : Type} (message : String) (name : Name) : Except PyError α :=
  .error (.trial (message ++ String.ofList name))

/-- The loop over the archive, with `contents` and `total` so far. -/
def readMembers (contents : Contents) (total : Int) :
    List (Except PyError Member) → Except PyError Contents
  | [] => pure contents
  | step :: rest => do
    let member ← step
    if member.name ∉ expected ∨ member.name ∈ contents.map Prod.fst ∨ member.isFile = false ∨
        member.size < 0 then
      trialError "unexpected archive member: " member.name
    else
    let total := total + member.size
    if total > maxBundleBytes then trialError "bundle exceeds 8 MiB unpacked limit" [] else do
    let data ← member.read (member.size + 1)
    if (data.length : Int) ≠ member.size then
      trialError "incomplete archive member: " member.name
    else readMembers (contents ++ [(member.name, data)]) total rest

/-- The schema, the lock and the list of files. -/
def checkManifest (manifest : Value) : Except PyError Unit := do
  let invalid := trialError "invalid bundle manifest or non-RAM command lock" []
  let schema ← manifest.get "schema".toList .none
  if schema.eqInt 1 = false then invalid else do
  let lock ← manifest.get "lock_path".toList .none
  if lock.eqStr lockPath = false then invalid else do
  let entries ← manifest.get "files".toList (.dict [])
  let names ← entries.elements
  if sameNames names files = false then invalid else pure ()

section Code

-- `hexdigest` of SHA-256, and `json.loads` of the decoded bytes
variable (sha256 : List UInt8 → Name) (loads : List UInt8 → Except PyError Value)

/-- The loop over the digests. -/
def checkHashes (contents : Contents) (manifest : Value) : List Name → Except PyError Unit
  | [] => pure ()
  | name :: rest => do
    let data ← contentOf contents name
    let entries ← manifest.index "files".toList
    let digest ← entries.index name
    if digest.eqStr (sha256 data) = false then trialError "bundle checksum mismatch: " name
    else checkHashes contents manifest rest

/-- The part of `extract_bundle` that touches no file but the launcher. -/
def verifyBundle (archive : Archive) (bootstrap : Except PyError (List UInt8)) :
    Except PyError (Contents × Value) := do
  let members ← archive
  let contents ← readMembers [] 0 members
  if ¬ ((∀ name ∈ contents.map Prod.fst, name ∈ expected) ∧
      ∀ name ∈ expected, name ∈ contents.map Prod.fst) then
    trialError "bundle file list does not match this launcher version" []
  else do
  let text ← contentOf contents manifestName
  let manifest ← loads text
  checkManifest manifest
  checkHashes sha256 contents manifest files
  let running ← bootstrap
  let bundled ← contentOf contents helperName
  if running ≠ bundled then
    trialError "bundle and launcher helper differ; rebuild the bundle" []
  else pure (contents, manifest)

/-! ### The file tree -/

abbrev Host := ExceptT PyError (StateM Tree)

/-- A call that creates or changes something. -/
def call {α : Type} (f : Tree → Except FileTree.Errno (α × Tree)) : Host α := fun t =>
  match f t with
  | .ok (a, t') => (.ok a, t')
  | .error errno => (.error (.os errno), t)

/-- `os.makedirs`; the parents of the path are there. -/
def makedirs (path : Path) : Host Unit := call fun t => (FileTree.mkdir path t).map fun t => ((), t)

/-- The loop over the paths that must not be there. -/
def checkAbsent (directory : Path) : List Name → Host Unit
  | [] => pure ()
  | name :: rest => do
    let t ← get
    if FileTree.lexists t (join directory name) then
      trialError "refusing to replace an existing runtime path: " name
    else checkAbsent directory rest

def makeParents (directory : Path) : List Name → Host Unit
  | [] => pure ()
  | name :: rest => do
    makedirs (join directory name)
    makeParents directory rest

/-- `name.startswith("build/dld-")` -/
def isTool (name : Name) : Bool := "build/dld-".toList.isPrefixOf name

/-- One file of the bundle. -/
def writeMember (directory : Path) (contents : Contents) (name : Name) : Host Unit := do
  let target := join directory name
  let descriptor ← call (FileTree.openNew target 0o600)
  let data ← contentOf contents name
  call fun t => .ok ((), FileTree.write descriptor data t)
  if isTool name then call fun t => (FileTree.chmod target 0o700 t).map fun t => ((), t)

def writeFiles (directory : Path) (contents : Contents) : List Name → Host Unit
  | [] => pure ()
  | name :: rest => do
    writeMember directory contents name
    writeFiles directory contents rest

def extractBundle (orders : Orders) (archive : Archive) (bootstrap : Except PyError (List UInt8))
    (directory : Path) : Host Value := do
  let (contents, manifest) ← verifyBundle sha256 loads archive bootstrap
  checkAbsent directory orders.checked
  makeParents directory orders.made
  writeFiles directory contents orders.written
  pure manifest

end Code

/-! ### What the checks have seen -/

/-- The members with the bytes that were read from them. -/
abbrev Members := List (Member × List UInt8)

/-- What the dictionary holds of the members. -/
def contentsOf (members : Members) : Contents := members.map fun m => (m.1.name, m.2)

theorem contentsOf_keys (members : Members) :
    (contentsOf members).map Prod.fst = members.map fun m => m.1.name := by
  rw [contentsOf, List.map_map]
  rfl

section Verified

variable {sha256 : List UInt8 → Name} {loads : List UInt8 → Except PyError Value}
  {contents out : Contents} {total : Int}

theorem trialError_ne {α : Type} {message : String} {name : Name} {a : α} :
    trialError message name ≠ .ok a := nofun

/-- A regular member that has been read to its end. -/
def Whole (m : Member × List UInt8) : Prop :=
  m.1.isFile = true ∧ m.1.content = .ok m.2 ∧ (m.2.length : Int) = m.1.size

/-- Reading one byte more than the size says finds the size right. -/
theorem whole_of_read {m : Member} {data : List UInt8} (hfile : m.isFile = true)
    (hsize : 0 ≤ m.size) (hread : m.read (m.size + 1) = .ok data)
    (hlength : (data.length : Int) = m.size) : Whole (m, data) := by
  rw [Member.read] at hread
  rcases hcontent : m.content with error | all
  · rw [hcontent] at hread
    cases hread
  rw [hcontent] at hread
  cases hread
  rw [List.length_take] at hlength
  have hshort : all.length ≤ (m.size + 1).toNat := by omega
  refine ⟨hfile, ?_, ?_⟩
  · show m.content = .ok (all.take _)
    rw [hcontent, List.take_of_length_le hshort]
  · show ((all.take _).length : Int) = _
    rw [List.length_take]
    exact hlength

theorem readMembers_ok {steps : List (Except PyError Member)}
    (hnodup : (contents.map Prod.fst).Nodup) (htotal : total ≤ maxBundleBytes)
    (h : readMembers contents total steps = .ok out) :
    ∃ members : Members, steps = members.map (fun m => .ok m.1) ∧
      out = contents ++ contentsOf members ∧ (out.map Prod.fst).Nodup ∧ (∀ m ∈ members, Whole m) ∧
      total + (members.map fun m => m.1.size).sum ≤ maxBundleBytes := by
  induction steps generalizing contents total with
  | nil =>
    cases h
    exact ⟨[], rfl, by simp [contentsOf], hnodup, nofun, by simpa using htotal⟩
  | cons step rest ih =>
    obtain ⟨member, hstep, h⟩ := bind_ok h
    dsimp only at h
    split_ifs at h with hmember hbound
    · exact absurd h trialError_ne
    · exact absurd h trialError_ne
    obtain ⟨data, hread, h⟩ := bind_ok h
    split_ifs at h with hlength
    · exact absurd h trialError_ne
    simp only [not_or, Bool.not_eq_false, Int.not_lt] at hmember
    obtain ⟨-, hnew, hfile, hsize⟩ := hmember
    have hwhole := whole_of_read hfile hsize hread (not_not.mp hlength)
    have hnodup' : ((contents ++ [(member.name, data)]).map Prod.fst).Nodup := by
      rw [List.map_append]
      exact List.nodup_append.mpr ⟨hnodup, List.nodup_singleton _, by
        intro a ha b hb
        cases List.mem_singleton.mp hb
        rintro rfl
        exact hnew ha⟩
    obtain ⟨members, hsteps, hout, hall, hwholes, hsum⟩ := ih hnodup' (Int.not_lt.mp hbound) h
    refine ⟨(member, data) :: members, ?_, ?_, hall, ?_, ?_⟩
    · rw [hstep, hsteps]
      rfl
    · rw [hout, List.append_assoc]
      rfl
    · exact List.forall_mem_cons.mpr ⟨hwhole, hwholes⟩
    · rw [List.map_cons, List.sum_cons]
      show total + (member.size + _) ≤ _
      omega

/-- What the dictionary gives was read from a member. -/
theorem contentOf_mem {members : Members} {name : Name} {data : List UInt8}
    (h : contentOf (contentsOf members) name = .ok data) :
    ∃ m ∈ members, m.1.name = name ∧ m.2 = data := by
  rw [contentOf] at h
  split at h
  · next heq =>
    cases h
    obtain ⟨before, after, hsplit, -⟩ := List.lookup_eq_some_iff.mp heq
    have hmem : (name, data) ∈ contentsOf members := by
      rw [hsplit]
      simp
    obtain ⟨m, hm, hpair⟩ := List.mem_map.mp hmem
    exact ⟨m, hm, congrArg Prod.fst hpair, congrArg Prod.snd hpair⟩
  · cases h

/-- Each member is there under its name. -/
theorem contentOf_member {members : Members} (hnodup : (members.map fun m => m.1.name).Nodup)
    {m : Member × List UInt8} (hm : m ∈ members) :
    contentOf (contentsOf members) m.1.name = .ok m.2 := by
  have hlookup : (contentsOf members).lookup m.1.name = some m.2 := by
    induction members with
    | nil => cases hm
    | cons first rest ih =>
      obtain ⟨hnew, hnodup⟩ := List.nodup_cons.mp hnodup
      show ((first.1.name, first.2) :: contentsOf rest).lookup m.1.name = _
      rcases List.mem_cons.mp hm with rfl | hm
      · exact List.lookup_cons_self
      · have hne : m.1.name ≠ first.1.name := by
          intro heq
          exact hnew (List.mem_map.mpr ⟨m, hm, heq⟩)
        rw [List.lookup_cons, beq_false_of_ne hne]
        exact ih hnodup hm
  rw [contentOf, hlookup]

theorem checkManifest_ok {manifest : Value} (h : checkManifest manifest = .ok ()) :
    (∃ schema, manifest.get "schema".toList .none = .ok schema ∧ schema.eqInt 1 = true) ∧
    (∃ lock, manifest.get "lock_path".toList .none = .ok lock ∧ lock.eqStr lockPath = true) ∧
    ∃ entries names, manifest.get "files".toList (.dict []) = .ok entries ∧
      entries.elements = .ok names ∧ sameNames names files = true := by
  obtain ⟨schema, hschema, h⟩ := bind_ok h
  split_ifs at h with hone
  · exact absurd h trialError_ne
  obtain ⟨lock, hlock, h⟩ := bind_ok h
  split_ifs at h with hpath
  · exact absurd h trialError_ne
  obtain ⟨entries, hentries, h⟩ := bind_ok h
  obtain ⟨names, hnames, h⟩ := bind_ok h
  split_ifs at h with hsame
  · exact absurd h trialError_ne
  exact ⟨⟨schema, hschema, (Bool.not_eq_false _).mp hone⟩,
    ⟨lock, hlock, (Bool.not_eq_false _).mp hpath⟩,
    entries, names, hentries, hnames, (Bool.not_eq_false _).mp hsame⟩

/-- The manifest's digest of the file is that of the data. -/
def Hashes (sha256 : List UInt8 → Name) (manifest : Value) (name : Name) (data : List UInt8) :
    Prop :=
  ∃ entries digest, manifest.index "files".toList = .ok entries ∧ entries.index name = .ok digest ∧
    digest.eqStr (sha256 data) = true

theorem checkHashes_ok {manifest : Value} {names : List Name}
    (h : checkHashes sha256 contents manifest names = .ok ()) :
    ∀ name ∈ names, ∃ data, contentOf contents name = .ok data ∧
      Hashes sha256 manifest name data := by
  induction names with
  | nil => nofun
  | cons name rest ih =>
    obtain ⟨data, hdata, h⟩ := bind_ok h
    obtain ⟨entries, hentries, h⟩ := bind_ok h
    obtain ⟨digest, hdigest, h⟩ := bind_ok h
    split_ifs at h with heq
    · exact absurd h trialError_ne
    refine List.forall_mem_cons.mpr ⟨⟨data, hdata, entries, digest, hentries, hdigest, ?_⟩, ih h⟩
    exact (Bool.not_eq_false _).mp heq

end Verified

/-- What `verifyBundle` has found. -/
structure Verified (sha256 : List UInt8 → Name) (loads : List UInt8 → Except PyError Value)
    (archive : Archive) (bootstrap : Except PyError (List UInt8)) (members : Members)
    (manifest : Value) : Prop where
  /-- The archive is these members and nothing else. -/
  iterated : archive = .ok (members.map fun m => .ok m.1)
  /-- Each expected name once. -/
  names : (members.map fun m => m.1.name).Perm expected
  whole : ∀ m ∈ members, Whole m
  total : (members.map fun m => m.1.size).sum ≤ maxBundleBytes
  decoded : ∃ m ∈ members, m.1.name = manifestName ∧ loads m.2 = .ok manifest
  schema : ∃ schema, manifest.get "schema".toList .none = .ok schema ∧ schema.eqInt 1 = true
  lock : ∃ lock, manifest.get "lock_path".toList .none = .ok lock ∧ lock.eqStr lockPath = true
  hashes : ∀ m ∈ members, m.1.name ∈ files → Hashes sha256 manifest m.1.name m.2
  helper : ∃ m ∈ members, m.1.name = helperName ∧ bootstrap = .ok m.2

theorem expected_nodup : expected.Nodup := by decide

section Verify

variable {sha256 : List UInt8 → Name} {loads : List UInt8 → Except PyError Value}
  {archive : Archive} {bootstrap : Except PyError (List UInt8)}

theorem verifyBundle_ok {contents : Contents} {manifest : Value}
    (h : verifyBundle sha256 loads archive bootstrap = .ok (contents, manifest)) :
    ∃ members, contents = contentsOf members ∧
      Verified sha256 loads archive bootstrap members manifest := by
  obtain ⟨steps, harchive, h⟩ := bind_ok h
  obtain ⟨contents, hread, h⟩ := bind_ok h
  have hempty : (([] : Contents).map Prod.fst).Nodup := List.nodup_nil
  obtain ⟨members, rfl, rfl, hnodup, hwhole, htotal⟩ := readMembers_ok hempty (by decide) hread
  rw [List.nil_append] at hnodup h
  rw [contentsOf_keys] at hnodup h
  split at h
  · exact absurd h trialError_ne
  next hset =>
  obtain ⟨text, htext, h⟩ := bind_ok h
  obtain ⟨manifest, hloads, h⟩ := bind_ok h
  obtain ⟨⟨⟩, hmanifest, h⟩ := bind_ok h
  obtain ⟨⟨⟩, hhashes, h⟩ := bind_ok h
  obtain ⟨running, hrunning, h⟩ := bind_ok h
  obtain ⟨bundled, hbundled, h⟩ := bind_ok h
  split_ifs at h with hsame
  · exact absurd h trialError_ne
  cases h
  have hperm : (members.map fun m => m.1.name).Perm expected := by
    rw [List.perm_ext_iff_of_nodup hnodup expected_nodup]
    have hset := not_not.mp hset
    exact fun name => ⟨hset.1 name, hset.2 name⟩
  obtain ⟨hschema, hlock, -⟩ := checkManifest_ok hmanifest
  obtain ⟨m, hm, hname, rfl⟩ := contentOf_mem htext
  obtain ⟨b, hb, hbname, rfl⟩ := contentOf_mem hbundled
  refine ⟨members, rfl, {
    iterated := harchive
    names := hperm
    whole := hwhole
    total := by rwa [Int.zero_add] at htotal
    decoded := ⟨m, hm, hname, hloads⟩
    schema := hschema
    lock := hlock
    hashes := ?_
    helper := ⟨b, hb, hbname, by rw [hrunning, not_not.mp hsame]⟩ }⟩
  intro k hk hfile
  obtain ⟨data, hdata, hhash⟩ := checkHashes_ok hhashes _ hfile
  rw [contentOf_member hnodup hk] at hdata
  cases hdata
  exact hhash

end Verify

/-! ### Behind the checks -/

section Creation

variable {directory : Path} {t t' : Tree}

section Run

variable {α β : Type} {x : Host α} {f : α → Host β}

theorem run_bind_ok {a : α} (h : x.run.run t = (.ok a, t')) :
    (x >>= f).run.run t = (f a).run.run t' := by
  rw [ExceptT.run_bind, StateT.run_bind, h]
  rfl

theorem run_bind_error {error : PyError} (h : x.run.run t = (.error error, t')) :
    (x >>= f).run.run t = (.error error, t') := by
  rw [ExceptT.run_bind, StateT.run_bind, h]
  rfl

theorem run_call {g : Tree → Except FileTree.Errno (α × Tree)} {a : α} (h : g t = .ok (a, t')) :
    (call g).run.run t = (.ok a, t') := by
  show call g t = _
  rw [call, h]

end Run

theorem checkAbsent_run (directory : Path) (names : List Name) (t : Tree) :
    (∃ error, (checkAbsent directory names).run.run t = (.error error, t)) ∨
      (checkAbsent directory names).run.run t = (.ok (), t) ∧
        ∀ name ∈ names, FileTree.lexists t (join directory name) = false := by
  induction names with
  | nil => exact .inr ⟨rfl, nofun⟩
  | cons name rest ih =>
    have hrun : (checkAbsent directory (name :: rest)).run.run t =
        if FileTree.lexists t (join directory name) then
          (.error (.trial ("refusing to replace an existing runtime path: " ++
            String.ofList name)), t)
        else (checkAbsent directory rest).run.run t := by
      show (if FileTree.lexists t (join directory name) then _ else _ : Host Unit) t = _
      split <;> rfl
    rw [hrun]
    by_cases hthere : FileTree.lexists t (join directory name)
    · rw [if_pos hthere]
      exact .inl ⟨_, rfl⟩
    · rw [if_neg hthere]
      rcases ih with hraised | ⟨hdone, hrest⟩
      · exact .inl hraised
      · exact .inr ⟨hdone, List.forall_mem_cons.mpr ⟨(Bool.not_eq_true _).mp hthere, hrest⟩⟩

theorem components_parents : ∀ name ∈ parents, components name = [name] ∧ FileTree.Plain name := by
  decide

/-- Where a file of the package lies: in the directory, or in one of the
parents. -/
theorem components_expected : ∀ name ∈ expected,
    (components name = [name] ∧ FileTree.Plain name) ∨
      (components name = [dirname name, (components name).getLastD []] ∧ dirname name ∈ parents ∧
        FileTree.Plain ((components name).getLastD [])) := by
  decide

theorem components_nodup : ((expected ++ parents).map components).Nodup := by decide

theorem join_injective {a b : Name} (ha : a ∈ expected ++ parents) (hb : b ∈ expected ++ parents)
    (h : join directory a = join directory b) : a = b :=
  List.inj_on_of_nodup_map components_nodup ha hb (List.append_cancel_left h)

/-- The paths that are to be there are not, once no lookup finds one. -/
theorem absent_of_lexists (hreal : FileTree.Real t directory)
    (h : ∀ name ∈ expected ++ parents, FileTree.lexists t (join directory name) = false) :
    ∀ name ∈ expected ++ parents, t.node (join directory name) = none := by
  have hsingle {name : Name} (hname : name ∈ expected ++ parents)
      (hcomponents : components name = [name]) (hplain : FileTree.Plain name) :
      t.node (join directory name) = none := by
    have hnot := h name hname
    rw [join, hcomponents] at hnot ⊢
    by_contra hthere
    rw [(hreal.lexists_iff hplain).mpr hthere] at hnot
    cases hnot
  have hparents : ∀ name ∈ parents, t.node (join directory name) = none := by
    intro name hname
    obtain ⟨hcomponents, hplain⟩ := components_parents name hname
    exact hsingle (List.mem_append_right _ hname) hcomponents hplain
  intro name hname
  rcases List.mem_append.mp hname with hfile | hparent
  · rcases components_expected name hfile with ⟨hcomponents, hplain⟩ | ⟨hcomponents, hdir, -⟩
    · exact hsingle hname hcomponents hplain
    · -- in a parent that is not there
      by_contra hthere
      have hparent := hparents _ hdir
      rw [join, (components_parents _ hdir).1] at hparent
      rw [join, hcomponents] at hthere
      rcases t.closed (directory ++ [dirname name]) _ (by simpa using hthere) with hroot | hnode
      · simp at hroot
      · rw [hparent] at hnode
        cases hnode
  · exact hparents name hparent

/-- The entries that `makeParents` creates. -/
def parentEntries (directory : Path) (names : List Name) : List (Path × Node) :=
  names.map fun name => (join directory name, .directory)

theorem makeParents_run (hreal : FileTree.Real t directory) {names : List Name}
    (hparents : ∀ name ∈ names, name ∈ parents) (hnodup : names.Nodup)
    (habsent : ∀ name ∈ names, t.node (join directory name) = none) :
    ∃ t', (makeParents directory names).run.run t = (.ok (), t') ∧
      FileTree.Created t (parentEntries directory names) t' := by
  induction names generalizing t with
  | nil => exact ⟨t, rfl, .nil t⟩
  | cons name rest ih =>
    obtain ⟨hname, hparents⟩ := List.forall_mem_cons.mp hparents
    obtain ⟨hnew, hnodup⟩ := List.nodup_cons.mp hnodup
    obtain ⟨hnone, habsent⟩ := List.forall_mem_cons.mp habsent
    obtain ⟨hcomponents, hplain⟩ := components_parents name hname
    have hjoin : join directory name = directory ++ [name] := by rw [join, hcomponents]
    rw [hjoin] at hnone
    obtain ⟨t₁, hmkdir, hcreated⟩ := hreal.mkdir hplain hnone
    obtain ⟨t', hrest, hcreated'⟩ := ih (hcreated.real hreal) hparents hnodup (by
      intro other hother
      rw [hcreated.elsewhere, habsent other hother]
      intro e he heq
      cases List.mem_singleton.mp he
      rw [← hjoin] at heq
      have hsame := join_injective (List.mem_append_right _ hname)
        (List.mem_append_right _ (hparents other hother)) heq
      exact hnew (hsame ▸ hother))
    refine ⟨t', ?_, ?_⟩
    · have hmade : (makedirs (join directory name)).run.run t = (.ok (), t₁) := by
        apply run_call
        rw [hjoin, hmkdir]
        rfl
      exact (run_bind_ok hmade).trans hrest
    · show FileTree.Created t ((join directory name, .directory) :: _) t'
      rw [hjoin]
      exact hcreated.append hcreated'

/-- The mode of an extracted file. -/
def modeOf (name : Name) : Nat := if isTool name then 0o700 else 0o600

theorem writeMember_run {contents : Contents} {name last : Name} {path : Path} {data : List UInt8}
    (hreal : FileTree.Real t path) (hjoin : join directory name = path ++ [last])
    (hplain : FileTree.Plain last) (hnone : t.node (path ++ [last]) = none)
    (hdata : contentOf contents name = .ok data) :
    ∃ t', (writeMember directory contents name).run.run t = (.ok (), t') ∧
      FileTree.Created t [(join directory name, .file data (modeOf name))] t' := by
  obtain ⟨t₁, hopen, hcreated⟩ := hreal.newFile hplain hnone 0o600
  obtain ⟨hwritten, hchmod⟩ := hcreated data
  have hopened : (call (FileTree.openNew (join directory name) 0o600)).run.run t =
      (.ok (join directory name), t₁) := by
    apply run_call
    rw [hjoin, hopen]
  have hread : (liftM (contentOf contents name) : Host (List UInt8)).run.run t₁ =
      (.ok data, t₁) := by
    rw [hdata]
    rfl
  have hwrite : (call fun t => .ok ((), FileTree.write (join directory name) data t)).run.run t₁ =
      (.ok (), FileTree.write (join directory name) data t₁) := run_call rfl
  rw [writeMember, run_bind_ok hopened, run_bind_ok hread, run_bind_ok hwrite]
  rw [← hjoin] at hwritten hchmod
  by_cases htool : isTool name
  · obtain ⟨t', hmode, hcreated'⟩ := hchmod 0o700
    refine ⟨t', ?_, ?_⟩
    · rw [if_pos htool]
      apply run_call
      rw [hmode]
      rfl
    · rw [modeOf, if_pos htool]
      exact hcreated'
  · refine ⟨FileTree.write (join directory name) data t₁, ?_, ?_⟩
    · rw [if_neg htool]
      rfl
    · rw [modeOf, if_neg htool]
      exact hwritten

/-- The entries that `writeFiles` creates. -/
def fileEntries (directory : Path) (data : Name → List UInt8) (names : List Name) :
    List (Path × Node) :=
  names.map fun name => (join directory name, .file (data name) (modeOf name))

/-- The directory in which a file of the package is to lie. -/
def Housed (t : Tree) (directory : Path) (name : Name) : Prop :=
  ∃ path last, join directory name = path ++ [last] ∧ FileTree.Real t path ∧ FileTree.Plain last

theorem writeFiles_run {contents : Contents} {data : Name → List UInt8} {names : List Name}
    (hnames : ∀ name ∈ names, name ∈ expected) (hnodup : names.Nodup)
    (hhoused : ∀ name ∈ names, Housed t directory name)
    (habsent : ∀ name ∈ names, t.node (join directory name) = none)
    (hdata : ∀ name ∈ names, contentOf contents name = .ok (data name)) :
    ∃ t', (writeFiles directory contents names).run.run t = (.ok (), t') ∧
      FileTree.Created t (fileEntries directory data names) t' := by
  induction names generalizing t with
  | nil => exact ⟨t, rfl, .nil t⟩
  | cons name rest ih =>
    obtain ⟨hname, hnames⟩ := List.forall_mem_cons.mp hnames
    obtain ⟨hnew, hnodup⟩ := List.nodup_cons.mp hnodup
    obtain ⟨⟨path, last, hjoin, hreal, hplain⟩, hhoused⟩ := List.forall_mem_cons.mp hhoused
    obtain ⟨hnone, habsent⟩ := List.forall_mem_cons.mp habsent
    obtain ⟨hfirst, hdata⟩ := List.forall_mem_cons.mp hdata
    obtain ⟨t₁, hwritten, hcreated⟩ :=
      writeMember_run hreal hjoin hplain (hjoin ▸ hnone) hfirst
    have hhoused' : ∀ other ∈ rest, Housed t₁ directory other := by
      intro other hother
      obtain ⟨path, last, hjoin, hreal, hplain⟩ := hhoused other hother
      exact ⟨path, last, hjoin, hcreated.real hreal, hplain⟩
    have habsent' : ∀ other ∈ rest, t₁.node (join directory other) = none := by
      intro other hother
      rw [hcreated.elsewhere, habsent other hother]
      intro e he heq
      cases List.mem_singleton.mp he
      have hsame := join_injective (List.mem_append_left _ hname)
        (List.mem_append_left _ (hnames other hother)) heq
      exact hnew (hsame ▸ hother)
    obtain ⟨t', hrest, hcreated'⟩ := ih hnames hnodup hhoused' habsent' hdata
    exact ⟨t', (run_bind_ok hwritten).trans hrest, hcreated.append hcreated'⟩

end Creation

/-! ### All or nothing -/

/-- What a successful extraction has found and done. -/
structure Extracted (sha256 : List UInt8 → Name) (loads : List UInt8 → Except PyError Value)
    (archive : Archive) (bootstrap : Except PyError (List UInt8)) (directory : Path)
    (before after : Tree) (members : Members) (manifest : Value) : Prop where
  verified : Verified sha256 loads archive bootstrap members manifest
  absent : ∀ name ∈ expected ++ parents, before.node (join directory name) = none
  directories : ∀ name ∈ parents, after.node (join directory name) = some .directory
  files : ∀ m ∈ members,
    after.node (join directory m.1.name) = some (.file m.2 (modeOf m.1.name))
  elsewhere : ∀ path, (∀ name ∈ expected ++ parents, join directory name ≠ path) →
    after.node path = before.node path

section AllOrNothing

variable (sha256 : List UInt8 → Name) (loads : List UInt8 → Except PyError Value)
  (orders : Orders) (archive : Archive) (bootstrap : Except PyError (List UInt8))

theorem parents_nodup : parents.Nodup := by decide

theorem parents_not_expected : ∀ name ∈ parents, name ∉ expected := by decide

/-- **All or nothing.**  Whatever the archive, the manifest, the launcher and
the tree: `extract_bundle` raises and leaves the tree alone, or the archive is
the verified package and the tree has gained its files and nothing else. -/
theorem extractBundle_allOrNothing (t : Tree) (directory : {path // FileTree.Real t path}) :
    (∃ error, (extractBundle sha256 loads orders archive bootstrap directory.1).run.run t =
        (.error error, t)) ∨
      ∃ manifest t' members,
        (extractBundle sha256 loads orders archive bootstrap directory.1).run.run t =
          (.ok manifest, t') ∧
        Extracted sha256 loads archive bootstrap directory.1 t t' members manifest := by
  obtain ⟨directory, hreal⟩ := directory
  rw [extractBundle]
  rcases hverify : verifyBundle sha256 loads archive bootstrap with error | ⟨contents, manifest⟩
  · exact .inl ⟨error, rfl⟩
  obtain ⟨members, rfl, hverified⟩ := verifyBundle_ok hverify
  have hfound : (liftM (Except.ok (contentsOf members, manifest) :
      Except PyError (Contents × Value)) : Host (Contents × Value)).run.run t =
        (.ok (contentsOf members, manifest), t) := rfl
  rw [run_bind_ok hfound]
  dsimp only
  rcases checkAbsent_run directory orders.checked t with ⟨error, hraised⟩ | ⟨hchecked, hlexists⟩
  · exact .inl ⟨error, run_bind_error hraised⟩
  have habsent := absent_of_lexists hreal fun name hname =>
    hlexists name (orders.checked_perm.mem_iff.mpr hname)
  -- the directories
  obtain ⟨t₁, hmade, hparents⟩ := makeParents_run hreal
    (fun name hname => orders.made_perm.mem_iff.mp hname)
    (orders.made_perm.nodup_iff.mpr parents_nodup)
    (fun name hname => habsent name (List.mem_append_right _ (orders.made_perm.mem_iff.mp hname)))
  have hdirectory {name : Name} (hname : name ∈ parents) :
      t₁.node (join directory name) = some .directory :=
    (hparents.entry (List.mem_map.mpr ⟨name, orders.made_perm.mem_iff.mpr hname, rfl⟩)).2
  -- the files
  let data name := ((contentOf (contentsOf members) name).toOption).getD []
  have hmember {m : Member × List UInt8} (hm : m ∈ members) :
      contentOf (contentsOf members) m.1.name = .ok m.2 :=
    contentOf_member (hverified.names.nodup_iff.mpr expected_nodup) hm
  have hdata {m : Member × List UInt8} (hm : m ∈ members) : data m.1.name = m.2 := by
    show ((contentOf (contentsOf members) m.1.name).toOption).getD [] = m.2
    rw [hmember hm]
    rfl
  have hwritten {name : Name} (hname : name ∈ orders.written) : name ∈ expected :=
    orders.written_perm.mem_iff.mp hname
  have hreal₁ := hparents.real hreal
  have hhoused : ∀ name ∈ orders.written, Housed t₁ directory name := by
    intro name hname
    rcases components_expected name (hwritten hname) with
      ⟨hcomponents, hplain⟩ | ⟨hcomponents, hparent, hplain⟩
    · exact ⟨directory, name, by rw [join, hcomponents], hreal₁, hplain⟩
    · obtain ⟨hsingle, hplain'⟩ := components_parents _ hparent
      have hnode := hdirectory hparent
      rw [join, hsingle] at hnode
      refine ⟨directory ++ [dirname name], _, ?_, hreal₁.child hplain' hnode, hplain⟩
      rw [join, hcomponents, List.append_assoc]
      rfl
  have hnone : ∀ name ∈ orders.written, t₁.node (join directory name) = none := by
    intro name hname
    rw [hparents.elsewhere, habsent name (List.mem_append_left _ (hwritten hname))]
    intro e he heq
    obtain ⟨parent, hparent, rfl⟩ := List.mem_map.mp he
    have hparent := orders.made_perm.mem_iff.mp hparent
    have hsame := join_injective (List.mem_append_right _ hparent)
      (List.mem_append_left _ (hwritten hname)) heq
    exact parents_not_expected parent hparent (hsame ▸ hwritten hname)
  have hcontents : ∀ name ∈ orders.written,
      contentOf (contentsOf members) name = .ok (data name) := by
    intro name hname
    obtain ⟨m, hm, rfl⟩ := List.mem_map.mp (hverified.names.mem_iff.mpr (hwritten hname))
    rw [hmember hm, hdata hm]
  obtain ⟨t', hdone, hfiles⟩ := writeFiles_run (fun name hname => hwritten hname)
    (orders.written_perm.nodup_iff.mpr expected_nodup) hhoused hnone hcontents
  have hcreated := hparents.append hfiles
  refine .inr ⟨manifest, t', members, ?_, hverified, habsent, ?_, ?_, ?_⟩
  · rw [run_bind_ok hchecked, run_bind_ok hmade, run_bind_ok hdone]
    rfl
  · intro name hname
    refine (hcreated.entry (e := (join directory name, .directory)) ?_).2
    exact List.mem_append_left _
      (List.mem_map.mpr ⟨name, orders.made_perm.mem_iff.mpr hname, rfl⟩)
  · intro m hm
    have hname : m.1.name ∈ orders.written := orders.written_perm.mem_iff.mpr
      (hverified.names.mem_iff.mp (List.mem_map.mpr ⟨m, hm, rfl⟩))
    refine (hcreated.entry (e := (join directory m.1.name, .file m.2 (modeOf m.1.name))) ?_).2
    refine List.mem_append_right _ (List.mem_map.mpr ⟨m.1.name, hname, ?_⟩)
    show (_, Node.file (data m.1.name) _) = _
    rw [hdata hm]
  · intro path hpath
    apply hcreated.elsewhere
    intro e he
    rcases List.mem_append.mp he with he | he
    · obtain ⟨name, hname, rfl⟩ := List.mem_map.mp he
      exact hpath name (List.mem_append_right _ (orders.made_perm.mem_iff.mp hname))
    · obtain ⟨name, hname, rfl⟩ := List.mem_map.mp he
      exact hpath name (List.mem_append_left _ (hwritten hname))

end AllOrNothing

end Dld.Trial
