/-
DldDriver/Userspace/ConfigBuffer.lean

The JSON reader as it stands in `src/dld_common.c`: over the caller's buffer,
by position, with every access to memory an event.

`Config` reads a list of bytes and cannot leave it.  Here a reader loads
`text[pos]` where the C does, behind the tests that the C makes, and the
memory answers at every index, those past the end included.  That the tests
are enough is therefore a theorem:

    Sim text size rel x y     on the buffer `text` of `size` bytes `x` stays
                              within its bounds and returns what the reader
                              `y` of lists returns, up to `rel`

There is one such lemma for each function.  The loops of the C have no bound
of their own; a loop here has `n` rounds and reports when they are used up, so
that `Sim` also says that the loop ends.
-/
import DldDriver.Userspace.ConfigDocument
import DldDriver.Interaction.Prog

namespace Dld.Buffer

open Interaction

/-! ### Accesses -/

/-- What the parser does to memory and to its accumulator. -/
inductive Access
  /-- Read `text[index]`. -/
  | load (index : Nat)
  /-- Write `out[index]` of the name buffer. -/
  | store (index : Nat) (value : UInt8)
  /-- Leave `value` in the accumulator of `json_length`. -/
  | accumulate (value : Word)

abbrev Response : Access → Type
  | .load _ => UInt8
  | .store .. => Unit
  | .accumulate _ => Unit

/-- Why there is no result. -/
inductive Fault
  /-- A loop used up its rounds. -/
  | rounds
  /-- `json_fail` with this text. -/
  | message (text : String)

abbrev Reader := ExceptT Fault (Prog Access Response)

def load (index : Nat) : Reader UInt8 := ExceptT.lift (Prog.op (Access.load index))

def store (index : Nat) (value : UInt8) : Reader Unit :=
  ExceptT.lift (Prog.op (Access.store index value))

def accumulate (value : Word) : Reader Unit := ExceptT.lift (Prog.op (Access.accumulate value))

/-- `json_fail(r, message)` -/
def jsonFail {α : Type} (pos : Nat) (message : String) : Reader α :=
  throw (.message ("configuration byte " ++ toString pos ++ ": " ++ message))

/-! ### The reader -/

section Reader

-- `r->size`, and the rounds of a loop
variable (size n : Nat)

/-- The loop of `whitespace`. -/
def whitespace : Nat → Nat → Reader Nat
  | 0, _ => throw .rounds
  | n + 1, pos =>
    if pos < size then do
      let c ← load pos
      if isBlank c then whitespace n (pos + 1) else pure pos
    else pure pos

def token (pos : Nat) (wanted : UInt8) : Reader Nat := do
  let pos ← whitespace size n pos
  if pos = size then jsonFail pos "unexpected token" else do
  let c ← load pos
  if c ≠ wanted then jsonFail pos "unexpected token" else pure (pos + 1)

/-- The test `r->pos < r->size && p(r->text[r->pos])`. -/
def next (pos : Nat) (p : UInt8 → Bool) : Reader Bool :=
  if pos < size then do
    let c ← load pos
    pure (p c)
  else pure false

/-- The loop over the four digits after `\u`, `k` of them still to read. -/
def unicodeEscape (pos : Nat) (c : Nat) : Nat → Reader (Nat × Nat)
  | 0 => pure (c, pos)
  | k + 1 =>
    if pos = size then jsonFail pos "incomplete Unicode escape" else do
    let digit ← load pos
    match hexDigit digit with
    | none => jsonFail (pos + 1) "invalid Unicode escape"
    | some h => unicodeEscape (pos + 1) (c * 16 + h) k

/-- What follows a backslash. -/
def escape (pos : Nat) : Reader (Nat × Nat) :=
  if pos = size then jsonFail pos "incomplete escape" else do
  let c ← load pos
  let pos := pos + 1
  if c = charQuote ∨ c = charBackslash ∨ c = charSlash then pure (c.toNat, pos)
  else if c = 0x62 then pure (0x08, pos)
  else if c = 0x66 then pure (0x0c, pos)
  else if c = 0x6e then pure (0x0a, pos)
  else if c = 0x72 then pure (0x0d, pos)
  else if c = 0x74 then pure (0x09, pos)
  else if c = 0x75 then unicodeEscape size pos 0 4
  else jsonFail pos "invalid string escape"

/-- The character that `byte` begins. -/
def nameChar (byte : UInt8) (pos : Nat) : Reader (Nat × Nat) :=
  if byte = charBackslash then escape size pos else pure (byte.toNat, pos)

/-- The loop of `json_name`, with `out` as filled so far. -/
def nameLoop (cap : Nat) : Nat → Nat → List Char → Reader (List Char × Nat)
  | 0, _, _ => throw .rounds
  | n + 1, pos, out =>
    if pos < size then do
      let byte ← load pos
      let pos := pos + 1
      if byte = charQuote then do
        store out.length 0
        pure (out, pos)
      else if byte < 0x20 then jsonFail pos "unescaped control character"
      else do
      let (c, pos) ← nameChar size byte pos
      if c = 0 ∨ c ≥ 0x80 then jsonFail pos "unsupported field or profile name"
      else if out.length + 1 ≥ cap then jsonFail pos "unknown name is too long"
      else do
      store out.length (UInt8.ofNat c)
      nameLoop cap n pos (out ++ [Char.ofNat c])
    else jsonFail pos "unterminated string"

def jsonName (pos : Nat) (cap : Nat) : Reader (List Char × Nat) := do
  let pos ← token size n pos charQuote
  nameLoop size cap n pos []

/-- The `do` loop over the digits of an integer; there is one at `pos`. -/
def digitLoop : Nat → Word → Nat → Reader (Word × Nat)
  | 0, _, _ => throw .rounds
  | n + 1, value, pos => do
    let c ← load pos
    let pos := pos + 1
    let value := value * 10 + BitVec.ofNat 32 (c.toNat - 0x30)
    accumulate value
    if value > maxLength then jsonFail pos "length exceeds 300" else do
    let more ← next size pos isDigit
    if more then digitLoop n value pos else pure (value, pos)

/-- The digits of a length. -/
def lengthDigits (pos : Nat) : Reader (Word × Nat) := do
  let digit ← next size pos isDigit
  if digit = false then
    jsonFail pos "length must be a JSON integer from 0 through 300"
  else do
  let c ← load pos
  if c = charZero then do
    let pos := pos + 1
    let leading ← next size pos isDigit
    if leading then jsonFail pos "leading zero in integer" else pure (0, pos)
  else digitLoop size n 0 pos

def jsonLength (pos : Nat) : Reader (Word × Nat) := do
  let pos ← whitespace size n pos
  let negative ← next size pos (· == charMinus)
  let pos := if negative then pos + 1 else pos
  let (value, pos) ← lengthDigits size n pos
  if negative ∧ value ≠ 0 then jsonFail pos "negative string length" else do
  let fraction ← next size pos fun c => c == charDot || c == 0x65 || c == 0x45
  if fraction then jsonFail pos "length must be an integer, not a fraction or exponent"
  else pure (value, pos)

/-! ### The schema -/

/-- The comma before every element but the first. -/
def lengthSeparator (pos : Nat) (i : Fin 6) : Reader Nat :=
  if i ≠ 0 then token size n pos charComma else pure pos

/-- The loop over the elements of `string_lengths`. -/
def parseLengths (pos : Nat) (lengths : Fin 6 → Word) :
    List (Fin 6) → Reader ((Fin 6 → Word) × Nat)
  | [] => pure (lengths, pos)
  | i :: rest => do
    let pos ← lengthSeparator size n pos i
    let (value, pos) ← jsonLength size n pos
    parseLengths pos (Function.update lengths i value) rest

/-- The value of the member `name`. -/
def parseMember (name : List Char) (pos : Nat) (m : Members) : Reader (Members × Nat) := do
  if name = "pixel_type".toList then
    if m.seenType then jsonFail pos "duplicate pixel_type field" else do
    let (profile, pos) ← jsonName size n pos 32
    match profileNamed profile with
    | none => jsonFail pos "unknown pixel_type profile"
    | some id =>
      pure ({ m with config := { m.config with profileId := id }, seenType := true }, pos)
  else if name = "string_lengths".toList then
    if m.seenLengths then jsonFail pos "duplicate string_lengths field" else do
    let pos ← token size n pos charOpenBracket
    let (lengths, pos) ← parseLengths size n pos m.config.stringLengths (List.finRange 6)
    let pos ← token size n pos charCloseBracket
    pure ({ m with config := { m.config with stringLengths := lengths }, seenLengths := true }, pos)
  else jsonFail pos "unknown configuration field"

/-- The loop over the members. -/
def parseMembers : Nat → Nat → Members → Reader (Members × Nat)
  | 0, _, _ => throw .rounds
  | k + 1, pos, m => do
    let pos ← whitespace size n pos
    let empty ← next size pos (· == charCloseBrace)
    if empty then pure (m, pos + 1) else do
    let (name, pos) ← jsonName size n pos 32
    let pos ← token size n pos charColon
    let (m, pos) ← parseMember size n name pos m
    let pos ← whitespace size n pos
    let last ← next size pos (· == charCloseBrace)
    if last then pure (m, pos + 1) else do
    let pos ← token size n pos charComma
    let pos ← whitespace size n pos
    if pos = size then jsonFail pos "trailing comma" else do
    let c ← load pos
    if c = charCloseBrace then jsonFail pos "trailing comma" else parseMembers k pos m

/-- The parsed configuration, or why there is none. -/
def parseConfig : Reader DldConfig := do
  let pos ← token size n 0 charOpenBrace
  let (m, pos) ← parseMembers size n n pos {}
  let pos ← whitespace size n pos
  if pos ≠ size then jsonFail pos "trailing content after JSON object"
  else if m.seenType = false ∨ m.seenLengths = false then
    jsonFail pos "pixel_type and string_lengths are required"
  else pure m.config

/-- The result, `*config` and the error buffer, unless a loop used up its
rounds. -/
def dldParseConfig (config : DldConfig) (error : String) (cap : Nat) :
    Prog Access Response (Option (Bool × DldConfig × String)) := do
  match ← (parseConfig size n).run with
  | .ok parsed => pure (some (true, parsed, error))
  | .error (.message text) => pure (some (false, config, fail error cap text))
  | .error .rounds => pure none

end Reader

/-! ### The reader of lists -/

/-- The memory holds `text`, past the end of the buffer too. -/
def answers (text : Nat → UInt8) : (access : Access) → Response access
  | .load index => text index
  | .store .. => ()
  | .accumulate _ => ()

/-- An access that the bounds allow: of the text up to `size`, of a name buffer
up to 32, and an accumulator of at most ten times the limit and a digit. -/
def Within (size : Nat) (e : Event Access Response) : Prop :=
  match e.1 with
  | .load index => index < size
  | .store index _ => index < 32
  | .accumulate value => value.toNat ≤ 3009

/-- The reader of lists at `pos`. -/
def readerAt (text : Nat → UInt8) (size pos : Nat) : JsonReader :=
  ⟨(List.range' pos (size - pos)).map text, pos⟩

section Simulation

variable {α β γ δ : Type} {text : Nat → UInt8} {size : Nat}

/-- A position in the buffer, and the reader of lists there. -/
def At (text : Nat → UInt8) (size : Nat) (pos : Nat) (r : JsonReader) : Prop :=
  pos ≤ size ∧ r = readerAt text size pos

/-- The same value with it. -/
def WithAt (text : Nat → UInt8) (size : Nat) (x : α × Nat) (y : α × JsonReader) : Prop :=
  x.1 = y.1 ∧ At text size x.2 y.2

/-- The two results are the same, up to `rel`. -/
inductive Agree (rel : α → β → Prop) : Except Fault α → Json β → Prop
  | ok {a b} : rel a b → Agree rel (.ok a) (.ok b)
  | message (reason : String) : Agree rel (.error (.message reason)) (.error reason)

/-- On the buffer `text` of `size` bytes the reader `x` stays within its bounds
and returns what `y` returns. -/
def Sim (text : Nat → UInt8) (size : Nat) (rel : α → β → Prop) (x : Reader α) (y : Json β) :
    Prop :=
  (∀ e ∈ (x.run.exec (answers text)).1, Within size e) ∧
    Agree rel (x.run.exec (answers text)).2 y

variable {rel : α → β → Prop} {rel' : γ → δ → Prop}

theorem Sim.pure {a : α} {b : β} (h : rel a b) : Sim text size rel (pure a) (.ok b) :=
  ⟨fun _ he => (nomatch he), .ok h⟩

/-- The readers are at the same position when they fail. -/
theorem Sim.fail (pos : Nat) (message : String) :
    Sim text size rel (jsonFail pos message) (Dld.jsonFail (readerAt text size pos) message) :=
  ⟨fun _ he => (nomatch he), .message _⟩

theorem Sim.bind {x : Reader α} {y : Json β} {f : α → Reader γ} {g : β → Json δ}
    (hx : Sim text size rel x y)
    (hf : ∀ a b, rel a b → y = .ok b → Sim text size rel' (f a) (g b)) :
    Sim text size rel' (x >>= f) (y >>= g) := by
  obtain ⟨hwithin, hagree⟩ := hx
  rw [Sim, ExceptT.run_bind, Prog.exec_bind]
  generalize (x.run.exec (answers text)).1 = accesses at hwithin
  generalize (x.run.exec (answers text)).2 = result at hagree
  cases hagree with
  | @ok a b hab =>
    obtain ⟨hwithin', hagree'⟩ := hf a b hab rfl
    refine ⟨fun e he => ?_, hagree'⟩
    rcases List.mem_append.mp he with he | he
    · exact hwithin e he
    · exact hwithin' e he
  | message reason =>
    refine ⟨fun e he => ?_, .message reason⟩
    rcases List.mem_append.mp he with he | he
    · exact hwithin e he
    · exact nomatch he

/-- A step at which the reader of lists does not fail. -/
theorem Sim.step {x : Reader α} {b : β} {f : α → Reader γ} {y : Json δ}
    (hx : Sim text size rel x (.ok b)) (hf : ∀ a, rel a b → Sim text size rel' (f a) y) :
    Sim text size rel' (x >>= f) y := by
  show Sim text size rel' (x >>= f) ((.ok b : Json β) >>= fun _ => y)
  apply hx.bind
  intro a b' hab heq
  cases heq
  exact hf a hab

/-! ### One access -/

variable {pos : Nat}

theorem readerAt_of_lt (h : pos < size) :
    (readerAt text size pos).rest = text pos :: (readerAt text size (pos + 1)).rest := by
  obtain ⟨k, hk⟩ : ∃ k, size - pos = k + 1 := ⟨size - pos - 1, by omega⟩
  have hk' : size - (pos + 1) = k := by omega
  show (List.range' pos (size - pos)).map text = _ :: (List.range' (pos + 1) _).map text
  rw [hk, hk', List.range'_succ, List.map_cons]

theorem readerAt_advance (h : pos < size) :
    (readerAt text size pos).advance = readerAt text size (pos + 1) := by
  rw [JsonReader.advance, readerAt_of_lt h]
  rfl

theorem readerAt_end : (readerAt text size size).rest = [] := by
  show (List.range' size (size - size)).map text = []
  rw [Nat.sub_self]
  rfl

theorem at_readerAt (h : pos ≤ size) : At text size pos (readerAt text size pos) := ⟨h, rfl⟩

variable {f : UInt8 → Reader α} {y : Json β}

theorem sim_load (h : pos < size) (hf : Sim text size rel (f (text pos)) y) :
    Sim text size rel (load pos >>= f) y := by
  have hload : Sim text size (· = ·) (load pos) (.ok (text pos)) := by
    refine ⟨fun e he => ?_, .ok rfl⟩
    cases List.mem_singleton.mp he
    exact h
  apply hload.step
  rintro _ rfl
  exact hf

theorem sim_store {index : Nat} {value : UInt8} {f : Unit → Reader α} (h : index < 32)
    (hf : Sim text size rel (f ()) y) : Sim text size rel (store index value >>= f) y := by
  have hstore : Sim text size (· = ·) (store index value) (.ok ()) := by
    refine ⟨fun e he => ?_, .ok rfl⟩
    cases List.mem_singleton.mp he
    exact h
  apply hstore.step
  rintro _ rfl
  exact hf

theorem sim_accumulate {value : Word} {f : Unit → Reader α} (h : value.toNat ≤ 3009)
    (hf : Sim text size rel (f ()) y) : Sim text size rel (accumulate value >>= f) y := by
  have hkept : Sim text size (· = ·) (accumulate value) (.ok ()) := by
    refine ⟨fun e he => ?_, .ok rfl⟩
    cases List.mem_singleton.mp he
    exact h
  apply hkept.step
  rintro _ rfl
  exact hf

/-! ### Tokens -/

variable {n : Nat}

theorem sim_next {p : UInt8 → Bool} {f : Bool → Reader α} (hpos : pos ≤ size)
    (hf : Sim text size rel (f ((readerAt text size pos).next p)) y) :
    Sim text size rel (next size pos p >>= f) y := by
  have hnext : Sim text size (· = ·) (next size pos p) (.ok ((readerAt text size pos).next p)) := by
    rw [next]
    split
    · next h =>
      apply sim_load h
      rw [JsonReader.next, readerAt_of_lt h]
      exact .pure rfl
    · next h =>
      have hend : pos = size := by omega
      subst hend
      rw [JsonReader.next, readerAt_end]
      exact .pure rfl
  apply hnext.step
  rintro _ rfl
  exact hf

theorem sim_whitespace (hpos : pos ≤ size) (hn : size < n + pos) :
    Sim text size (At text size) (whitespace size n pos)
      (.ok (Dld.whitespace (readerAt text size pos))) := by
  induction n generalizing pos with
  | zero => omega
  | succ n ih =>
    rw [whitespace, Dld.whitespace]
    split
    · next h =>
      apply sim_load h
      rw [readerAt_of_lt h]
      show Sim _ _ _ _ (.ok (if isBlank (text pos) then _ else _))
      split
      · exact ih h (by omega)
      · apply Sim.pure
        refine ⟨hpos, ?_⟩
        rw [← readerAt_of_lt h]
    · next h =>
      have hend : pos = size := by omega
      subst hend
      rw [readerAt_end]
      apply Sim.pure
      refine ⟨hpos, ?_⟩
      show (⟨[], pos⟩ : JsonReader) = ⟨(readerAt text pos pos).rest, pos⟩
      rw [readerAt_end]

theorem sim_token {wanted : UInt8} (hpos : pos ≤ size) (hn : size < n) :
    Sim text size (At text size) (token size n pos wanted)
      (Dld.token (readerAt text size pos) wanted) := by
  apply (sim_whitespace hpos (by omega)).step
  rintro pos ⟨hpos, hr⟩
  rw [Dld.token, hr]
  split
  · next hend =>
    subst hend
    rw [readerAt_end, if_pos (by simp)]
    exact .fail _ _
  · next hend =>
    have hlt : pos < size := by omega
    apply sim_load hlt
    rw [readerAt_of_lt hlt, readerAt_advance hlt, List.head?_cons]
    by_cases hwanted : text pos = wanted
    · rw [if_neg (not_not.mpr hwanted), if_neg (not_not.mpr (congrArg some hwanted))]
      exact .pure (at_readerAt hlt)
    · rw [if_pos hwanted, if_pos (mt Option.some.inj hwanted)]
      exact .fail _ _

/-! ### Strings -/

theorem sim_unicodeEscape {c k : Nat} (hpos : pos ≤ size) :
    Sim text size (WithAt text size) (unicodeEscape size pos c k)
      (Dld.unicodeEscape (readerAt text size pos) c k) := by
  induction k generalizing pos c with
  | zero => exact .pure ⟨rfl, at_readerAt hpos⟩
  | succ k ih =>
    rw [unicodeEscape, Dld.unicodeEscape]
    split
    · next hend =>
      subst hend
      rw [readerAt_end]
      exact .fail _ _
    · next hend =>
      have hlt : pos < size := by omega
      apply sim_load hlt
      rw [readerAt_of_lt hlt, readerAt_advance hlt]
      dsimp only
      rcases hexDigit (text pos) with - | h
      · exact .fail _ _
      · exact ih hlt

theorem sim_escape (hpos : pos ≤ size) :
    Sim text size (WithAt text size) (escape size pos) (Dld.escape (readerAt text size pos)) := by
  rw [escape, Dld.escape]
  split
  · next hend =>
    subst hend
    rw [readerAt_end]
    exact .fail _ _
  · next hend =>
    have hlt : pos < size := by omega
    have hdone {c : Nat} : Sim text size (WithAt text size) (pure (c, pos + 1))
        (.ok (c, readerAt text size (pos + 1))) := .pure ⟨rfl, at_readerAt hlt⟩
    apply sim_load hlt
    rw [readerAt_of_lt hlt, readerAt_advance hlt]
    dsimp only
    split_ifs
    · exact hdone
    · exact hdone
    · exact hdone
    · exact hdone
    · exact hdone
    · exact hdone
    · exact sim_unicodeEscape hlt
    · exact .fail _ _

theorem sim_nameChar {byte : UInt8} (hpos : pos ≤ size) :
    Sim text size (WithAt text size) (nameChar size byte pos)
      (Dld.nameChar byte (readerAt text size pos)) := by
  rw [nameChar, Dld.nameChar]
  split
  · exact sim_escape hpos
  · exact .pure ⟨rfl, at_readerAt hpos⟩

theorem readerAt_length : (readerAt text size pos).rest.length = size - pos := by
  show ((List.range' pos (size - pos)).map text).length = _
  rw [List.length_map, List.length_range']

/-- Behind a character the reader has not gone back. -/
theorem le_of_nameChar {byte : UInt8} {start c : Nat} (hquote : byte ≠ charQuote)
    (hcontrol : ¬ byte < 0x20) (hstart : start ≤ size) (hpos : pos ≤ size)
    (h : Dld.nameChar byte (readerAt text size start) = .ok (c, readerAt text size pos)) :
    start ≤ pos := by
  have hreads : Reads (Dld.nameChar byte (readerAt text size start)) c
      (readerAt text size pos).rest := ⟨pos, h⟩
  obtain ⟨lit, hlit, heq⟩ := (nameChar_iff hquote hcontrol).mp hreads
  obtain ⟨first, more, rfl, -⟩ := hlit.head
  have hlength := congrArg List.length heq
  rw [List.length_cons, List.length_append, readerAt_length, readerAt_length,
    List.length_cons] at hlength
  omega

/-- The two loops need not have the same number of rounds; what is left of the
text is enough for each. -/
theorem sim_nameLoop {cap m : Nat} {out : List Char} (hcap : cap ≤ 32) (hout : out.length < cap)
    (hpos : pos ≤ size) (hn : size < n + pos) (hm : size ≤ m + pos) :
    Sim text size (WithAt text size) (nameLoop size cap n pos out)
      (Dld.nameLoop cap m (readerAt text size pos) out) := by
  induction n generalizing pos m out with
  | zero => omega
  | succ n ih =>
    rw [nameLoop]
    split
    · next h =>
      obtain ⟨m, rfl⟩ : ∃ k, m = k + 1 := ⟨m - 1, by omega⟩
      rw [Dld.nameLoop]
      apply sim_load h
      rw [readerAt_of_lt h, readerAt_advance h]
      dsimp only
      split
      · exact sim_store (by omega) (.pure ⟨rfl, at_readerAt h⟩)
      next hquote =>
      split
      · exact .fail _ _
      next hcontrol =>
      apply (sim_nameChar h).bind
      rintro ⟨c, pos'⟩ ⟨c', r⟩ ⟨rfl, hpos', rfl⟩ hread
      have hforward : pos + 1 ≤ pos' := le_of_nameChar hquote hcontrol h hpos' hread
      dsimp only
      split
      · exact .fail _ _
      split
      · exact .fail _ _
      · next hfits =>
        apply sim_store (by omega)
        apply ih
        · rw [List.length_append, List.length_singleton]
          omega
        · exact hpos'
        · omega
        · omega
    · next h =>
      have hend : pos = size := by omega
      subst hend
      cases m with
      | zero => exact .fail _ _
      | succ m =>
        rw [Dld.nameLoop, readerAt_end]
        exact .fail _ _

theorem sim_jsonName (hpos : pos ≤ size) (hn : size < n) :
    Sim text size (WithAt text size) (jsonName size n pos 32)
      (Dld.jsonName (readerAt text size pos) 32) := by
  apply (sim_token hpos hn).bind
  rintro pos _ ⟨hpos, rfl⟩ -
  apply sim_nameLoop (by decide) (by decide) hpos (by omega)
  rw [readerAt_length]
  omega

/-! ### Integers -/

theorem sim_digitLoop {value : Word} (hvalue : value.toNat ≤ 300) (hpos : pos < size)
    (hdigit : isDigit (text pos) = true) (hn : size < n + pos) :
    Sim text size (WithAt text size) (digitLoop size n value pos)
      (Dld.digitLoop value (readerAt text size pos).rest pos) := by
  induction n generalizing pos value with
  | zero => omega
  | succ n ih =>
    have hsum := accumulate_toNat hvalue hdigit
    have hle := digit_le hdigit
    rw [digitLoop]
    apply sim_load hpos
    rw [readerAt_of_lt hpos, Dld.digitLoop, if_pos hdigit]
    dsimp only
    generalize value * 10 + BitVec.ofNat 32 ((text pos).toNat - 0x30) = value' at hsum ⊢
    apply sim_accumulate (by omega)
    split
    · exact .fail (pos + 1) _
    next hlarge =>
    have hvalue' : value'.toNat ≤ 300 := BitVec.not_lt.mp hlarge
    apply sim_next hpos
    rcases Nat.lt_or_ge (pos + 1) size with hlt | hend
    · rw [JsonReader.next, readerAt_of_lt hlt]
      split
      · next hmore =>
        rw [← readerAt_of_lt hlt]
        exact ih hvalue' hlt hmore (by omega)
      · next hmore =>
        have hmore : ¬ isDigit (text (pos + 1)) = true := hmore
        rw [Dld.digitLoop, if_neg hmore, ← readerAt_of_lt hlt]
        exact .pure ⟨rfl, at_readerAt hpos⟩
    · have hend : pos + 1 = size := by omega
      subst hend
      rw [JsonReader.next, readerAt_end]
      refine .pure ⟨rfl, hpos, ?_⟩
      show (⟨[], pos + 1⟩ : JsonReader) = ⟨(readerAt text (pos + 1) (pos + 1)).rest, pos + 1⟩
      rw [readerAt_end]

/-- A byte that the test has seen is there. -/
theorem lt_of_next {p : UInt8 → Bool} (hpos : pos ≤ size)
    (h : (readerAt text size pos).next p = true) : pos < size := by
  rcases Nat.lt_or_ge pos size with hlt | hend
  · exact hlt
  · have hend : pos = size := by omega
    subst hend
    rw [JsonReader.next, readerAt_end] at h
    exact absurd h Bool.false_ne_true

theorem sim_lengthDigits (hpos : pos ≤ size) (hn : size < n) :
    Sim text size (WithAt text size) (lengthDigits size n pos)
      (Dld.lengthDigits (readerAt text size pos)) := by
  rw [lengthDigits, Dld.lengthDigits]
  apply sim_next hpos
  split
  · exact .fail _ _
  next hsome =>
  have hlt : pos < size := lt_of_next hpos (Bool.eq_true_of_not_eq_false hsome)
  have hdigit : isDigit (text pos) = true := by
    rw [JsonReader.next, readerAt_of_lt hlt] at hsome
    exact Bool.eq_true_of_not_eq_false hsome
  have hnext : (readerAt text size pos).next (· == charZero) = (text pos == charZero) := by
    rw [JsonReader.next, readerAt_of_lt hlt]
    rfl
  apply sim_load hlt
  rw [hnext, readerAt_advance hlt]
  by_cases hzero : text pos = charZero
  · rw [if_pos hzero, if_pos (beq_iff_eq.mpr hzero)]
    apply sim_next hlt
    dsimp only
    split
    · exact .fail _ _
    · exact .pure ⟨rfl, at_readerAt hlt⟩
  · rw [if_neg hzero, if_neg (mt beq_iff_eq.mp hzero)]
    exact sim_digitLoop (by decide) hlt hdigit (by omega)

/-- The reader behind an optional byte. -/
theorem readerAt_ite (text : Nat → UInt8) {p : UInt8 → Bool} (hpos : pos ≤ size) :
    ∃ pos', (if (readerAt text size pos).next p then pos + 1 else pos) = pos' ∧ pos' ≤ size ∧
      (if (readerAt text size pos).next p then (readerAt text size pos).advance
        else readerAt text size pos) = readerAt text size pos' := by
  split
  · next h =>
    have hlt := lt_of_next hpos h
    exact ⟨_, rfl, hlt, readerAt_advance hlt⟩
  · exact ⟨_, rfl, hpos, rfl⟩

theorem sim_jsonLength (hpos : pos ≤ size) (hn : size < n) :
    Sim text size (WithAt text size) (jsonLength size n pos)
      (Dld.jsonLength (readerAt text size pos)) := by
  apply (sim_whitespace hpos (by omega)).step
  rintro pos ⟨hpos, hr⟩
  obtain ⟨pos', hpos', hle, hr'⟩ := readerAt_ite text (p := (· == charMinus)) hpos
  rw [Dld.jsonLength, hr]
  apply sim_next hpos
  dsimp only
  rw [hpos', hr']
  apply (sim_lengthDigits hle hn).bind
  rintro ⟨value, pos⟩ ⟨value', r⟩ ⟨rfl, hpos, rfl⟩ -
  dsimp only
  split
  · exact .fail _ _
  apply sim_next hpos
  split
  · exact .fail _ _
  · exact .pure ⟨rfl, at_readerAt hpos⟩

/-! ### The members -/

theorem sim_lengthSeparator {i : Fin 6} (hpos : pos ≤ size) (hn : size < n) :
    Sim text size (At text size) (lengthSeparator size n pos i)
      (Dld.lengthSeparator (readerAt text size pos) i) := by
  rw [lengthSeparator, Dld.lengthSeparator]
  split
  · exact sim_token hpos hn
  · exact .pure (at_readerAt hpos)

theorem sim_parseLengths {lengths : Fin 6 → Word} {is : List (Fin 6)} (hpos : pos ≤ size)
    (hn : size < n) :
    Sim text size (WithAt text size) (parseLengths size n pos lengths is)
      (Dld.parseLengths (readerAt text size pos) lengths is) := by
  induction is generalizing pos lengths with
  | nil => exact .pure ⟨rfl, at_readerAt hpos⟩
  | cons i rest ih =>
    apply (sim_lengthSeparator hpos hn).bind
    rintro pos _ ⟨hpos, rfl⟩ -
    apply (sim_jsonLength hpos hn).bind
    rintro ⟨value, pos⟩ ⟨_, _⟩ ⟨rfl, hpos, rfl⟩ -
    exact ih hpos

theorem sim_parseMember {name : List Char} {m : Members} (hpos : pos ≤ size) (hn : size < n) :
    Sim text size (WithAt text size) (parseMember size n name pos m)
      (Dld.parseMember name (readerAt text size pos) m) := by
  rw [parseMember, Dld.parseMember]
  split
  · split
    · exact .fail _ _
    apply (sim_jsonName hpos hn).bind
    rintro ⟨profile, pos⟩ ⟨_, _⟩ ⟨rfl, hpos, rfl⟩ -
    dsimp only
    rcases profileNamed profile with - | id
    · exact .fail _ _
    · exact .pure ⟨rfl, at_readerAt hpos⟩
  split
  · split
    · exact .fail _ _
    apply (sim_token hpos hn).bind
    rintro pos _ ⟨hpos, rfl⟩ -
    apply (sim_parseLengths hpos hn).bind
    rintro ⟨lengths, pos⟩ ⟨_, _⟩ ⟨rfl, hpos, rfl⟩ -
    apply (sim_token hpos hn).bind
    rintro pos _ ⟨hpos, rfl⟩ -
    exact .pure ⟨rfl, at_readerAt hpos⟩
  · exact .fail _ _

/-- The fields still to be seen. -/
def unseen (m : Members) : Nat :=
  (if m.seenType then 0 else 1) + if m.seenLengths then 0 else 1

/-- A member that is read was still to be seen. -/
theorem unseen_parseMember {name : List Char} {r : JsonReader} {m : Members}
    {out : Members × JsonReader} (h : Dld.parseMember name r m = .ok out) :
    unseen out.1 < unseen m := by
  unfold Dld.parseMember at h
  split_ifs at h with htype hseen hlengths hseen
  · exact absurd h jsonFail_ne
  · obtain ⟨⟨profile, r₁⟩, -, h⟩ := Json.bind_ok h
    dsimp only at h
    rcases hid : profileNamed profile with - | id
    · rw [hid] at h
      exact absurd h jsonFail_ne
    · rw [hid] at h
      cases h
      simp [unseen, hseen]
  · exact absurd h jsonFail_ne
  · obtain ⟨r₁, -, h⟩ := Json.bind_ok h
    obtain ⟨⟨lengths, r₂⟩, -, h⟩ := Json.bind_ok h
    obtain ⟨r₃, -, h⟩ := Json.bind_ok h
    cases h
    simp [unseen, hseen]
  · exact absurd h jsonFail_ne

/-- A round more than there are fields to be seen is enough for either loop. -/
theorem sim_parseMembers {k k' : Nat} {m : Members} (hpos : pos ≤ size) (hn : size < n)
    (hk : unseen m < k) (hk' : unseen m < k') :
    Sim text size (WithAt text size) (parseMembers size n k pos m)
      (Dld.parseMembers k' (readerAt text size pos) m) := by
  induction k generalizing pos m k' with
  | zero => omega
  | succ k ih =>
    obtain ⟨k', rfl⟩ : ∃ j, k' = j + 1 := ⟨k' - 1, by omega⟩
    rw [parseMembers, Dld.parseMembers]
    apply (sim_whitespace hpos (by omega)).step
    rintro pos ⟨hpos, hr⟩
    rw [hr]
    apply sim_next hpos
    dsimp only
    split
    · next hempty =>
      have hlt := lt_of_next hpos hempty
      rw [readerAt_advance hlt]
      exact .pure ⟨rfl, at_readerAt hlt⟩
    apply (sim_jsonName hpos hn).bind
    rintro ⟨name, pos⟩ ⟨_, _⟩ ⟨rfl, hpos, rfl⟩ -
    apply (sim_token hpos hn).bind
    rintro pos _ ⟨hpos, rfl⟩ -
    apply (sim_parseMember hpos hn).bind
    rintro ⟨m', pos⟩ ⟨_, _⟩ ⟨rfl, hpos, rfl⟩ hread
    have hless := unseen_parseMember hread
    apply (sim_whitespace hpos (by omega)).step
    rintro pos ⟨hpos, hr⟩
    dsimp only
    rw [hr]
    apply sim_next hpos
    split
    · next hlast =>
      have hlt := lt_of_next hpos hlast
      rw [readerAt_advance hlt]
      exact .pure ⟨rfl, at_readerAt hlt⟩
    apply (sim_token hpos hn).bind
    rintro pos _ ⟨hpos, rfl⟩ -
    apply (sim_whitespace hpos (by omega)).step
    rintro pos ⟨hpos, hr⟩
    rw [hr]
    split
    · next hend =>
      subst hend
      rw [readerAt_end]
      exact .fail _ _
    next hend =>
    have hlt : pos < size := by omega
    apply sim_load hlt
    have hnext : (readerAt text size pos).next (· == charCloseBrace) =
        (text pos == charCloseBrace) := by
      rw [JsonReader.next, readerAt_of_lt hlt]
      rfl
    rw [hnext, readerAt_of_lt hlt]
    by_cases hclose : text pos = charCloseBrace
    · rw [if_pos hclose, if_pos (by simp [hclose])]
      exact .fail _ _
    · rw [if_neg hclose, if_neg (by simp [hclose])]
      exact ih hpos (by dsimp only at hless; omega) (by dsimp only at hless; omega)

theorem sim_parseConfig (text : Nat → UInt8) (hn : size + 3 ≤ n) :
    Sim text size (· = ·) (parseConfig size n)
      (Dld.parseConfig ((List.range size).map text)) := by
  have hstart : (⟨(List.range size).map text, 0⟩ : JsonReader) = readerAt text size 0 := by
    rw [readerAt, List.range_eq_range', Nat.sub_zero]
  rw [parseConfig, Dld.parseConfig, hstart]
  apply (sim_token (Nat.zero_le _) (by omega)).bind
  rintro pos _ ⟨hpos, rfl⟩ -
  have hrounds : unseen {} < n := show 2 < n by omega
  apply (sim_parseMembers hpos (by omega) hrounds (by decide)).bind
  rintro ⟨m, pos⟩ ⟨_, _⟩ ⟨rfl, hpos, rfl⟩ -
  apply (sim_whitespace hpos (by omega)).step
  rintro pos ⟨hpos, hr⟩
  dsimp only
  rw [hr]
  by_cases hend : pos = size
  · subst hend
    rw [if_neg (not_not.mpr rfl), if_neg (not_not.mpr readerAt_end)]
    split
    · exact .fail _ _
    · exact .pure rfl
  · have hlt : pos < size := by omega
    have hrest : (readerAt text size pos).rest ≠ [] := by
      rw [readerAt_of_lt hlt]
      exact List.cons_ne_nil _ _
    rw [if_pos hend, if_pos hrest]
    exact .fail _ _

/-- The parser over the buffer is the parser of the buffer's bytes, within the
bounds. -/
theorem dldParseConfig_refines (text : Nat → UInt8) (hn : size + 3 ≤ n) (config : DldConfig)
    (error : String) (cap : Nat) :
    (∀ e ∈ ((dldParseConfig size n config error cap).exec (answers text)).1, Within size e) ∧
      ((dldParseConfig size n config error cap).exec (answers text)).2 =
        some (Dld.dldParseConfig ((List.range size).map text) config error cap) := by
  obtain ⟨hwithin, hagree⟩ := sim_parseConfig text hn
  rw [dldParseConfig, Prog.exec_bind, Dld.dldParseConfig]
  generalize ((parseConfig size n).run.exec (answers text)).1 = accesses at hwithin
  generalize ((parseConfig size n).run.exec (answers text)).2 = result at hagree
  generalize Dld.parseConfig ((List.range size).map text) = result' at hagree
  cases hagree with
  | ok heq =>
    cases heq
    refine ⟨fun e he => hwithin e ?_, rfl⟩
    simpa using he
  | message reason =>
    refine ⟨fun e he => hwithin e ?_, rfl⟩
    simpa using he

end Simulation

/-! ### Exactly the grammar -/

/-- **The parser on every buffer.**  Given rounds enough, which there are, it
returns; it accepts exactly the documents of the grammar, stores what they say
and else leaves `*config` alone; and it reads no byte past the buffer, writes
no byte past a name and accumulates nothing beyond 3009. -/
theorem dldParseConfig_exact (text : Nat → UInt8) (size : Nat) :
    ∃ rounds, ∀ n ≥ rounds, ∀ (config : DldConfig) (error : String) (cap : Nat),
      ∃ ok config' error',
        ((dldParseConfig size n config error cap).exec (answers text)).2 =
            some (ok, config', error') ∧
          (∀ parsed, Document ((List.range size).map text) parsed ↔
            ok = true ∧ config' = parsed) ∧
          (ok = false → config' = config) ∧
          ∀ e ∈ ((dldParseConfig size n config error cap).exec (answers text)).1,
            Within size e := by
  refine ⟨size + 3, fun n hn config error cap => ?_⟩
  obtain ⟨hwithin, hresult⟩ := dldParseConfig_refines text hn config error cap
  have hdocument := parseConfig_iff ((List.range size).map text)
  rw [hresult, Dld.dldParseConfig]
  rcases h : Dld.parseConfig ((List.range size).map text) with reason | parsed
  · refine ⟨false, config, _, rfl, fun parsed => ?_, fun _ => rfl, hwithin⟩
    rw [← hdocument parsed, h]
    exact ⟨nofun, fun hok => absurd hok.1 Bool.false_ne_true⟩
  · refine ⟨true, parsed, error, rfl, fun parsed' => ?_, nofun, hwithin⟩
    rw [← hdocument parsed', h]
    exact ⟨fun heq => ⟨rfl, Except.ok.inj heq⟩, fun heq => congrArg Except.ok heq.2⟩

end Dld.Buffer
