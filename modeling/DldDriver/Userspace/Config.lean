/-
DldDriver/Userspace/Config.lean

The configuration file: the JSON reader of `src/dld_common.c` and
`dld_parse_config`.

A reader is the bytes from `pos` on.  A failing function returns the text of
its message, which holds the position where it failed; `dld_parse_config`
writes it to the caller's buffer.
-/
import DldDriver.Userspace.Common
import Mathlib.Tactic.SplitIfs

namespace Dld

/-! ### The reader -/

/-- `struct json_reader` -/
structure JsonReader where
  /-- `text[pos], …, text[size - 1]` -/
  rest : List UInt8
  pos : Nat

abbrev Json := Except String

/-- `json_fail(r, message)` -/
def jsonFail {α : Type} (r : JsonReader) (message : String) : Json α :=
  .error ("configuration byte " ++ toString r.pos ++ ": " ++ message)

/-- `++r->pos` -/
def JsonReader.advance (r : JsonReader) : JsonReader := ⟨r.rest.tail, r.pos + 1⟩

abbrev charQuote : UInt8 := 0x22
abbrev charComma : UInt8 := 0x2c
abbrev charMinus : UInt8 := 0x2d
abbrev charDot : UInt8 := 0x2e
abbrev charSlash : UInt8 := 0x2f
abbrev charZero : UInt8 := 0x30
abbrev charNine : UInt8 := 0x39
abbrev charColon : UInt8 := 0x3a
abbrev charOpenBracket : UInt8 := 0x5b
abbrev charBackslash : UInt8 := 0x5c
abbrev charCloseBracket : UInt8 := 0x5d
abbrev charOpenBrace : UInt8 := 0x7b
abbrev charCloseBrace : UInt8 := 0x7d

/-- Blank, tab, carriage return or line feed. -/
def isBlank (c : UInt8) : Bool := c == 0x20 || c == 0x09 || c == 0x0d || c == 0x0a

def isDigit (c : UInt8) : Bool := charZero ≤ c && c ≤ charNine

def hexDigit (c : UInt8) : Option Nat :=
  if isDigit c then some (c.toNat - 0x30)
  else if 0x61 ≤ c ∧ c ≤ 0x66 then some (c.toNat - 0x61 + 10)
  else if 0x41 ≤ c ∧ c ≤ 0x46 then some (c.toNat - 0x41 + 10)
  else none

/-- The loop of `whitespace`. -/
def skipBlanks : List UInt8 → Nat → JsonReader
  | [], pos => ⟨[], pos⟩
  | c :: rest, pos => if isBlank c then skipBlanks rest (pos + 1) else ⟨c :: rest, pos⟩

def whitespace (r : JsonReader) : JsonReader := skipBlanks r.rest r.pos

def token (r : JsonReader) (wanted : UInt8) : Json JsonReader :=
  let r := whitespace r
  if r.rest.head? ≠ some wanted then jsonFail r "unexpected token" else .ok r.advance

/-! ### Strings -/

/-- The loop over the four digits after `\u`, `k` of them still to read. -/
def unicodeEscape (r : JsonReader) (c : Nat) : Nat → Json (Nat × JsonReader)
  | 0 => .ok (c, r)
  | k + 1 =>
    match r.rest with
    | [] => jsonFail r "incomplete Unicode escape"
    | digit :: _ =>
      match hexDigit digit with
      | none => jsonFail r.advance "invalid Unicode escape"
      | some h => unicodeEscape r.advance (c * 16 + h) k

/-- What follows a backslash: the character it stands for. -/
def escape (r : JsonReader) : Json (Nat × JsonReader) :=
  match r.rest with
  | [] => jsonFail r "incomplete escape"
  | c :: _ =>
    let r := r.advance
    if c = charQuote ∨ c = charBackslash ∨ c = charSlash then .ok (c.toNat, r)
    else if c = 0x62 then .ok (0x08, r)
    else if c = 0x66 then .ok (0x0c, r)
    else if c = 0x6e then .ok (0x0a, r)
    else if c = 0x72 then .ok (0x0d, r)
    else if c = 0x74 then .ok (0x09, r)
    else if c = 0x75 then unicodeEscape r 0 4
    else jsonFail r "invalid string escape"

/-- The character that `byte` begins. -/
def nameChar (byte : UInt8) (r : JsonReader) : Json (Nat × JsonReader) :=
  if byte = charBackslash then escape r else .ok (byte.toNat, r)

/-- The loop of `json_name`, with `out` as filled so far.  A round consumes
a byte at least, so that the length of the text is rounds enough. -/
def nameLoop (cap : Nat) : Nat → JsonReader → List Char → Json (List Char × JsonReader)
  | 0, r, _ => jsonFail r "unterminated string"
  | n + 1, r, out =>
    match r.rest with
    | [] => jsonFail r "unterminated string"
    | byte :: _ => do
      let r := r.advance
      if byte = charQuote then pure (out, r)
      else if byte < 0x20 then jsonFail r "unescaped control character"
      else do
      let (c, r) ← nameChar byte r
      if c = 0 ∨ c ≥ 0x80 then jsonFail r "unsupported field or profile name"
      else if out.length + 1 ≥ cap then jsonFail r "unknown name is too long"
      else nameLoop cap n r (out ++ [Char.ofNat c])

def jsonName (r : JsonReader) (cap : Nat) : Json (List Char × JsonReader) := do
  let r ← token r charQuote
  nameLoop cap r.rest.length r []

/-! ### Integers -/

/-- The loop over the digits of an integer. -/
def digitLoop (value : Word) : List UInt8 → Nat → Json (Word × JsonReader)
  | [], pos => .ok (value, ⟨[], pos⟩)
  | c :: rest, pos =>
    if isDigit c then
      let value := value * 10 + BitVec.ofNat 32 (c.toNat - 0x30)
      if value > maxLength then jsonFail ⟨rest, pos + 1⟩ "length exceeds 300"
      else digitLoop value rest (pos + 1)
    else .ok (value, ⟨c :: rest, pos⟩)

/-- Whether the next byte satisfies `p`. -/
def JsonReader.next (r : JsonReader) (p : UInt8 → Bool) : Bool := r.rest.head?.any p

/-- The digits of a length. -/
def lengthDigits (r : JsonReader) : Json (Word × JsonReader) :=
  if r.next isDigit = false then
    jsonFail r "length must be a JSON integer from 0 through 300"
  else if r.next (· == charZero) then
    let r := r.advance
    if r.next isDigit then jsonFail r "leading zero in integer" else .ok (0, r)
  else digitLoop 0 r.rest r.pos

def jsonLength (r : JsonReader) : Json (Word × JsonReader) := do
  let r := whitespace r
  let negative := r.next (· == charMinus)
  let r := if negative then r.advance else r
  let (value, r) ← lengthDigits r
  if negative ∧ value ≠ 0 then jsonFail r "negative string length"
  else if r.next fun c => c == charDot || c == 0x65 || c == 0x45 then
    jsonFail r "length must be an integer, not a fraction or exponent"
  else pure (value, r)

/-! ### The schema -/

/-- What the loop over the members carries: `parsed` and `seen`. -/
structure Members where
  config : DldConfig := default
  seenType : Bool := false
  seenLengths : Bool := false

/-- The identifier of a profile by its name. -/
def profileNamed (name : List Char) : Option Word :=
  if name = "ws2812b".toList then some profileWs2812b
  else if name = "ws2811-hs".toList then some profileWs2811Hs
  else if name = "ws2812b-bgr".toList then some profileWs2812bBgr
  else if name = "ws2811-hs-bgr".toList then some profileWs2811HsBgr
  else none

/-- The comma before every element but the first. -/
def lengthSeparator (r : JsonReader) (i : Fin 6) : Json JsonReader :=
  if i ≠ 0 then token r charComma else .ok r

/-- The loop over the elements of `string_lengths`. -/
def parseLengths (r : JsonReader) (lengths : Fin 6 → Word) :
    List (Fin 6) → Json ((Fin 6 → Word) × JsonReader)
  | [] => pure (lengths, r)
  | i :: rest => do
    let r ← lengthSeparator r i
    let (value, r) ← jsonLength r
    parseLengths r (Function.update lengths i value) rest

/-- The value of the member `name`. -/
def parseMember (name : List Char) (r : JsonReader) (m : Members) : Json (Members × JsonReader) := do
  if name = "pixel_type".toList then
    if m.seenType then jsonFail r "duplicate pixel_type field" else do
    let (profile, r) ← jsonName r 32
    match profileNamed profile with
    | none => jsonFail r "unknown pixel_type profile"
    | some id => pure ({ m with config := { m.config with profileId := id }, seenType := true }, r)
  else if name = "string_lengths".toList then
    if m.seenLengths then jsonFail r "duplicate string_lengths field" else do
    let r ← token r charOpenBracket
    let (lengths, r) ← parseLengths r m.config.stringLengths (List.finRange 6)
    let r ← token r charCloseBracket
    pure ({ m with config := { m.config with stringLengths := lengths }, seenLengths := true }, r)
  else jsonFail r "unknown configuration field"

/-- The loop over the members.  A round that does not end the loop has seen
one more of two fields, so that three rounds are enough. -/
def parseMembers : Nat → JsonReader → Members → Json (Members × JsonReader)
  | 0, r, _ => jsonFail r "unknown configuration field" -- not reached
  | n + 1, r, m => do
    let r := whitespace r
    if r.next (· == charCloseBrace) then pure (m, r.advance) else do
    let (name, r) ← jsonName r 32
    let r ← token r charColon
    let (m, r) ← parseMember name r m
    let r := whitespace r
    if r.next (· == charCloseBrace) then pure (m, r.advance) else do
    let r ← token r charComma
    let r := whitespace r
    if r.rest.isEmpty || r.next (· == charCloseBrace) then jsonFail r "trailing comma"
    else parseMembers n r m

/-- The parsed configuration, or the text of the message. -/
def parseConfig (json : List UInt8) : Json DldConfig := do
  let r ← token ⟨json, 0⟩ charOpenBrace
  let (m, r) ← parseMembers 3 r {}
  let r := whitespace r
  if r.rest ≠ [] then jsonFail r "trailing content after JSON object"
  else if m.seenType = false ∨ m.seenLengths = false then
    jsonFail r "pixel_type and string_lengths are required"
  else pure m.config

/-- The result, `*config` and the error buffer. -/
def dldParseConfig (json : List UInt8) (config : DldConfig) (error : String) (cap : Nat) :
    Bool × DldConfig × String :=
  match parseConfig json with
  | .ok parsed => (true, parsed, error)
  | .error text => (false, config, fail error cap text)

/-! ### What a configuration is -/

/-- A supported profile and six lengths within the limit. -/
structure DldConfig.Supported (config : DldConfig) : Prop where
  profile : dldProfileName config.profileId ≠ none
  lengths : ∀ i, config.stringLengths i ≤ maxLength

/-- What the members seen so far have made of the configuration. -/
structure Members.Sound (m : Members) : Prop where
  profile : m.seenType = true → dldProfileName m.config.profileId ≠ none
  lengths : m.seenLengths = true → ∀ i, m.config.stringLengths i ≤ maxLength

section Accepted

variable {α β : Type}

/-- A result comes through every step before it. -/
theorem Json.bind_ok {x : Json α} {f : α → Json β} {b : β} (h : (x >>= f) = .ok b) :
    ∃ a, x = .ok a ∧ f a = .ok b := by
  rcases x with message | a
  · exact nomatch h
  · exact ⟨a, rfl, h⟩

theorem jsonFail_ne {r : JsonReader} {message : String} {a : α} : jsonFail r message ≠ .ok a :=
  nofun

theorem digitLoop_le {value : Word} {text : List UInt8} {pos : Nat} {out : Word × JsonReader}
    (hvalue : value ≤ maxLength) (h : digitLoop value text pos = .ok out) : out.1 ≤ maxLength := by
  induction text generalizing value pos with
  | nil =>
    cases h
    exact hvalue
  | cons c rest ih =>
    rw [digitLoop] at h
    dsimp only at h
    split_ifs at h with hdigit hlarge
    · exact absurd h jsonFail_ne
    · exact ih (BitVec.not_lt.mp hlarge) h
    · cases h
      exact hvalue

theorem lengthDigits_le {r : JsonReader} {out : Word × JsonReader}
    (h : lengthDigits r = .ok out) : out.1 ≤ maxLength := by
  unfold lengthDigits at h
  dsimp only at h
  split_ifs at h with hnone hzero hleading
  · exact absurd h jsonFail_ne
  · exact absurd h jsonFail_ne
  · cases h
    show (0 : Word) ≤ maxLength
    decide
  · exact digitLoop_le (by decide) h

theorem jsonLength_le {r : JsonReader} {out : Word × JsonReader} (h : jsonLength r = .ok out) :
    out.1 ≤ maxLength := by
  obtain ⟨⟨value, r'⟩, hdigits, h⟩ := Json.bind_ok h
  dsimp only at h
  split_ifs at h with hnegative hfraction
  · exact absurd h jsonFail_ne
  · exact absurd h jsonFail_ne
  · cases h
    exact lengthDigits_le hdigits

/-- Every element that is read is within the limit. -/
theorem parseLengths_le {r : JsonReader} {lengths : Fin 6 → Word} {is : List (Fin 6)}
    {out : (Fin 6 → Word) × JsonReader} (h : parseLengths r lengths is = .ok out) (i : Fin 6)
    (hi : i ∈ is ∨ lengths i ≤ maxLength) : out.1 i ≤ maxLength := by
  induction is generalizing r lengths with
  | nil =>
    cases h
    exact hi.resolve_left List.not_mem_nil
  | cons j rest ih =>
    obtain ⟨r₁, -, h⟩ := Json.bind_ok h
    obtain ⟨⟨value, r₂⟩, hvalue, h⟩ := Json.bind_ok h
    refine ih h ?_
    by_cases hij : i = j
    · subst hij
      rw [Function.update_self]
      exact .inr (jsonLength_le hvalue)
    · rw [Function.update_of_ne hij]
      exact hi.imp_left fun hmem => (List.mem_cons.mp hmem).resolve_left hij

theorem profileNamed_supported {name : List Char} {id : Word} (h : profileNamed name = some id) :
    dldProfileName id ≠ none := by
  unfold profileNamed at h
  split_ifs at h <;> cases h <;> decide

theorem parseMember_sound {name : List Char} {r : JsonReader} {m : Members}
    {out : Members × JsonReader} (hm : m.Sound) (h : parseMember name r m = .ok out) :
    out.1.Sound := by
  unfold parseMember at h
  split_ifs at h with htype hseen hlengths hseen
  · exact absurd h jsonFail_ne
  · obtain ⟨⟨profile, r₁⟩, -, h⟩ := Json.bind_ok h
    dsimp only at h
    rcases hid : profileNamed profile with - | id
    · rw [hid] at h
      exact absurd h jsonFail_ne
    · rw [hid] at h
      cases h
      exact ⟨fun _ => profileNamed_supported hid, hm.lengths⟩
  · exact absurd h jsonFail_ne
  · obtain ⟨r₁, -, h⟩ := Json.bind_ok h
    obtain ⟨⟨lengths, r₂⟩, hread, h⟩ := Json.bind_ok h
    obtain ⟨r₃, -, h⟩ := Json.bind_ok h
    cases h
    exact ⟨hm.profile, fun _ i => parseLengths_le hread i (.inl (List.mem_finRange i))⟩
  · exact absurd h jsonFail_ne

theorem parseMembers_sound {n : Nat} {r : JsonReader} {m : Members} {out : Members × JsonReader}
    (hm : m.Sound) (h : parseMembers n r m = .ok out) : out.1.Sound := by
  induction n generalizing r m with
  | zero => exact absurd h jsonFail_ne
  | succ n ih =>
    rw [parseMembers] at h
    split at h
    · cases h
      exact hm
    obtain ⟨⟨name, r₁⟩, -, h⟩ := Json.bind_ok h
    obtain ⟨r₂, -, h⟩ := Json.bind_ok h
    obtain ⟨⟨m', r₃⟩, hmember, h⟩ := Json.bind_ok h
    have hm' := parseMember_sound hm hmember
    dsimp only at h
    split at h
    · cases h
      exact hm'
    obtain ⟨r₄, -, h⟩ := Json.bind_ok h
    split at h
    · exact absurd h jsonFail_ne
    · exact ih hm' h

/-- Whatever is accepted can be driven. -/
theorem parseConfig_supported {json : List UInt8} {config : DldConfig}
    (h : parseConfig json = .ok config) : config.Supported := by
  obtain ⟨r, -, h⟩ := Json.bind_ok h
  obtain ⟨⟨m, r'⟩, hmembers, h⟩ := Json.bind_ok h
  have hnone : ({} : Members).Sound :=
    ⟨fun h => absurd h Bool.false_ne_true, fun h => absurd h Bool.false_ne_true⟩
  have hm : m.Sound := parseMembers_sound hnone hmembers
  dsimp only at h
  split_ifs at h with htrailing hmissing
  · exact absurd h jsonFail_ne
  · exact absurd h jsonFail_ne
  · cases h
    simp only [not_or, Bool.not_eq_false] at hmissing
    exact ⟨hm.profile hmissing.1, hm.lengths hmissing.2⟩

end Accepted

end Dld
