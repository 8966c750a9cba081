/-
DldDriver/Userspace/ConfigGrammar.lean

What `dld_parse_config` accepts, as a grammar over the bytes of the file.

    CharLit     a character of a string, as it is or escaped
    StringLit   a string, by the characters it stands for
    LengthLit   an integer from 0 through 300
    ArrayLit    `[ … , … ]`
    Document    an object with the two members, in either order

A reading function is described by what it consumes: it succeeds exactly if
the text begins with a sentence of its part of the grammar.
-/
import DldDriver.Userspace.Config
import Mathlib.Data.List.DropRight
import Mathlib.Data.List.TakeWhile

namespace Dld

/-! ### The grammar -/

/-- White space. -/
def Blank (ws : List UInt8) : Prop := ∀ c ∈ ws, isBlank c = true

/-- The escapes of one character. -/
def shortEscapes : List (UInt8 × Nat) :=
  [(charQuote, 0x22), (charBackslash, 0x5c), (charSlash, 0x2f), (0x62, 0x08), (0x66, 0x0c),
    (0x6e, 0x0a), (0x72, 0x0d), (0x74, 0x09)]

/-- A character of a string and its code.  Bytes from 0x80 on stand for
themselves; no name has one. -/
inductive CharLit : List UInt8 → Nat → Prop
  | plain {c : UInt8} (hcontrol : 0x20 ≤ c) (hquote : c ≠ charQuote) (hescape : c ≠ charBackslash) :
      CharLit [c] c.toNat
  | short {e : UInt8} {code : Nat} (h : (e, code) ∈ shortEscapes) :
      CharLit [charBackslash, e] code
  | unicode {a b c d : UInt8} {ha hb hc hd : Nat} (h₁ : hexDigit a = some ha)
      (h₂ : hexDigit b = some hb) (h₃ : hexDigit c = some hc) (h₄ : hexDigit d = some hd) :
      CharLit [charBackslash, 0x75, a, b, c, d] (((ha * 16 + hb) * 16 + hc) * 16 + hd)

/-- The characters between the quotes. -/
inductive Chars : List UInt8 → List Nat → Prop
  | nil : Chars [] []
  | cons {lit rest : List UInt8} {code : Nat} {codes : List Nat} (h : CharLit lit code)
      (hrest : Chars rest codes) : Chars (lit ++ rest) (code :: codes)

/-- A string that decodes to `name`. -/
def StringLit (lit : List UInt8) (name : List Char) : Prop :=
  ∃ body, lit = charQuote :: body ++ [charQuote] ∧ Chars body (name.map Char.toNat)

/-- Digits without a leading zero. -/
structure Digits (ds : List UInt8) : Prop where
  nonempty : ds ≠ []
  digits : ∀ c ∈ ds, isDigit c = true
  leading : ds.head? = some charZero → ds = [charZero]

/-- The number that digits stand for, after the digits of `n`. -/
def digitsValue (n : Nat) (ds : List UInt8) : Nat :=
  ds.foldl (fun n c => n * 10 + (c.toNat - 0x30)) n

/-- An integer from 0 through 300; zero may have a minus. -/
def LengthLit (lit : List UInt8) (n : Nat) : Prop :=
  n ≤ 300 ∧ ∃ ds, Digits ds ∧ digitsValue 0 ds = n ∧ (lit = ds ∨ lit = charMinus :: ds ∧ n = 0)

/-- Further elements of an array, each after a comma. -/
inductive Items : List UInt8 → List Nat → Prop
  | nil : Items [] []
  | cons {a b lit rest : List UInt8} {n : Nat} {ns : List Nat} (ha : Blank a) (hb : Blank b)
      (h : LengthLit lit n) (hrest : Items rest ns) :
      Items (a ++ charComma :: (b ++ (lit ++ rest))) (n :: ns)

/-- An array of lengths. -/
def ArrayLit (lit : List UInt8) (n : Nat) (ns : List Nat) : Prop :=
  ∃ a first rest b, lit = charOpenBracket :: (a ++ (first ++ (rest ++ (b ++ [charCloseBracket])))) ∧
    Blank a ∧ LengthLit first n ∧ Items rest ns ∧ Blank b

/-- The names of the profiles. -/
def profiles : List (List Char × Word) :=
  [("ws2812b".toList, profileWs2812b), ("ws2811-hs".toList, profileWs2811Hs),
    ("ws2812b-bgr".toList, profileWs2812bBgr), ("ws2811-hs-bgr".toList, profileWs2811HsBgr)]

/-- `"pixel_type" : …` -/
def TypeMember (lit : List UInt8) (id : Word) : Prop :=
  ∃ name a b value profile, lit = name ++ (a ++ charColon :: (b ++ value)) ∧
    StringLit name "pixel_type".toList ∧ Blank a ∧ Blank b ∧ StringLit value profile ∧
    (profile, id) ∈ profiles

/-- `"string_lengths" : …`, six of them. -/
def LengthsMember (lit : List UInt8) (lengths : Fin 6 → Word) : Prop :=
  ∃ name a b value, lit = name ++ (a ++ charColon :: (b ++ value)) ∧
    StringLit name "string_lengths".toList ∧ Blank a ∧ Blank b ∧
    ArrayLit value (lengths 0).toNat ([1, 2, 3, 4, 5].map fun i : Fin 6 => (lengths i).toNat)

/-- **A configuration file**: one object with exactly two members. -/
def Document (text : List UInt8) (config : DldConfig) : Prop :=
  ∃ w₀ w₁ first w₂ w₃ second w₄ w₅,
    text = w₀ ++ charOpenBrace :: (w₁ ++ (first ++ (w₂ ++ charComma ::
      (w₃ ++ (second ++ (w₄ ++ charCloseBrace :: w₅)))))) ∧
    (Blank w₀ ∧ Blank w₁ ∧ Blank w₂ ∧ Blank w₃ ∧ Blank w₄ ∧ Blank w₅) ∧
    (TypeMember first config.profileId ∧ LengthsMember second config.stringLengths ∨
      LengthsMember first config.stringLengths ∧ TypeMember second config.profileId)

/-! ### White space -/

section Blank

variable {s s' ws : List UInt8} {w : UInt8} {r : JsonReader}

theorem skipBlanks_rest (s : List UInt8) (pos : Nat) :
    (skipBlanks s pos).rest = s.dropWhile isBlank := by
  induction s generalizing pos with
  | nil => rfl
  | cons c s ih =>
    rw [skipBlanks]
    by_cases hc : isBlank c = true
    · rw [if_pos hc, List.dropWhile_cons_of_pos hc]
      exact ih (pos + 1)
    · rw [if_neg hc, List.dropWhile_cons_of_neg hc]

theorem whitespace_rest (r : JsonReader) : (whitespace r).rest = r.rest.dropWhile isBlank :=
  skipBlanks_rest r.rest r.pos

/-- The text is blanks and then what is left, which begins with no blank. -/
theorem blank_takeWhile (s : List UInt8) : Blank (s.takeWhile isBlank) :=
  fun _ hc => List.mem_takeWhile_imp hc

theorem dropWhile_blank (hws : Blank ws) (s : List UInt8) :
    (ws ++ s).dropWhile isBlank = s.dropWhile isBlank :=
  List.dropWhile_append_of_pos hws

theorem dropWhile_solid (hw : isBlank w = false) (s : List UInt8) :
    (w :: s).dropWhile isBlank = w :: s :=
  List.dropWhile_cons_of_neg (by rw [hw]; exact Bool.false_ne_true)

/-- What white space before a character leaves. -/
theorem dropWhile_eq_cons_iff (hw : isBlank w = false) :
    s.dropWhile isBlank = w :: s' ↔ ∃ ws, Blank ws ∧ s = ws ++ w :: s' := by
  constructor
  · intro h
    refine ⟨s.takeWhile isBlank, blank_takeWhile s, ?_⟩
    rw [← h, List.takeWhile_append_dropWhile]
  · rintro ⟨ws, hws, rfl⟩
    rw [dropWhile_blank hws, dropWhile_solid hw]

/-- A token and what it leaves. -/
theorem token_iff : (∃ p, token r w = .ok ⟨s', p⟩) ↔ r.rest.dropWhile isBlank = w :: s' := by
  unfold token
  dsimp only
  rw [whitespace_rest]
  rcases hrest : r.rest.dropWhile isBlank with - | ⟨c, rest⟩
  · simp [jsonFail]
  · by_cases hc : c = w
    · subst hc
      have htail : (whitespace r).advance.rest = rest := by
        rw [JsonReader.advance, whitespace_rest, hrest]
        rfl
      simp only [List.head?_cons, ne_eq, not_true_eq_false, if_false, Except.ok.injEq]
      constructor
      · rintro ⟨p, hp⟩
        rw [hp] at htail
        exact congrArg (c :: ·) htail.symm
      · intro h
        cases h
        exact ⟨(whitespace r).advance.pos, by rw [← htail]⟩
    · simp [jsonFail, hc]

end Blank

/-! ### Strings -/

/-- The text is read as `a`, and `s'` is left. -/
def Reads {α : Type} (x : Json (α × JsonReader)) (a : α) (s' : List UInt8) : Prop :=
  ∃ p, x = .ok (a, ⟨s', p⟩)

section Reads

variable {α β : Type} {s s' : List UInt8} {r : JsonReader}

theorem not_reads_fail {message : String} {a : α} : ¬ Reads (jsonFail r message) a s' :=
  fun ⟨_, h⟩ => jsonFail_ne h

theorem reads_ok {a b : α} : Reads (.ok (a, r)) b s' ↔ a = b ∧ r.rest = s' := by
  constructor
  · rintro ⟨p, h⟩
    cases h
    exact ⟨rfl, rfl⟩
  · rintro ⟨rfl, rfl⟩
    exact ⟨r.pos, rfl⟩

theorem reads_bind {x : Json (α × JsonReader)} {f : α × JsonReader → Json (β × JsonReader)}
    {b : β} : Reads (x >>= f) b s' ↔
      ∃ a s p, x = .ok (a, ⟨s, p⟩) ∧ Reads (f (a, ⟨s, p⟩)) b s' := by
  constructor
  · rintro ⟨p, h⟩
    obtain ⟨⟨a, ⟨s, q⟩⟩, hx, hf⟩ := Json.bind_ok h
    exact ⟨a, s, q, hx, p, hf⟩
  · rintro ⟨a, s, q, rfl, p, hf⟩
    exact ⟨p, hf⟩

/-- The token before a reading. -/
theorem reads_token {w : UInt8} {f : JsonReader → Json (β × JsonReader)} {b : β} :
    Reads (token r w >>= f) b s' ↔
      ∃ s p, r.rest.dropWhile isBlank = w :: s ∧ token r w = .ok ⟨s, p⟩ ∧ Reads (f ⟨s, p⟩) b s' := by
  constructor
  · rintro ⟨p, h⟩
    obtain ⟨⟨s, q⟩, hx, hf⟩ := Json.bind_ok h
    exact ⟨s, q, token_iff.mp ⟨q, hx⟩, hx, p, hf⟩
  · rintro ⟨s, q, -, hx, p, hf⟩
    exact ⟨p, by rw [hx]; exact hf⟩

end Reads

section Strings

variable {s' : List UInt8} {r : JsonReader} {code : Nat}

/-- The digits after `\u`, `k` of them. -/
theorem unicodeEscape_four : Reads (unicodeEscape r 0 4) code s' ↔
    ∃ a b c d ha hb hc hd, hexDigit a = some ha ∧ hexDigit b = some hb ∧ hexDigit c = some hc ∧
      hexDigit d = some hd ∧ r.rest = a :: b :: c :: d :: s' ∧
      code = ((ha * 16 + hb) * 16 + hc) * 16 + hd := by
  -- one digit and the rest
  have hstep (r : JsonReader) (n k : Nat) : Reads (unicodeEscape r n (k + 1)) code s' ↔
      ∃ digit h rest, r.rest = digit :: rest ∧ hexDigit digit = some h ∧
        Reads (unicodeEscape ⟨rest, r.pos + 1⟩ (n * 16 + h) k) code s' := by
    obtain ⟨rest, pos⟩ := r
    rw [unicodeEscape]
    rcases rest with - | ⟨digit, rest⟩
    · exact ⟨fun h => absurd h not_reads_fail, fun ⟨_, _, _, h, _⟩ => nomatch h⟩
    · dsimp only
      rcases hdigit : hexDigit digit with - | h
      · constructor
        · exact fun h => absurd h not_reads_fail
        · rintro ⟨_, _, _, heq, hsome, -⟩
          cases heq
          rw [hdigit] at hsome
          cases hsome
      · constructor
        · exact fun hreads => ⟨digit, h, rest, rfl, hdigit, hreads⟩
        · rintro ⟨_, _, _, heq, hsome, hreads⟩
          cases heq
          rw [hdigit] at hsome
          cases hsome
          exact hreads
  rw [hstep]
  constructor
  · rintro ⟨a, ha, s₁, h₁, hda, hreads⟩
    obtain ⟨b, hb, s₂, h₂, hdb, hreads⟩ := (hstep _ _ _).mp hreads
    obtain ⟨c, hc, s₃, h₃, hdc, hreads⟩ := (hstep _ _ _).mp hreads
    obtain ⟨d, hd, s₄, h₄, hdd, hreads⟩ := (hstep _ _ _).mp hreads
    obtain ⟨rfl, rfl⟩ := reads_ok.mp hreads
    dsimp only at h₂ h₃ h₄
    rw [h₁, h₂, h₃, h₄]
    exact ⟨a, b, c, d, ha, hb, hc, hd, hda, hdb, hdc, hdd, rfl, by omega⟩
  · rintro ⟨a, b, c, d, ha, hb, hc, hd, hda, hdb, hdc, hdd, hrest, rfl⟩
    refine ⟨a, ha, _, hrest, hda, ?_⟩
    refine (hstep _ _ _).mpr ⟨b, hb, _, rfl, hdb, ?_⟩
    refine (hstep _ _ _).mpr ⟨c, hc, _, rfl, hdc, ?_⟩
    refine (hstep _ _ _).mpr ⟨d, hd, _, rfl, hdd, ?_⟩
    exact reads_ok.mpr ⟨by omega, rfl⟩

/-- What is read after a backslash. -/
theorem escape_iff : Reads (escape r) code s' ↔
    (∃ e, (e, code) ∈ shortEscapes ∧ r.rest = e :: s') ∨
      ∃ a b c d ha hb hc hd, hexDigit a = some ha ∧ hexDigit b = some hb ∧ hexDigit c = some hc ∧
        hexDigit d = some hd ∧ r.rest = 0x75 :: a :: b :: c :: d :: s' ∧
        code = ((ha * 16 + hb) * 16 + hc) * 16 + hd := by
  obtain ⟨rest, pos⟩ := r
  unfold escape
  rcases rest with - | ⟨e, rest⟩
  · simp [not_reads_fail]
  dsimp only
  by_cases hunicode : e = 0x75
  · subst hunicode
    have hshort : ∀ p ∈ shortEscapes, p.1 ≠ 0x75 := by decide
    rw [if_neg (by decide), if_neg (by decide), if_neg (by decide), if_neg (by decide),
      if_neg (by decide), if_neg (by decide), if_pos rfl, unicodeEscape_four]
    constructor
    · rintro ⟨a, b, c, d, ha, hb, hc, hd, hda, hdb, hdc, hdd, hrest, hcode⟩
      exact .inr ⟨a, b, c, d, ha, hb, hc, hd, hda, hdb, hdc, hdd, congrArg (0x75 :: ·) hrest, hcode⟩
    · rintro (⟨e, he, hrest⟩ | ⟨a, b, c, d, ha, hb, hc, hd, hda, hdb, hdc, hdd, hrest, hcode⟩)
      · cases hrest
        exact absurd rfl (hshort _ he)
      · exact ⟨a, b, c, d, ha, hb, hc, hd, hda, hdb, hdc, hdd, (List.cons.inj hrest).2, hcode⟩
  · have hright : (∃ e', (e', code) ∈ shortEscapes ∧ e :: rest = e' :: s') ↔
        (e, code) ∈ shortEscapes ∧ rest = s' := by
      constructor
      · rintro ⟨e', he', heq⟩
        cases heq
        exact ⟨he', rfl⟩
      · rintro ⟨he, rfl⟩
        exact ⟨e, he, rfl⟩
    rw [hright]
    constructor
    · intro h
      left
      split_ifs at h with hsame hb hf hn hr ht
      · obtain ⟨rfl, rfl⟩ := reads_ok.mp h
        refine ⟨?_, rfl⟩
        rcases hsame with rfl | rfl | rfl <;> decide
      all_goals
        first
        | exact absurd h not_reads_fail
        | (obtain ⟨rfl, rfl⟩ := reads_ok.mp h
           subst e
           exact ⟨by decide, rfl⟩)
    · rintro (⟨hmem, rfl⟩ | ⟨a, b, c, d, ha, hb, hc, hd, -, -, -, -, hrest, -⟩)
      · simp only [shortEscapes, List.mem_cons, Prod.mk.injEq, List.not_mem_nil, or_false] at hmem
        rcases hmem with ⟨rfl, rfl⟩ | ⟨rfl, rfl⟩ | ⟨rfl, rfl⟩ | ⟨rfl, rfl⟩ | ⟨rfl, rfl⟩ |
          ⟨rfl, rfl⟩ | ⟨rfl, rfl⟩ | ⟨rfl, rfl⟩ <;> exact ⟨_, rfl⟩
      · exact absurd (List.cons.inj hrest).1 hunicode

/-- One character of a string. -/
theorem nameChar_iff {byte : UInt8} (hquote : byte ≠ charQuote) (hcontrol : ¬ byte < 0x20) :
    Reads (nameChar byte r) code s' ↔ ∃ lit, CharLit lit code ∧ byte :: r.rest = lit ++ s' := by
  rw [nameChar]
  by_cases hescape : byte = charBackslash
  · subst hescape
    rw [if_pos rfl, escape_iff]
    constructor
    · rintro (⟨e, he, hrest⟩ | ⟨a, b, c, d, ha, hb, hc, hd, hda, hdb, hdc, hdd, hrest, rfl⟩)
      · exact ⟨_, .short he, by rw [hrest]; rfl⟩
      · exact ⟨_, .unicode hda hdb hdc hdd, by rw [hrest]; rfl⟩
    · rintro ⟨lit, hlit, heq⟩
      cases hlit with
      | plain hcontrol hquote hescape => exact absurd (List.cons.inj heq).1.symm hescape
      | short he => exact .inl ⟨_, he, (List.cons.inj heq).2⟩
      | unicode hda hdb hdc hdd =>
        exact .inr ⟨_, _, _, _, _, _, _, _, hda, hdb, hdc, hdd, (List.cons.inj heq).2, rfl⟩
  · rw [if_neg hescape, reads_ok]
    constructor
    · rintro ⟨rfl, rfl⟩
      exact ⟨[byte], .plain (UInt8.not_lt.mp hcontrol) hquote hescape, rfl⟩
    · rintro ⟨lit, hlit, heq⟩
      cases hlit with
      | plain =>
        obtain ⟨rfl, hrest⟩ := List.cons.inj heq
        exact ⟨rfl, hrest⟩
      | short => exact absurd (List.cons.inj heq).1 hescape
      | unicode => exact absurd (List.cons.inj heq).1 hescape

theorem CharLit.head {lit : List UInt8} (h : CharLit lit code) :
    ∃ c rest, lit = c :: rest ∧ c ≠ charQuote ∧ ¬ c < 0x20 := by
  cases h with
  | plain hcontrol hquote hescape => exact ⟨_, _, rfl, hquote, UInt8.not_lt.mpr hcontrol⟩
  | short => exact ⟨_, _, rfl, by decide, by decide⟩
  | unicode => exact ⟨_, _, rfl, by decide, by decide⟩

/-- The characters up to the closing quote. -/
theorem nameLoop_iff {cap n : Nat} {out name : List Char} (hn : r.rest.length ≤ n)
    (hout : out.length < cap) : Reads (nameLoop cap n r out) name s' ↔
      ∃ body codes, Chars body codes ∧ r.rest = body ++ charQuote :: s' ∧
        name = out ++ codes.map Char.ofNat ∧ (∀ code ∈ codes, code ≠ 0 ∧ code < 0x80) ∧
        out.length + codes.length < cap := by
  induction n generalizing r out with
  | zero =>
    have hnil : r.rest = [] := List.eq_nil_of_length_eq_zero (Nat.le_zero.mp hn)
    constructor
    · exact fun h => absurd h not_reads_fail
    · rintro ⟨body, codes, -, hrest, -⟩
      rw [hnil] at hrest
      exact absurd hrest.symm (List.append_ne_nil_of_right_ne_nil _ (List.cons_ne_nil _ _))
  | succ n ih =>
    obtain ⟨rest, pos⟩ := r
    rcases rest with - | ⟨byte, rest⟩
    · constructor
      · exact fun h => absurd h not_reads_fail
      · rintro ⟨body, codes, -, hrest, -⟩
        exact absurd hrest.symm (List.append_ne_nil_of_right_ne_nil _ (List.cons_ne_nil _ _))
    rw [nameLoop]
    dsimp only
    by_cases hquote : byte = charQuote
    · -- the string ends here
      rw [if_pos hquote]
      subst hquote
      constructor
      · intro h
        obtain ⟨rfl, rfl⟩ := reads_ok.mp h
        exact ⟨[], [], .nil, rfl, (List.append_nil out).symm, fun _ h => (nomatch h), hout⟩
      · rintro ⟨body, codes, hchars, hrest, rfl, -⟩
        cases hchars with
        | nil =>
          cases hrest
          exact reads_ok.mpr ⟨(List.append_nil out).symm, rfl⟩
        | cons hlit _ =>
          obtain ⟨c, more, rfl, hne, -⟩ := hlit.head
          exact absurd (List.cons.inj hrest).1.symm hne
    rw [if_neg hquote]
    by_cases hcontrol : byte < 0x20
    · rw [if_pos hcontrol]
      constructor
      · exact fun h => absurd h not_reads_fail
      · rintro ⟨body, codes, hchars, hrest, -⟩
        cases hchars with
        | nil => exact absurd (List.cons.inj hrest).1 hquote
        | cons hlit _ =>
          obtain ⟨c, more, rfl, -, hge⟩ := hlit.head
          rw [← (List.cons.inj hrest).1] at hge
          exact absurd hcontrol hge
    rw [if_neg hcontrol, reads_bind]
    have hchar {code : Nat} {s : List UInt8} :
        Reads (nameChar byte (⟨byte :: rest, pos⟩ : JsonReader).advance) code s ↔
          ∃ lit, CharLit lit code ∧ byte :: rest = lit ++ s := nameChar_iff hquote hcontrol
    constructor
    · rintro ⟨code, s, p, hread, h⟩
      obtain ⟨lit, hlit, heq⟩ := hchar.mp ⟨p, hread⟩
      dsimp only at h
      split_ifs at h with hbad hlong
      · exact absurd h not_reads_fail
      · exact absurd h not_reads_fail
      obtain ⟨c, more, rfl, -, -⟩ := hlit.head
      have hlength : (byte :: rest).length = (c :: more ++ s).length := congrArg List.length heq
      simp only [List.length_cons, List.length_append] at hlength hn
      obtain ⟨body, codes, hchars, hs, rfl, hcodes, hcap⟩ :=
        (ih (r := ⟨s, p⟩) (show s.length ≤ n by omega) (by simp; omega)).mp h
      refine ⟨_, code :: codes, .cons hlit hchars, ?_, ?_, ?_, ?_⟩
      · show byte :: rest = _
        rw [List.append_assoc, ← (hs : s = _)]
        exact heq
      · simp
      · rw [List.forall_mem_cons]
        exact ⟨by omega, hcodes⟩
      · simp only [List.length_append, List.length_cons, List.length_nil] at hcap ⊢
        omega
    · rintro ⟨body, codes, hchars, hrest, rfl, hcodes, hcap⟩
      cases hchars with
      | nil => exact absurd (List.cons.inj hrest).1 hquote
      | @cons lit body code codes hlit hchars =>
        rw [List.append_assoc] at hrest
        obtain ⟨p, hread⟩ := hchar.mpr ⟨lit, hlit, hrest⟩
        obtain ⟨hcode, hcodes⟩ := List.forall_mem_cons.mp hcodes
        simp only [List.length_cons] at hcap
        refine ⟨code, _, p, hread, ?_⟩
        dsimp only
        rw [if_neg (by omega), if_neg (by omega)]
        obtain ⟨c, more, rfl, -, -⟩ := hlit.head
        have hlength := congrArg List.length hrest
        simp only [List.length_cons, List.length_append] at hlength hn
        refine (ih ?_ ?_).mpr ⟨body, codes, hchars, rfl, ?_, hcodes, ?_⟩
        · simp only [List.length_append, List.length_cons]
          omega
        · simp only [List.length_append, List.length_cons, List.length_nil]
          omega
        · simp
        · simp only [List.length_append, List.length_cons, List.length_nil]
          omega

theorem toNat_ofNat_ascii : ∀ code < 0x80, (Char.ofNat code).toNat = code := by decide

/-- A name of ASCII characters. -/
def Ascii (name : List Char) : Prop := ∀ c ∈ name, c.toNat ≠ 0 ∧ c.toNat < 0x80

/-- A string after white space. -/
theorem jsonName_iff {cap : Nat} {name : List Char} (hcap : 0 < cap) :
    Reads (jsonName r cap) name s' ↔ ∃ ws lit, Blank ws ∧ r.rest = ws ++ (lit ++ s') ∧
      StringLit lit name ∧ Ascii name ∧ name.length < cap := by
  rw [jsonName, reads_token]
  have hback (codes : List Nat) (h : ∀ code ∈ codes, code ≠ 0 ∧ code < 0x80) :
      (codes.map Char.ofNat).map Char.toNat = codes := by
    rw [List.map_map]
    conv => rhs; rw [← List.map_id codes]
    apply List.map_congr_left
    intro code hcode
    exact toNat_ofNat_ascii code (h code hcode).2
  constructor
  · rintro ⟨s, p, hws, -, h⟩
    obtain ⟨ws, hblank, hrest⟩ := (dropWhile_eq_cons_iff (by decide)).mp hws
    obtain ⟨body, codes, hchars, hs, rfl, hcodes, hcap⟩ := (nameLoop_iff le_rfl hcap).mp h
    rw [List.nil_append]
    have hs : s = body ++ charQuote :: s' := hs
    refine ⟨ws, charQuote :: body ++ [charQuote], hblank, ?_, ⟨body, rfl, ?_⟩, ?_, ?_⟩
    · rw [hrest, hs]
      simp
    · rw [hback codes hcodes]
      exact hchars
    · intro c hc
      obtain ⟨code, hcode, rfl⟩ := List.mem_map.mp hc
      have hcodes := hcodes code hcode
      rw [toNat_ofNat_ascii code hcodes.2]
      exact hcodes
    · simpa using hcap
  · rintro ⟨ws, lit, hblank, hrest, ⟨body, rfl, hchars⟩, hascii, hlength⟩
    have hws : r.rest.dropWhile isBlank = charQuote :: (body ++ charQuote :: s') :=
      (dropWhile_eq_cons_iff (by decide)).mpr ⟨ws, hblank, by rw [hrest]; simp⟩
    obtain ⟨p, hp⟩ := token_iff.mpr hws
    refine ⟨_, p, hws, hp, (nameLoop_iff le_rfl hcap).mpr ⟨body, _, hchars, rfl, ?_, ?_, ?_⟩⟩
    · rw [List.nil_append, List.map_map]
      conv => lhs; rw [← List.map_id name]
      apply List.map_congr_left
      intro c _
      exact (Char.ofNat_toNat c).symm
    · intro code hcode
      obtain ⟨c, hc, rfl⟩ := List.mem_map.mp hcode
      exact hascii c hc
    · rw [List.length_map]
      simpa using hlength

end Strings

/-! ### Integers -/

section Integers

variable {s s' : List UInt8} {r : JsonReader} {out : Word}

theorem digitsValue_cons (n : Nat) (c : UInt8) (ds : List UInt8) :
    digitsValue n (c :: ds) = digitsValue (n * 10 + (c.toNat - 0x30)) ds := by
  rw [digitsValue, digitsValue, List.foldl_cons]

theorem le_digitsValue (n : Nat) (ds : List UInt8) : n ≤ digitsValue n ds := by
  induction ds generalizing n with
  | nil => exact le_rfl
  | cons c ds ih =>
    rw [digitsValue_cons]
    exact le_trans (by omega) (ih _)

theorem digit_le {c : UInt8} (h : isDigit c = true) : c.toNat - 0x30 ≤ 9 := by
  simp only [isDigit, Bool.and_eq_true, decide_eq_true_eq] at h
  have hle : c.toNat ≤ 0x39 := h.2
  omega

/-- A step of the accumulation does not wrap. -/
theorem accumulate_toNat {value : Word} {c : UInt8} (hvalue : value.toNat ≤ 300)
    (hc : isDigit c = true) : (value * 10 + BitVec.ofNat 32 (c.toNat - 0x30)).toNat =
      value.toNat * 10 + (c.toNat - 0x30) := by
  have hdigit := digit_le hc
  have hten : (10 : Word).toNat = 10 := rfl
  rw [BitVec.toNat_add, BitVec.toNat_mul, BitVec.toNat_ofNat, hten]
  omega

/-- What is left begins with no digit. -/
def NoDigit (s : List UInt8) : Prop := ∀ c ∈ s.head?, isDigit c = false

theorem digitLoop_iff {value : Word} {pos : Nat} (hvalue : value.toNat ≤ 300) :
    Reads (digitLoop value s pos) out s' ↔ ∃ ds, s = ds ++ s' ∧ (∀ c ∈ ds, isDigit c = true) ∧
      NoDigit s' ∧ out.toNat = digitsValue value.toNat ds ∧ digitsValue value.toNat ds ≤ 300 := by
  induction s generalizing value pos with
  | nil =>
    constructor
    · intro h
      obtain ⟨rfl, rfl⟩ := reads_ok.mp h
      exact ⟨[], rfl, fun _ h => (nomatch h), fun _ h => (nomatch h), rfl, hvalue⟩
    · rintro ⟨ds, hnil, -, -, hout, -⟩
      obtain ⟨rfl, rfl⟩ := List.append_eq_nil_iff.mp hnil.symm
      exact reads_ok.mpr ⟨BitVec.eq_of_toNat_eq hout.symm, rfl⟩
  | cons c s ih =>
    rw [digitLoop]
    by_cases hc : isDigit c = true
    · rw [if_pos hc]
      dsimp only
      have hstep := accumulate_toNat hvalue hc
      by_cases hlarge : value * 10 + BitVec.ofNat 32 (c.toNat - 0x30) > maxLength
      · rw [if_pos hlarge]
        have hlarge : 300 < (value * 10 + BitVec.ofNat 32 (c.toNat - 0x30)).toNat := hlarge
        rw [hstep] at hlarge
        constructor
        · exact fun h => absurd h not_reads_fail
        · rintro ⟨ds, hs, -, hnodigit, -, hle⟩
          rcases ds with - | ⟨d, ds⟩
          · obtain rfl : c :: s = s' := hs
            exact absurd hc (by rw [hnodigit c rfl]; exact Bool.false_ne_true)
          · obtain ⟨rfl, -⟩ := List.cons.inj hs
            rw [digitsValue_cons] at hle
            exact absurd ((le_digitsValue _ ds).trans hle) (by omega)
      · rw [if_neg hlarge]
        have hsmall : (value * 10 + BitVec.ofNat 32 (c.toNat - 0x30)).toNat ≤ 300 :=
          Nat.not_lt.mp hlarge
        rw [ih hsmall, hstep]
        constructor
        · rintro ⟨ds, rfl, hds, hrest⟩
          exact ⟨c :: ds, rfl, List.forall_mem_cons.mpr ⟨hc, hds⟩, hrest⟩
        · rintro ⟨ds, hs, hds, hnodigit, hout⟩
          rcases ds with - | ⟨d, ds⟩
          · obtain rfl : c :: s = s' := hs
            exact absurd hc (by rw [hnodigit c rfl]; exact Bool.false_ne_true)
          · obtain ⟨rfl, rfl⟩ := List.cons.inj hs
            exact ⟨ds, rfl, (List.forall_mem_cons.mp hds).2, hnodigit, hout⟩
    · rw [if_neg hc]
      constructor
      · intro h
        obtain ⟨rfl, rfl⟩ := reads_ok.mp h
        refine ⟨[], rfl, fun _ h => (nomatch h), ?_, rfl, hvalue⟩
        intro d hd
        cases hd
        exact Bool.eq_false_iff.mpr hc
      · rintro ⟨ds, hs, hds, -, hout, -⟩
        rcases ds with - | ⟨d, ds⟩
        · obtain rfl : c :: s = s' := hs
          exact reads_ok.mpr ⟨BitVec.eq_of_toNat_eq hout.symm, rfl⟩
        · obtain ⟨rfl, -⟩ := List.cons.inj hs
          exact absurd ((List.forall_mem_cons.mp hds).1) hc

/-- Digits that are a length. -/
theorem lengthDigits_iff : Reads (lengthDigits r) out s' ↔ ∃ ds, Digits ds ∧ r.rest = ds ++ s' ∧
    NoDigit s' ∧ out.toNat = digitsValue 0 ds ∧ digitsValue 0 ds ≤ 300 := by
  obtain ⟨rest, pos⟩ := r
  unfold lengthDigits
  rcases rest with - | ⟨c, rest⟩
  · constructor
    · exact fun h => absurd h not_reads_fail
    · rintro ⟨ds, hds, hnil, -⟩
      exact absurd (List.append_eq_nil_iff.mp hnil.symm).1 hds.nonempty
  show Reads (if isDigit c = false then _ else if (c == charZero) = true then _ else _) out s' ↔ _
  by_cases hc : isDigit c = true
  · rw [if_neg (by rw [hc]; exact Bool.noConfusion)]
    by_cases hzero : c = charZero
    · -- nothing may follow a zero
      subst hzero
      rw [if_pos (beq_self_eq_true charZero)]
      show Reads (if rest.head?.any isDigit = true then _ else _) out s' ↔ _
      by_cases hnext : rest.head?.any isDigit = true
      · rw [if_pos hnext]
        constructor
        · exact fun h => absurd h not_reads_fail
        · rintro ⟨ds, hds, hs, hnodigit, -⟩
          rcases ds with - | ⟨d, ds⟩
          · exact absurd rfl hds.nonempty
          obtain ⟨rfl, rfl⟩ := List.cons.inj hs
          obtain rfl : ds = [] := (List.cons.inj (hds.leading rfl)).2
          obtain ⟨d, hd, hdigit⟩ := (Option.any_eq_true _ _).mp hnext
          exact absurd hdigit (by rw [hnodigit d hd]; exact Bool.false_ne_true)
      · rw [if_neg hnext, reads_ok]
        constructor
        · rintro ⟨rfl, rfl⟩
          refine ⟨[charZero], ⟨List.cons_ne_nil _ _, ?_, fun _ => rfl⟩, rfl, ?_, rfl, Nat.zero_le _⟩
          · intro d hd
            rw [List.mem_singleton.mp hd]
            exact hc
          · intro d hd
            rw [Bool.eq_false_iff]
            exact fun hdigit => hnext ((Option.any_eq_true _ _).mpr ⟨d, hd, hdigit⟩)
        · rintro ⟨ds, hds, hs, -, hout, -⟩
          rcases ds with - | ⟨d, ds⟩
          · exact absurd rfl hds.nonempty
          obtain ⟨rfl, rfl⟩ := List.cons.inj hs
          obtain rfl : ds = [] := (List.cons.inj (hds.leading rfl)).2
          exact ⟨BitVec.eq_of_toNat_eq hout.symm, rfl⟩
    · rw [if_neg (by simpa using hzero), digitLoop_iff (by decide)]
      constructor
      · rintro ⟨ds, hs, hds, hrest⟩
        rcases ds with - | ⟨d, ds⟩
        · obtain rfl : c :: rest = s' := hs
          exact absurd hc (by rw [hrest.1 c rfl]; exact Bool.false_ne_true)
        obtain ⟨rfl, rfl⟩ := List.cons.inj hs
        refine ⟨c :: ds, ⟨List.cons_ne_nil _ _, hds, ?_⟩, rfl, hrest⟩
        exact fun hhead => absurd (Option.some.inj hhead) hzero
      · rintro ⟨ds, hds, hs, hrest⟩
        exact ⟨ds, hs, hds.digits, hrest⟩
  · rw [if_pos (Bool.eq_false_iff.mpr hc)]
    constructor
    · exact fun h => absurd h not_reads_fail
    · rintro ⟨ds, hds, hs, -⟩
      rcases ds with - | ⟨d, ds⟩
      · exact absurd rfl hds.nonempty
      obtain ⟨rfl, -⟩ := List.cons.inj hs
      exact absurd (hds.digits c (.head _)) hc

/-- What may follow an integer. -/
def Follow (s : List UInt8) : Prop :=
  ∀ c ∈ s.head?, isDigit c = false ∧ c ≠ charDot ∧ c ≠ 0x65 ∧ c ≠ 0x45

theorem next_fraction_iff {s : List UInt8} {pos : Nat} (hnodigit : NoDigit s) :
    (⟨s, pos⟩ : JsonReader).next (fun c => c == charDot || c == 0x65 || c == 0x45) = false ↔
      Follow s := by
  rcases s with - | ⟨c, s⟩
  · exact ⟨fun _ _ h => (nomatch h), fun _ => rfl⟩
  · have hc := hnodigit c rfl
    constructor
    · intro h d hd
      cases hd
      simp only [JsonReader.next, List.head?_cons, Option.any_some, Bool.or_eq_false_iff,
        beq_eq_false_iff_ne] at h
      exact ⟨hc, h.1.1, h.1.2, h.2⟩
    · intro h
      obtain ⟨-, h1, h2, h3⟩ := h c rfl
      simp [JsonReader.next, h1, h2, h3]

theorem Digits.head {ds : List UInt8} (h : Digits ds) : ∃ c rest, ds = c :: rest ∧
    isDigit c = true := by
  rcases ds with - | ⟨c, rest⟩
  · exact absurd rfl h.nonempty
  · exact ⟨c, rest, rfl, h.digits c (.head _)⟩

theorem digit_solid {c : UInt8} (h : isDigit c = true) : isBlank c = false ∧ c ≠ charMinus := by
  simp only [isDigit, Bool.and_eq_true, decide_eq_true_eq] at h
  obtain ⟨hlow, -⟩ := h
  have hlow : 0x30 ≤ c.toNat := hlow
  have hne (b : UInt8) (hb : b.toNat < 0x30) : c ≠ b := by
    rintro rfl
    omega
  refine ⟨?_, hne _ (by decide)⟩
  simp [isBlank, hne 0x20 (by decide), hne 0x09 (by decide), hne 0x0d (by decide),
    hne 0x0a (by decide)]

/-- A length after white space. -/
theorem jsonLength_iff : Reads (jsonLength r) out s' ↔ ∃ ws lit, Blank ws ∧
    r.rest = ws ++ (lit ++ s') ∧ LengthLit lit out.toNat ∧ Follow s' := by
  -- the checks after the digits
  have hcheck (negative : Bool) (r : JsonReader) :
      Reads (lengthDigits r >>= fun p =>
        if negative ∧ p.1 ≠ 0 then jsonFail p.2 "negative string length"
        else if p.2.next fun c => c == charDot || c == 0x65 || c == 0x45 then
          jsonFail p.2 "length must be an integer, not a fraction or exponent"
        else pure p) out s' ↔
      ∃ ds, Digits ds ∧ r.rest = ds ++ s' ∧ out.toNat = digitsValue 0 ds ∧ digitsValue 0 ds ≤ 300 ∧
        (negative = true → out = 0) ∧ Follow s' := by
    rw [reads_bind]
    constructor
    · rintro ⟨value, s, p, hread, h⟩
      obtain ⟨ds, hds, hs, hnodigit, hvalue, hle⟩ := lengthDigits_iff.mp ⟨p, hread⟩
      dsimp only at h
      split_ifs at h with hneg hfraction
      · exact absurd h not_reads_fail
      · exact absurd h not_reads_fail
      obtain ⟨rfl, rfl⟩ := reads_ok.mp h
      exact ⟨ds, hds, hs, hvalue, hle, fun hn => not_not.mp fun hne => hneg ⟨hn, hne⟩,
        (next_fraction_iff hnodigit).mp (Bool.eq_false_iff.mpr hfraction)⟩
    · rintro ⟨ds, hds, hs, hvalue, hle, hneg, hfollow⟩
      have hnodigit : NoDigit s' := fun c hc => (hfollow c hc).1
      obtain ⟨p, hread⟩ := lengthDigits_iff.mpr ⟨ds, hds, hs, hnodigit, hvalue, hle⟩
      refine ⟨out, s', p, hread, ?_⟩
      dsimp only
      rw [if_neg fun h => h.2 (hneg h.1), if_neg (by
        rw [(next_fraction_iff hnodigit).mpr hfollow]
        exact Bool.noConfusion)]
      exact reads_ok.mpr ⟨rfl, rfl⟩
  have hrest := whitespace_rest r
  show Reads (lengthDigits (if (whitespace r).next (· == charMinus) = true then
    (whitespace r).advance else whitespace r) >>= _) out s' ↔ _
  by_cases hminus : (whitespace r).next (· == charMinus) = true
  · rw [if_pos hminus]
    obtain ⟨c, hc, heq⟩ := (Option.any_eq_true _ _).mp hminus
    obtain rfl : c = charMinus := beq_iff_eq.mp heq
    obtain ⟨s, hs⟩ : ∃ s, r.rest.dropWhile isBlank = charMinus :: s := by
      rw [← hrest]
      rcases hw : (whitespace r).rest with - | ⟨d, s⟩
      · rw [hw] at hc
        cases hc
      · rw [hw] at hc
        cases hc
        exact ⟨s, rfl⟩
    have htail : (whitespace r).advance.rest = s := by
      rw [JsonReader.advance, hrest, hs]
      rfl
    refine (hcheck _ _).trans ?_
    rw [htail, hminus]
    constructor
    · rintro ⟨ds, hds, rfl, hout, hle, hneg, hfollow⟩
      obtain ⟨ws, hblank, hr⟩ := (dropWhile_eq_cons_iff (by decide)).mp hs
      have hzero : out = 0 := hneg rfl
      exact ⟨ws, charMinus :: ds, hblank, hr,
        ⟨hout ▸ hle, ds, hds, hout.symm, .inr ⟨rfl, by rw [hzero]; rfl⟩⟩, hfollow⟩
    · rintro ⟨ws, lit, hblank, hr, ⟨hle, ds, hds, hout, hlit⟩, hfollow⟩
      rw [hr, dropWhile_blank hblank] at hs
      rcases hlit with rfl | ⟨rfl, hzero⟩
      · obtain ⟨c, rest, rfl, hdigit⟩ := hds.head
        obtain ⟨hsolid, hne⟩ := digit_solid hdigit
        rw [List.cons_append, dropWhile_solid hsolid] at hs
        exact absurd (List.cons.inj hs).1 hne
      · rw [List.cons_append, dropWhile_solid (by decide)] at hs
        exact ⟨ds, hds, (List.cons.inj hs).2.symm, hout.symm, hout ▸ hle,
          fun _ => BitVec.eq_of_toNat_eq hzero, hfollow⟩
  · rw [if_neg hminus]
    refine (hcheck _ _).trans ?_
    rw [hrest, Bool.eq_false_iff.mpr hminus]
    constructor
    · rintro ⟨ds, hds, hs, hout, hle, -, hfollow⟩
      refine ⟨r.rest.takeWhile isBlank, ds, blank_takeWhile _, ?_,
        ⟨hout ▸ hle, ds, hds, hout.symm, .inl rfl⟩, hfollow⟩
      rw [← hs, List.takeWhile_append_dropWhile]
    · rintro ⟨ws, lit, hblank, hr, ⟨hle, ds, hds, hout, hlit⟩, hfollow⟩
      have hs : r.rest.dropWhile isBlank = (lit ++ s').dropWhile isBlank := by
        rw [hr, dropWhile_blank hblank]
      rcases hlit with rfl | ⟨rfl, -⟩
      · obtain ⟨c, rest, rfl, hdigit⟩ := hds.head
        rw [List.cons_append, dropWhile_solid (digit_solid hdigit).1] at hs
        exact ⟨_, hds, hs, hout.symm, hout ▸ hle, fun h => (nomatch h), hfollow⟩
      · rw [List.cons_append, dropWhile_solid (by decide), ← hrest] at hs
        exact absurd (by rw [JsonReader.next, hs]; rfl) hminus

end Integers

end Dld
