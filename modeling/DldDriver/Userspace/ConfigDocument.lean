/-
DldDriver/Userspace/ConfigDocument.lean

The parser of the configuration accepts exactly the documents of the
grammar: the array of lengths, the two members, and the object around them.

The loop over the members is unrolled: its third round has no member left
to see.
-/
import DldDriver.Userspace.ConfigGrammar

namespace Dld

/-! ### Arrays -/

section Arrays

variable {s s' : List UInt8} {r : JsonReader} {lengths out : Fin 6 → Word}

/-- White space and a character that ends an integer. -/
theorem follow_blank {ws : List UInt8} {w : UInt8} (hws : Blank ws)
    (hw : isDigit w = false ∧ w ≠ charDot ∧ w ≠ 0x65 ∧ w ≠ 0x45) : Follow (ws ++ w :: s) := by
  intro c hc
  rcases ws with - | ⟨b, ws⟩
  · cases hc
    exact hw
  · cases hc
    have hblank := hws c (.head _)
    simp only [isBlank, Bool.or_eq_true, beq_iff_eq] at hblank
    rcases hblank with ((rfl | rfl) | rfl) | rfl <;> decide

theorem Items.follow {body : List UInt8} {ns : List Nat} (h : Items body ns) (hfollow : Follow s') :
    Follow (body ++ s') := by
  cases h with
  | nil => exact hfollow
  | cons ha hb _ _ =>
    rw [List.append_assoc, List.cons_append]
    exact follow_blank ha (by decide)

/-- Elements after the first. -/
theorem items_sound {is : List (Fin 6)} (h0 : 0 ∉ is) (hnodup : is.Nodup)
    (h : Reads (parseLengths r lengths is) out s') : (∀ i ∉ is, out i = lengths i) ∧
      ∃ body, Items body (is.map fun i => (out i).toNat) ∧ r.rest = body ++ s' ∧
        (is ≠ [] → Follow s') := by
  induction is generalizing r lengths with
  | nil =>
    obtain ⟨rfl, rfl⟩ := reads_ok.mp h
    exact ⟨fun _ _ => rfl, [], .nil, rfl, fun hne => absurd rfl hne⟩
  | cons i is ih =>
    obtain ⟨hi, h0⟩ := not_or.mp (mt List.mem_cons.mpr h0)
    obtain ⟨hnot, hnodup⟩ := List.nodup_cons.mp hnodup
    rw [parseLengths, lengthSeparator, if_pos (Ne.symm hi)] at h
    obtain ⟨s₁, p₁, hcomma, -, h⟩ := reads_token.mp h
    obtain ⟨value, s₂, p₂, hread, h⟩ := reads_bind.mp h
    obtain ⟨a, ha, hr⟩ := (dropWhile_eq_cons_iff (by decide)).mp hcomma
    obtain ⟨b, lit, hb, hs₁, hlit, hfollow⟩ := jsonLength_iff.mp ⟨p₂, hread⟩
    obtain ⟨hsame, body, hbody, hs₂, hlast⟩ := ih h0 hnodup h
    have hvalue : out i = value := by
      rw [hsame i hnot, Function.update_self]
    constructor
    · intro j hj
      obtain ⟨hne, hj⟩ := not_or.mp (mt List.mem_cons.mpr hj)
      rw [hsame j hj, Function.update_of_ne hne]
    · refine ⟨a ++ charComma :: (b ++ (lit ++ body)), ?_, ?_, ?_⟩
      · rw [List.map_cons]
        exact .cons ha hb (by rw [hvalue]; exact hlit) hbody
      · have hs₁ : s₁ = b ++ (lit ++ s₂) := hs₁
        have hs₂ : s₂ = body ++ s' := hs₂
        rw [hr, hs₁, hs₂]
        simp
      · intro _
        rcases is with - | ⟨j, is⟩
        · cases hbody
          have hs₂ : s₂ = s' := hs₂
          rw [← hs₂]
          exact hfollow
        · exact hlast (List.cons_ne_nil _ _)

theorem items_complete {is : List (Fin 6)} (h0 : 0 ∉ is) (hnodup : is.Nodup) {body : List UInt8}
    {target : Fin 6 → Word} (hitems : Items body (is.map fun i => (target i).toNat))
    (hr : r.rest = body ++ s') (hfollow : Follow s') :
    Reads (parseLengths r lengths is) (fun i => if i ∈ is then target i else lengths i) s' := by
  induction is generalizing r lengths body with
  | nil =>
    cases hitems
    exact reads_ok.mpr ⟨by simp, hr⟩
  | cons i is ih =>
    obtain ⟨hi, h0⟩ := not_or.mp (mt List.mem_cons.mpr h0)
    obtain ⟨hnot, hnodup⟩ := List.nodup_cons.mp hnodup
    rw [List.map_cons] at hitems
    obtain _ | @⟨a, b, lit, rest, _, _, ha, hb, hlit, hrest⟩ := hitems
    have hcomma : r.rest.dropWhile isBlank = charComma :: (b ++ (lit ++ (rest ++ s'))) :=
      (dropWhile_eq_cons_iff (by decide)).mpr ⟨a, ha, by rw [hr]; simp⟩
    obtain ⟨p₁, htoken⟩ := token_iff.mpr hcomma
    obtain ⟨p₂, hread⟩ := jsonLength_iff (r := ⟨b ++ (lit ++ (rest ++ s')), p₁⟩) |>.mpr
      ⟨b, lit, hb, rfl, hlit, hrest.follow hfollow⟩
    rw [parseLengths, lengthSeparator, if_pos (Ne.symm hi)]
    refine reads_token.mpr ⟨_, p₁, hcomma, htoken, reads_bind.mpr ⟨_, _, p₂, hread, ?_⟩⟩
    obtain ⟨p₃, hall⟩ : Reads
        (parseLengths ⟨rest ++ s', p₂⟩ (Function.update lengths i (target i)) is) _ s' :=
      ih h0 hnodup hrest rfl
    refine ⟨p₃, hall.trans ?_⟩
    congr 2
    funext j
    by_cases hj : j ∈ is
    · rw [if_pos hj, if_pos (List.mem_cons_of_mem _ hj)]
    · rw [if_neg hj]
      rcases eq_or_ne j i with rfl | hne
      · rw [Function.update_self, if_pos (List.mem_cons_self ..)]
      · rw [Function.update_of_ne hne, if_neg]
        exact fun hmem => hj ((List.mem_cons.mp hmem).resolve_left hne)

/-- The elements of the array. -/
theorem parseLengths_iff : Reads (parseLengths r lengths (List.finRange 6)) out s' ↔
    ∃ a first rest, Blank a ∧ r.rest = a ++ (first ++ (rest ++ s')) ∧
      LengthLit first (out 0).toNat ∧
      Items rest ([1, 2, 3, 4, 5].map fun i : Fin 6 => (out i).toNat) ∧ Follow s' := by
  have hrange : List.finRange 6 = 0 :: [1, 2, 3, 4, 5] := rfl
  have h0 : (0 : Fin 6) ∉ ([1, 2, 3, 4, 5] : List (Fin 6)) := by decide
  have hnodup : ([1, 2, 3, 4, 5] : List (Fin 6)).Nodup := by decide
  rw [hrange, parseLengths, lengthSeparator, if_neg (fun h => h rfl)]
  show Reads (jsonLength r >>= _) out s' ↔ _
  rw [reads_bind]
  constructor
  · rintro ⟨value, s, p, hread, h⟩
    obtain ⟨a, first, ha, hr, hfirst, _⟩ := jsonLength_iff.mp ⟨p, hread⟩
    obtain ⟨hsame, rest, hitems, hs, hfollow⟩ := items_sound h0 hnodup h
    have hvalue : out 0 = value := by
      rw [hsame 0 h0, Function.update_self]
    have hs : s = rest ++ s' := hs
    exact ⟨a, first, rest, ha, by rw [hr, hs], by rw [hvalue]; exact hfirst, hitems,
      hfollow (List.cons_ne_nil _ _)⟩
  · rintro ⟨a, first, rest, ha, hr, hfirst, hitems, hfollow⟩
    obtain ⟨p, hread⟩ := jsonLength_iff.mpr ⟨a, first, ha, hr, hfirst, hitems.follow hfollow⟩
    obtain ⟨p', hall⟩ : Reads
        (parseLengths ⟨rest ++ s', p⟩ (Function.update lengths 0 (out 0)) [1, 2, 3, 4, 5]) _ s' :=
      items_complete h0 hnodup hitems rfl hfollow
    refine ⟨out 0, _, p, hread, p', hall.trans ?_⟩
    congr 2
    funext j
    split_ifs with hj
    · rfl
    · have hzero : j = 0 := by
        revert j
        decide
      rw [hzero, Function.update_self]

end Arrays

/-! ### Members -/

instance (name : List Char) : Decidable (Ascii name) := List.decidableBAll _ name

/-- A member that has not been seen before, and what it makes of the
configuration. -/
def MemberLit (m : Members) (lit : List UInt8) (m' : Members) : Prop :=
  (∃ id, TypeMember lit id ∧ m.seenType = false ∧
    m' = { m with config := { m.config with profileId := id }, seenType := true }) ∨
  ∃ lengths, LengthsMember lit lengths ∧ m.seenLengths = false ∧
    m' = { m with config := { m.config with stringLengths := lengths }, seenLengths := true }

/-- One member: its name, a colon and its value. -/
def readMember (r : JsonReader) (m : Members) : Json (Members × JsonReader) := do
  let (name, r) ← jsonName r 32
  let r ← token r charColon
  parseMember name r m

section Member

variable {s' : List UInt8} {r : JsonReader} {m m' : Members}

theorem profileNamed_iff {name : List Char} {id : Word} :
    profileNamed name = some id ↔ (name, id) ∈ profiles := by
  constructor
  · intro h
    unfold profileNamed at h
    split_ifs at h with h1 h2 h3 h4
    · cases h
      rw [h1]
      decide
    · cases h
      rw [h2]
      decide
    · cases h
      rw [h3]
      decide
    · cases h
      rw [h4]
      decide
  · intro h
    simp only [profiles, List.mem_cons, Prod.mk.injEq, List.not_mem_nil, or_false] at h
    rcases h with ⟨rfl, rfl⟩ | ⟨rfl, rfl⟩ | ⟨rfl, rfl⟩ | ⟨rfl, rfl⟩ <;> decide

theorem profiles_fit : ∀ p ∈ profiles, Ascii p.1 ∧ p.1.length < 32 := by decide

/-- The value of `pixel_type`. -/
theorem parseMember_type : Reads (parseMember "pixel_type".toList r m) m' s' ↔
    m.seenType = false ∧ ∃ ws lit profile id, Blank ws ∧ r.rest = ws ++ (lit ++ s') ∧
      StringLit lit profile ∧ (profile, id) ∈ profiles ∧
      m' = { m with config := { m.config with profileId := id }, seenType := true } := by
  rw [parseMember, if_pos rfl]
  by_cases hseen : m.seenType = true
  · rw [if_pos hseen]
    constructor
    · exact fun h => absurd h not_reads_fail
    · rintro ⟨hnot, -⟩
      rw [hseen] at hnot
      cases hnot
  rw [if_neg hseen, reads_bind]
  constructor
  · rintro ⟨profile, s, p, hread, h⟩
    obtain ⟨ws, lit, hws, hr, hlit, -, -⟩ := (jsonName_iff (by decide)).mp ⟨p, hread⟩
    dsimp only at h
    rcases hid : profileNamed profile with - | id
    · rw [hid] at h
      exact absurd h not_reads_fail
    · rw [hid] at h
      obtain ⟨rfl, rfl⟩ := reads_ok.mp h
      exact ⟨Bool.eq_false_iff.mpr hseen, ws, lit, profile, id, hws, hr, hlit,
        profileNamed_iff.mp hid, rfl⟩
  · rintro ⟨-, ws, lit, profile, id, hws, hr, hlit, hid, rfl⟩
    obtain ⟨hascii, hshort⟩ := profiles_fit _ hid
    obtain ⟨p, hread⟩ := (jsonName_iff (by decide)).mpr ⟨ws, lit, hws, hr, hlit, hascii, hshort⟩
    refine ⟨profile, s', p, hread, ?_⟩
    dsimp only
    rw [profileNamed_iff.mpr hid]
    exact reads_ok.mpr ⟨rfl, rfl⟩

/-- The value of `string_lengths`. -/
theorem parseMember_lengths : Reads (parseMember "string_lengths".toList r m) m' s' ↔
    m.seenLengths = false ∧ ∃ ws lit lengths, Blank ws ∧ r.rest = ws ++ (lit ++ s') ∧
      ArrayLit lit (lengths 0).toNat ([1, 2, 3, 4, 5].map fun i : Fin 6 => (lengths i).toNat) ∧
      m' = { m with config := { m.config with stringLengths := lengths }, seenLengths := true } := by
  rw [parseMember, if_neg (by decide), if_pos rfl]
  by_cases hseen : m.seenLengths = true
  · rw [if_pos hseen]
    constructor
    · exact fun h => absurd h not_reads_fail
    · rintro ⟨hnot, -⟩
      rw [hseen] at hnot
      cases hnot
  rw [if_neg hseen, reads_token]
  constructor
  · rintro ⟨s₁, p₁, hopen, -, h⟩
    obtain ⟨lengths, s₂, p₂, hread, h⟩ := reads_bind.mp h
    obtain ⟨s₃, p₃, hclose, -, h⟩ := reads_token.mp h
    obtain ⟨rfl, rfl⟩ := reads_ok.mp h
    obtain ⟨ws, hws, hr⟩ := (dropWhile_eq_cons_iff (by decide)).mp hopen
    obtain ⟨a, first, rest, ha, hs₁, hfirst, hrest, -⟩ := parseLengths_iff.mp ⟨p₂, hread⟩
    obtain ⟨b, hb, hs₂⟩ := (dropWhile_eq_cons_iff (by decide)).mp hclose
    have hs₁ : s₁ = a ++ (first ++ (rest ++ s₂)) := hs₁
    have hs₂ : s₂ = b ++ charCloseBracket :: s₃ := hs₂
    refine ⟨Bool.eq_false_iff.mpr hseen, ws, _, lengths, hws, ?_,
      ⟨a, first, rest, b, rfl, ha, hfirst, hrest, hb⟩, rfl⟩
    rw [hr, hs₁, hs₂]
    simp
  · rintro ⟨-, ws, _, lengths, hws, hr, ⟨a, first, rest, b, rfl, ha, hfirst, hrest, hb⟩, rfl⟩
    have hopen : r.rest.dropWhile isBlank =
        charOpenBracket :: (a ++ (first ++ (rest ++ (b ++ charCloseBracket :: s')))) :=
      (dropWhile_eq_cons_iff (by decide)).mpr ⟨ws, hws, by rw [hr]; simp⟩
    obtain ⟨p₁, hp₁⟩ := token_iff.mpr hopen
    obtain ⟨p₂, hp₂⟩ : Reads
        (parseLengths ⟨a ++ (first ++ (rest ++ (b ++ charCloseBracket :: s'))), p₁⟩
          m.config.stringLengths (List.finRange 6)) lengths (b ++ charCloseBracket :: s') :=
      parseLengths_iff.mpr
        ⟨a, first, rest, ha, rfl, hfirst, hrest, follow_blank hb (by decide)⟩
    have hclose : (b ++ charCloseBracket :: s').dropWhile isBlank = charCloseBracket :: s' :=
      (dropWhile_eq_cons_iff (by decide)).mpr ⟨b, hb, rfl⟩
    obtain ⟨p₃, hp₃⟩ := token_iff (r := ⟨b ++ charCloseBracket :: s', p₂⟩) |>.mpr hclose
    refine ⟨_, p₁, hopen, hp₁, reads_bind.mpr ⟨_, _, p₂, hp₂, ?_⟩⟩
    exact reads_token.mpr ⟨_, p₃, hclose, hp₃, reads_ok.mpr ⟨rfl, rfl⟩⟩

/-- Every other name is unknown. -/
theorem parseMember_unknown {name : List Char} (htype : name ≠ "pixel_type".toList)
    (hlengths : name ≠ "string_lengths".toList) : ¬ Reads (parseMember name r m) m' s' := by
  rw [parseMember, if_neg htype, if_neg hlengths]
  exact not_reads_fail

/-- What a member is. -/
theorem readMember_iff : Reads (readMember r m) m' s' ↔
    ∃ ws lit, Blank ws ∧ r.rest = ws ++ (lit ++ s') ∧ MemberLit m lit m' := by
  rw [readMember, reads_bind]
  constructor
  · rintro ⟨name, s₁, p₁, hread, h⟩
    obtain ⟨s₂, p₂, hcolon, -, h⟩ := reads_token.mp h
    obtain ⟨ws, lit, hws, hr, hname, -, -⟩ := (jsonName_iff (by decide)).mp ⟨p₁, hread⟩
    obtain ⟨a, ha, hs₁⟩ := (dropWhile_eq_cons_iff (by decide)).mp hcolon
    have hs₁ : s₁ = a ++ charColon :: s₂ := hs₁
    by_cases htype : name = "pixel_type".toList
    · subst htype
      obtain ⟨hseen, b, value, profile, id, hb, hs₂, hvalue, hid, hm⟩ := parseMember_type.mp h
      have hs₂ : s₂ = b ++ (value ++ s') := hs₂
      refine ⟨ws, _, hws, ?_,
        .inl ⟨id, ⟨lit, a, b, value, profile, rfl, hname, ha, hb, hvalue, hid⟩, hseen, hm⟩⟩
      rw [hr, hs₁, hs₂]
      simp
    · by_cases hlengths : name = "string_lengths".toList
      · subst hlengths
        obtain ⟨hseen, b, value, lengths, hb, hs₂, hvalue, hm⟩ := parseMember_lengths.mp h
        have hs₂ : s₂ = b ++ (value ++ s') := hs₂
        refine ⟨ws, _, hws, ?_,
          .inr ⟨lengths, ⟨lit, a, b, value, rfl, hname, ha, hb, hvalue⟩, hseen, hm⟩⟩
        rw [hr, hs₁, hs₂]
        simp
      · exact absurd h (parseMember_unknown htype hlengths)
  · rintro ⟨ws, _, hws, hr, ⟨id, ⟨name, a, b, value, profile, rfl, hname, ha, hb, hvalue, hid⟩,
      hseen, hm⟩ | ⟨lengths, ⟨name, a, b, value, rfl, hname, ha, hb, hvalue⟩, hseen, hm⟩⟩
    · obtain ⟨p₁, hp₁⟩ := (jsonName_iff (by decide : 0 < 32)).mpr
        ⟨ws, name, hws, by rw [hr, List.append_assoc], hname, by decide, by decide⟩
      have hcolon : (a ++ charColon :: (b ++ value) ++ s').dropWhile isBlank =
          charColon :: (b ++ (value ++ s')) :=
        (dropWhile_eq_cons_iff (by decide)).mpr ⟨a, ha, by simp⟩
      obtain ⟨p₂, hp₂⟩ := token_iff (r := ⟨a ++ charColon :: (b ++ value) ++ s', p₁⟩) |>.mpr hcolon
      refine ⟨_, _, p₁, hp₁, reads_token.mpr ⟨_, p₂, hcolon, hp₂, ?_⟩⟩
      exact parseMember_type.mpr ⟨hseen, b, value, profile, id, hb, rfl, hvalue, hid, hm⟩
    · obtain ⟨p₁, hp₁⟩ := (jsonName_iff (by decide : 0 < 32)).mpr
        ⟨ws, name, hws, by rw [hr, List.append_assoc], hname, by decide, by decide⟩
      have hcolon : (a ++ charColon :: (b ++ value) ++ s').dropWhile isBlank =
          charColon :: (b ++ (value ++ s')) :=
        (dropWhile_eq_cons_iff (by decide)).mpr ⟨a, ha, by simp⟩
      obtain ⟨p₂, hp₂⟩ := token_iff (r := ⟨a ++ charColon :: (b ++ value) ++ s', p₁⟩) |>.mpr hcolon
      refine ⟨_, _, p₁, hp₁, reads_token.mpr ⟨_, p₂, hcolon, hp₂, ?_⟩⟩
      exact parseMember_lengths.mpr ⟨hseen, b, value, lengths, hb, rfl, hvalue, hm⟩

end Member

/-! ### The object -/

/-- What the loop over the members has still to read, in at most `n` rounds. -/
def Rounds : Nat → Members → List UInt8 → Members → List UInt8 → Prop
  | 0, _, _, _, _ => False
  | n + 1, m, s, m', s' =>
    (s.dropWhile isBlank = charCloseBrace :: s' ∧ m' = m) ∨
      ∃ ws lit m₁ s₁, Blank ws ∧ s = ws ++ (lit ++ s₁) ∧ MemberLit m lit m₁ ∧
        ((s₁.dropWhile isBlank = charCloseBrace :: s' ∧ m' = m₁) ∨
          ∃ s₂, s₁.dropWhile isBlank = charComma :: s₂ ∧ s₂.dropWhile isBlank ≠ [] ∧
            (s₂.dropWhile isBlank).head? ≠ some charCloseBrace ∧
            Rounds n m₁ (s₂.dropWhile isBlank) m' s')

section Rounds

variable {s s' : List UInt8} {r : JsonReader} {m m' : Members}

/-- What comes after a member. -/
def afterMember (n : Nat) (r : JsonReader) (m : Members) : Json (Members × JsonReader) :=
  let r := whitespace r
  if r.next (· == charCloseBrace) then pure (m, r.advance) else do
  let r ← token r charComma
  let r := whitespace r
  if r.rest.isEmpty || r.next (· == charCloseBrace) then jsonFail r "trailing comma"
  else parseMembers n r m

theorem parseMembers_succ (n : Nat) (r : JsonReader) (m : Members) : parseMembers (n + 1) r m =
    if (whitespace r).next (· == charCloseBrace) then pure (m, (whitespace r).advance)
    else readMember (whitespace r) m >>= fun (m, r) => afterMember n r m := by
  rw [parseMembers, readMember]
  dsimp only
  split_ifs
  · rfl
  · simp only [bind_assoc]
    rfl

theorem next_iff (p : UInt8) : (whitespace r).next (· == p) = true ↔
    (r.rest.dropWhile isBlank).head? = some p := by
  rw [JsonReader.next, whitespace_rest]
  cases (r.rest.dropWhile isBlank).head? <;> simp

/-- White space does nothing twice. -/
theorem whitespace_dropWhile (r : JsonReader) :
    (whitespace r).rest.dropWhile isBlank = r.rest.dropWhile isBlank := by
  rw [whitespace_rest, List.dropWhile_idempotent]

theorem reads_close (h : (whitespace r).next (· == charCloseBrace) = true) :
    Reads (pure (m, (whitespace r).advance)) m' s' ↔
      r.rest.dropWhile isBlank = charCloseBrace :: s' ∧ m' = m := by
  rw [next_iff] at h
  obtain ⟨s, hs⟩ : ∃ s, r.rest.dropWhile isBlank = charCloseBrace :: s := by
    rcases hdrop : r.rest.dropWhile isBlank with - | ⟨c, s⟩
    · rw [hdrop] at h
      cases h
    · rw [hdrop] at h
      cases h
      exact ⟨s, rfl⟩
  have hadvance : (whitespace r).advance.rest = s := by
    rw [JsonReader.advance, whitespace_rest, hs]
    rfl
  refine reads_ok.trans ?_
  rw [hadvance, hs]
  constructor
  · rintro ⟨rfl, rfl⟩
    exact ⟨rfl, rfl⟩
  · rintro ⟨hcons, rfl⟩
    exact ⟨rfl, (List.cons.inj hcons).2⟩

theorem not_close (h : ¬ (whitespace r).next (· == charCloseBrace) = true) :
    r.rest.dropWhile isBlank ≠ charCloseBrace :: s' := by
  rw [next_iff] at h
  intro heq
  rw [heq] at h
  exact h rfl

/-- A member begins with a quote. -/
theorem MemberLit.quote {lit : List UInt8} (h : MemberLit m lit m') :
    ∃ rest, lit = charQuote :: rest := by
  rcases h with ⟨id, ⟨_, a, b, value, profile, rfl, ⟨body, rfl, -⟩, -⟩, -⟩ |
    ⟨lengths, ⟨_, a, b, value, rfl, ⟨body, rfl, -⟩, -⟩, -⟩ <;> exact ⟨_, rfl⟩

/-- The blanks before a member may be read first. -/
theorem readMember_whitespace : Reads (readMember (whitespace r) m) m' s' ↔
    Reads (readMember r m) m' s' := by
  rw [readMember_iff, readMember_iff]
  constructor
  · rintro ⟨ws, lit, hws, hr, hlit⟩
    refine ⟨r.rest.takeWhile isBlank ++ ws, lit, ?_, ?_, hlit⟩
    · intro c hc
      exact (List.mem_append.mp hc).elim (blank_takeWhile _ c) (hws c)
    · rw [List.append_assoc, ← hr, whitespace_rest, List.takeWhile_append_dropWhile]
  · rintro ⟨ws, lit, hws, hr, hlit⟩
    obtain ⟨rest, rfl⟩ := hlit.quote
    refine ⟨[], _, fun _ h => (nomatch h), ?_, hlit⟩
    rw [whitespace_rest, hr, dropWhile_blank hws]
    exact dropWhile_solid (by decide) _

/-- The loop over the members. -/
theorem parseMembers_iff (n : Nat) :
    Reads (parseMembers n r m) m' s' ↔ Rounds n m r.rest m' s' := by
  induction n generalizing r m with
  | zero => exact ⟨fun h => absurd h not_reads_fail, False.elim⟩
  | succ n ih =>
    -- the comma and what follows it
    have hafter (r : JsonReader) (m : Members) : Reads (afterMember n r m) m' s' ↔
        (r.rest.dropWhile isBlank = charCloseBrace :: s' ∧ m' = m) ∨
          ∃ s₂, r.rest.dropWhile isBlank = charComma :: s₂ ∧ s₂.dropWhile isBlank ≠ [] ∧
            (s₂.dropWhile isBlank).head? ≠ some charCloseBrace ∧
            Rounds n m (s₂.dropWhile isBlank) m' s' := by
      rw [afterMember]
      dsimp only
      by_cases hclose : (whitespace r).next (· == charCloseBrace) = true
      · rw [if_pos hclose, reads_close hclose]
        refine ⟨.inl, fun h => h.elim id ?_⟩
        rintro ⟨s₂, hcomma, -⟩
        rw [next_iff, hcomma] at hclose
        cases hclose
      rw [if_neg hclose, reads_token, whitespace_dropWhile]
      have hrest (r : JsonReader) : Reads (if (whitespace r).rest.isEmpty ||
          (whitespace r).next (· == charCloseBrace) then jsonFail (whitespace r) "trailing comma"
          else parseMembers n (whitespace r) m) m' s' ↔ r.rest.dropWhile isBlank ≠ [] ∧
            (r.rest.dropWhile isBlank).head? ≠ some charCloseBrace ∧
            Rounds n m (r.rest.dropWhile isBlank) m' s' := by
        by_cases hbad : ((whitespace r).rest.isEmpty ||
            (whitespace r).next (· == charCloseBrace)) = true
        · rw [if_pos hbad]
          rw [Bool.or_eq_true, List.isEmpty_iff, next_iff, whitespace_rest] at hbad
          constructor
          · exact fun h => absurd h not_reads_fail
          · rintro ⟨hne, hhead, -⟩
            exact hbad.elim (absurd · hne) (absurd · hhead)
        · rw [if_neg hbad, ih, whitespace_rest]
          rw [Bool.or_eq_true, List.isEmpty_iff, next_iff, whitespace_rest] at hbad
          obtain ⟨hne, hhead⟩ := not_or.mp hbad
          exact ⟨fun h => ⟨hne, hhead, h⟩, fun h => h.2.2⟩
      constructor
      · rintro ⟨s₂, p, hcomma, -, h⟩
        exact .inr ⟨s₂, hcomma, (hrest ⟨s₂, p⟩).mp h⟩
      · rintro (⟨hbrace, -⟩ | ⟨s₂, hcomma, h⟩)
        · exact absurd hbrace (not_close hclose)
        · obtain ⟨p, hp⟩ := token_iff (r := whitespace r) |>.mpr
            ((whitespace_dropWhile r).trans hcomma)
          exact ⟨s₂, p, hcomma, hp, (hrest ⟨s₂, p⟩).mpr h⟩
    rw [parseMembers_succ, Rounds]
    by_cases hclose : (whitespace r).next (· == charCloseBrace) = true
    · rw [if_pos hclose, reads_close hclose]
      refine ⟨.inl, fun h => h.elim id ?_⟩
      rintro ⟨ws, lit, m₁, s₁, hws, hr, hlit, -⟩
      obtain ⟨rest, rfl⟩ := hlit.quote
      rw [next_iff, hr, dropWhile_blank hws, List.cons_append, dropWhile_solid (by decide)] at hclose
      cases hclose
    · rw [if_neg hclose, reads_bind]
      constructor
      · rintro ⟨m₁, s₁, p₁, hread, h⟩
        obtain ⟨ws, lit, hws, hr, hlit⟩ := readMember_iff.mp (readMember_whitespace.mp ⟨p₁, hread⟩)
        exact .inr ⟨ws, lit, m₁, s₁, hws, hr, hlit, (hafter ⟨s₁, p₁⟩ m₁).mp h⟩
      · rintro (⟨hbrace, -⟩ | ⟨ws, lit, m₁, s₁, hws, hr, hlit, h⟩)
        · exact absurd hbrace (not_close hclose)
        · obtain ⟨p₁, hp₁⟩ := readMember_whitespace.mpr (readMember_iff.mpr ⟨ws, lit, hws, hr, hlit⟩)
          exact ⟨m₁, s₁, p₁, hp₁, (hafter ⟨s₁, p₁⟩ m₁).mpr h⟩

/-- A member that may follow a comma. -/
theorem MemberLit.follows {lit s : List UInt8} (h : MemberLit m lit m') {ws : List UInt8}
    (hws : Blank ws) : (ws ++ (lit ++ s)).dropWhile isBlank = lit ++ s ∧ lit ++ s ≠ [] ∧
      (lit ++ s).head? ≠ some charCloseBrace := by
  obtain ⟨rest, rfl⟩ := h.quote
  rw [dropWhile_blank hws, List.cons_append, dropWhile_solid (by decide)]
  refine ⟨rfl, List.cons_ne_nil _ _, ?_⟩
  rw [List.head?_cons]
  decide

/-- No member is left where both have been seen. -/
theorem not_memberLit {lit : List UInt8} (htype : m.seenType = true)
    (hlengths : m.seenLengths = true) : ¬ MemberLit m lit m' := by
  rintro (⟨_, -, hnot, -⟩ | ⟨_, -, hnot, -⟩)
  · rw [htype] at hnot
    cases hnot
  · rw [hlengths] at hnot
    cases hnot

/-- The first member of a file is followed by the other one. -/
theorem rounds_iff : (Rounds 3 {} s m s' ∧ m.seenType = true ∧ m.seenLengths = true) ↔
    ∃ w₁ first w₂ w₃ second w₄ m₁, s = w₁ ++ (first ++ (w₂ ++ charComma ::
        (w₃ ++ (second ++ (w₄ ++ charCloseBrace :: s'))))) ∧
      (Blank w₁ ∧ Blank w₂ ∧ Blank w₃ ∧ Blank w₄) ∧
      MemberLit {} first m₁ ∧ MemberLit m₁ second m := by
  constructor
  · rintro ⟨hrounds, htype, hlengths⟩
    rcases hrounds with ⟨-, rfl⟩ | ⟨w₁, first, m₁, s₁, hw₁, rfl, hfirst, hnext⟩
    · cases htype
    rcases hnext with ⟨-, rfl⟩ | ⟨s₂, hcomma, -, hbrace, hrounds⟩
    · -- one member only
      rcases hfirst with ⟨_, -, -, rfl⟩ | ⟨_, -, -, rfl⟩
      · cases hlengths
      · cases htype
    obtain ⟨w₂, hw₂, rfl⟩ := (dropWhile_eq_cons_iff (by decide)).mp hcomma
    rcases hrounds with ⟨hclose, -⟩ | ⟨w₃, second, m₂, s₃, hw₃, hs₂, hsecond, hnext⟩
    · rw [List.dropWhile_idempotent] at hclose
      rw [hclose] at hbrace
      exact absurd rfl hbrace
    rcases hnext with ⟨hclose, rfl⟩ | ⟨s₄, -, -, hbrace, hrounds⟩
    · obtain ⟨w₄, hw₄, rfl⟩ := (dropWhile_eq_cons_iff (by decide)).mp hclose
      refine ⟨w₁, first, w₂, s₂.takeWhile isBlank ++ w₃, second, w₄, m₁, ?_,
        ⟨hw₁, hw₂, ?_, hw₄⟩, hfirst, hsecond⟩
      · rw [List.append_assoc (s₂.takeWhile isBlank), ← hs₂, List.takeWhile_append_dropWhile]
      · intro c hc
        exact (List.mem_append.mp hc).elim (blank_takeWhile _ c) (hw₃ c)
    · -- a third member
      have hboth : m₂.seenType = true ∧ m₂.seenLengths = true := by
        rcases hfirst with ⟨_, -, -, rfl⟩ | ⟨_, -, -, rfl⟩ <;>
          rcases hsecond with ⟨_, -, hnot, rfl⟩ | ⟨_, -, hnot, rfl⟩
        · cases hnot
        · exact ⟨rfl, rfl⟩
        · exact ⟨rfl, rfl⟩
        · cases hnot
      rcases hrounds with ⟨hclose, -⟩ | ⟨_, third, m₃, _, -, -, hthird, -⟩
      · rw [List.dropWhile_idempotent] at hclose
        rw [hclose] at hbrace
        exact absurd rfl hbrace
      · exact absurd hthird (not_memberLit hboth.1 hboth.2)
  · rintro ⟨w₁, first, w₂, w₃, second, w₄, m₁, rfl, ⟨hw₁, hw₂, hw₃, hw₄⟩, hfirst, hsecond⟩
    have hboth : m.seenType = true ∧ m.seenLengths = true := by
      rcases hfirst with ⟨_, -, -, rfl⟩ | ⟨_, -, -, rfl⟩ <;>
        rcases hsecond with ⟨_, -, hnot, rfl⟩ | ⟨_, -, hnot, rfl⟩
      · cases hnot
      · exact ⟨rfl, rfl⟩
      · exact ⟨rfl, rfl⟩
      · cases hnot
    obtain ⟨hdrop, hne, hbrace⟩ := hsecond.follows (s := w₄ ++ charCloseBrace :: s') hw₃
    refine ⟨.inr ⟨w₁, first, m₁, _, hw₁, rfl, hfirst, .inr ⟨_,
      (dropWhile_eq_cons_iff (by decide)).mpr ⟨w₂, hw₂, rfl⟩, ?_, ?_, ?_⟩⟩, hboth⟩
    · rw [hdrop]
      exact hne
    · rw [hdrop]
      exact hbrace
    · rw [hdrop]
      exact .inr ⟨[], second, m, _, fun _ h => (nomatch h), rfl, hsecond,
        .inl ⟨(dropWhile_eq_cons_iff (by decide)).mpr ⟨w₄, hw₄, rfl⟩, rfl⟩⟩

end Rounds

/-- **The parser accepts exactly the grammar.** -/
theorem parseConfig_iff (json : List UInt8) (config : DldConfig) :
    parseConfig json = .ok config ↔ Document json config := by
  have hblank (s : List UInt8) : s.dropWhile isBlank = [] ↔ Blank s := by
    rw [List.dropWhile_eq_nil_iff]
    rfl
  constructor
  · intro h
    obtain ⟨⟨s₀, p₀⟩, hopen, h⟩ := Json.bind_ok h
    obtain ⟨⟨m, ⟨s₁, p₁⟩⟩, hmembers, h⟩ := Json.bind_ok h
    dsimp only at h
    split_ifs at h with htrailing hmissing
    · exact absurd h jsonFail_ne
    · exact absurd h jsonFail_ne
    cases h
    obtain ⟨w₀, hw₀, hjson⟩ := (dropWhile_eq_cons_iff (by decide)).mp (token_iff.mp ⟨p₀, hopen⟩)
    simp only [not_or, Bool.not_eq_false] at hmissing
    obtain ⟨w₁, first, w₂, w₃, second, w₄, m₁, hs₀, ⟨hw₁, hw₂, hw₃, hw₄⟩, hfirst, hsecond⟩ :=
      rounds_iff.mp ⟨(parseMembers_iff 3).mp ⟨p₁, hmembers⟩, hmissing⟩
    have hw₅ : Blank s₁ := by
      rw [← hblank]
      exact (whitespace_rest ⟨s₁, p₁⟩).symm.trans (not_not.mp htrailing)
    have hs₀ : s₀ = _ := hs₀
    have hjson : json = _ := hjson
    refine ⟨w₀, w₁, first, w₂, w₃, second, w₄, s₁, ?_, ⟨hw₀, hw₁, hw₂, hw₃, hw₄, hw₅⟩, ?_⟩
    · rw [hjson, hs₀]
    · rcases hfirst with ⟨id, htype, -, rfl⟩ | ⟨lengths, hlengths, -, rfl⟩ <;>
        rcases hsecond with ⟨id', htype', hnot, rfl⟩ | ⟨lengths', hlengths', hnot, rfl⟩
      · cases hnot
      · exact .inl ⟨htype, hlengths'⟩
      · exact .inr ⟨hlengths, htype'⟩
      · cases hnot
  · rintro ⟨w₀, w₁, first, w₂, w₃, second, w₄, w₅, rfl, ⟨hw₀, hw₁, hw₂, hw₃, hw₄, hw₅⟩, hmembers⟩
    obtain ⟨m₁, m, hfirst, hsecond, hconfig⟩ : ∃ m₁ m, MemberLit {} first m₁ ∧
        MemberLit m₁ second m ∧ m.config = config := by
      rcases hmembers with ⟨htype, hlengths⟩ | ⟨hlengths, htype⟩
      · exact ⟨_, _, .inl ⟨_, htype, rfl, rfl⟩, .inr ⟨_, hlengths, rfl, rfl⟩, rfl⟩
      · exact ⟨_, _, .inr ⟨_, hlengths, rfl, rfl⟩, .inl ⟨_, htype, rfl, rfl⟩, rfl⟩
    obtain ⟨hrounds, htype, hlengths⟩ := rounds_iff.mpr
      ⟨w₁, first, w₂, w₃, second, w₄, m₁, rfl, ⟨hw₁, hw₂, hw₃, hw₄⟩, hfirst, hsecond⟩
    obtain ⟨p₀, hopen⟩ := token_iff (r := ⟨_, 0⟩) |>.mpr
      ((dropWhile_eq_cons_iff (w := charOpenBrace) (by decide)).mpr ⟨w₀, hw₀, rfl⟩)
    obtain ⟨p₁, hread⟩ := (parseMembers_iff (r := ⟨_, p₀⟩) 3).mpr hrounds
    rw [parseConfig, hopen]
    show (parseMembers 3 _ {} >>= _) = _
    rw [hread]
    have hdone : (whitespace ⟨w₅, p₁⟩).rest = [] :=
      (whitespace_rest _).trans ((hblank w₅).mpr hw₅)
    show (if (whitespace ⟨w₅, p₁⟩).rest ≠ [] then _
      else if m.seenType = false ∨ m.seenLengths = false then _ else _) = _
    rw [if_neg (not_not.mpr hdone), if_neg (by rw [htype, hlengths]; decide)]
    exact congrArg Except.ok hconfig

end Dld
