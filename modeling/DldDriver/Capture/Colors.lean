/-
DldDriver/Capture/Colors.lean

Colours as the checker reads and writes them: six hexadecimal digits, the
order in which a profile sends the three octets, and the bit pattern of a
pixel.
-/
import DldDriver.Abi
import DldDriver.Capture.Digital

namespace Dld

namespace Capture

/-! ### Profiles -/

/-- The keys of `ORDERS`. -/
inductive PixelType
  | ws2812b
  | ws2811Hs
  | ws2812bBgr
  | ws2811HsBgr
  deriving DecidableEq

/-- The profile of the firmware under the same name. -/
def PixelType.profileId : PixelType → Word
  | .ws2812b => profileWs2812b
  | .ws2811Hs => profileWs2811Hs
  | .ws2812bBgr => profileWs2812bBgr
  | .ws2811HsBgr => profileWs2811HsBgr

/-- `ORDERS`: wire position to position in RGB. -/
def PixelType.order : PixelType → List Nat
  | .ws2812b => [1, 0, 2]
  | .ws2811Hs => [0, 1, 2]
  | .ws2812bBgr | .ws2811HsBgr => [2, 1, 0]

/-! ### Hexadecimal texts -/

/-- `[0-9a-fA-F]` -/
def isHexDigit (c : Char) : Bool :=
  c.isDigit || (decide ('a' ≤ c) && decide (c ≤ 'f')) || (decide ('A' ≤ c) && decide (c ≤ 'F'))

/-- The value of a digit in `int(text, 16)`. -/
def hexValue (c : Char) : Nat :=
  if c.isDigit then c.toNat - 48 else if 'a' ≤ c then c.toNat - 87 else c.toNat - 55

def parseHex (text : List Char) : Nat := text.foldl (fun value c => value * 16 + hexValue c) 0

/-- A digit of `'{:02X}'`. -/
def hexDigit (n : Nat) : Char := if n < 10 then Char.ofNat (48 + n) else Char.ofNat (55 + n)

/-- `'{:02X}'.format(n)` for an octet. -/
def hexByte (n : Nat) : List Char := [hexDigit (n / 16), hexDigit (n % 16)]

/-- The digits after an optional `0x`. -/
def withoutPrefix : List Char → List Char
  | '0' :: 'x' :: rest => rest
  | '0' :: 'X' :: rest => rest
  | text => text

/-- `normalize_color`: `value[-6:].upper()` of a text that matches
`(?:0[xX])?[0-9a-fA-F]{6}`. -/
def normalizeColor (value : String) : Except InputError String :=
  let digits := withoutPrefix value.toList
  if digits.length = 6 ∧ digits.all isHexDigit then .ok (String.ofList (digits.map Char.toUpper))
  else .error ⟨"colors must be six hexadecimal RGB digits"⟩

/-! ### Patterns -/

/-- `[int(color[i:i + 2], 16) for i in (0, 2, 4)]` -/
def octets (color : String) : List Nat :=
  [0, 2, 4].map fun i => parseHex ((color.toList.drop i).take 2)

/-- `np.unpackbits` of one octet: the most significant bit first. -/
def unpackBits (octet : Nat) : List Bool := [7, 6, 5, 4, 3, 2, 1, 0].map octet.testBit

/-- The 24 bits of a pixel. -/
def pattern (profile : PixelType) (color : String) : List Bool :=
  (profile.order.map fun i => (octets color).getD i 0).flatMap unpackBits

/-- `patterns_for`: a dictionary keeps the first place of a repeated key. -/
def patternsFor (profile : PixelType) (colors : List String) : List (String × List Bool) :=
  colors.eraseDups.map fun color => (color, pattern profile color)

/-- `np.packbits` of eight bits. -/
def packBits (bits : List Bool) : Nat := bits.foldl (fun value bit => value * 2 + bit.toNat) 0

/-- The RGB text of 24 wire bits. -/
def rgbText (profile : PixelType) (bits : List Bool) : String :=
  let wire := [0, 8, 16].map fun i => packBits ((bits.drop i).take 8)
  let rgb := (profile.order.zip wire).foldl (fun rgb (i, octet) => rgb.set i octet) [0, 0, 0]
  String.ofList (rgb.flatMap hexByte)

/-- `np.roll(bits, phase)` of 24 bits. -/
def roll (bits : List Bool) (phase : Nat) : List Bool :=
  (List.range 24).map fun i => bits.getD ((i + 24 - phase % 24) % 24) false

end Capture

end Dld
