import Lineage.Text.CharWidth

/-!
Letters that are drawn as one with the letters before them. As with emoji, a group is read from its
right end, and `Part` is what was read of it so far.
-/

namespace Lineage.Ligature

/-- The Arabic letters of the alef group. -/
def alef : Runs :=
  [
    (0x622, 0x623), (0x625, 0x625), (0x627, 0x627), (0x671, 0x673), (0x675, 0x675), (0x773, 0x774),
    (0x870, 0x882)
  ]

/-- The Arabic letters of the lam group, which take in an alef. -/
def lam : Runs :=
  [
    (0x644, 0x644), (0x6B5, 0x6B8), (0x76A, 0x76A), (0x8A6, 0x8A6), (0x8C7, 0x8C7)
  ]

/-- The Khmer letters that can be written below another letter. -/
def khmerLetter : Runs :=
  [
    (0x1780, 0x1782), (0x1784, 0x1787), (0x1789, 0x178C), (0x178E, 0x1793), (0x1795, 0x1798),
    (0x179B, 0x179D), (0x17A0, 0x17A0), (0x17A2, 0x17A2), (0x17A7, 0x17A7), (0x17AB, 0x17AC),
    (0x17AF, 0x17AF)
  ]

def tifinaghLetter : Runs :=
  [
    (0x2D31, 0x2D65), (0x2D6F, 0x2D6F)
  ]

/-- The Lisu tones that combine with a second tone. -/
def lisuFirstTone : Runs := [(0xA4F8, 0xA4FB)]

def lisuSecondTone : Runs := [(0xA4FC, 0xA4FD)]

/-- Invisible marks that may stand between the letters of a group. -/
def invisibleMark : Runs :=
  [
    (0x34F, 0x34F), (0x17B4, 0x17B5), (0x180B, 0x180D), (0x180F, 0x180F), (0xFE00, 0xFE0F),
    (0xE0100, 0xE01EF)
  ]

/-- The right part of a group of letters. -/
inductive Part where
  /-- An Arabic alef. -/
  | alef
  /-- A Hebrew lamed, and whether a joiner stands before it. -/
  | lamed (joined : Bool)
  /-- A Khmer letter. -/
  | khmer
  /-- A Buginese ya, and whether a joiner stands before it. -/
  | ya (joined : Bool)
  /-- A Buginese ya with the joiner and the vowel before it. -/
  | vowelYa
  /-- A Tifinagh letter, and whether a joiner stands before it. -/
  | tifinagh (joined : Bool)
  /-- A Tifinagh letter with the consonant joiner before it. -/
  | tifinaghPair
  /-- A second Lisu tone. -/
  | lisuTone
  /-- An Old Turkic i, and whether a joiner stands before it. -/
  | orkhonI (joined : Bool)
  /-- The Kirat Rai vowel e, of which two make the vowel ai. -/
  | kiratE
  /-- The Kirat Rai vowel ai. -/
  | kiratAi
  deriving Repr, DecidableEq

namespace Part

/-- The group that a character begins from the right. -/
def ofChar? (char : Char) : Option Part :=
  if Ligature.alef.contains char then some .alef
  else if char.toNat = 0x5DC then some (.lamed false)
  else if khmerLetter.contains char then some .khmer
  else if char.toNat = 0x1A10 then some (.ya false)
  else if tifinaghLetter.contains char then some (.tifinagh false)
  else if lisuSecondTone.contains char then some .lisuTone
  else if char.toNat = 0x10C03 then some (.orkhonI false)
  else if char.toNat = 0x16D67 then some .kiratE
  else if char.toNat = 0x16D68 then some .kiratAi
  else none

/-- Whether joiners and invisible marks may stand between the letters of the group. -/
def admitsMarks : Part → Bool
  | .alef | .kiratE | .kiratAi => false
  | _ => true

/-- Whether the group is still open in front of a selector. -/
def admitsSelectors : Part → Bool
  | .kiratE | .kiratAi => false
  | _ => true

/-- The part with a joiner before it. -/
def join : Part → Part
  | .lamed _ => .lamed true
  | .ya _ => .ya true
  | .tifinagh _ => .tifinagh true
  | .orkhonI _ => .orkhonI true
  | part => part

/-- The group with one more letter on its left and the columns that this adds, if the letter belongs
to it. There is no part left when the letter completes the group. -/
def combine (part : Part) (char : Char) : Option (Int × Option Part) :=
  match part with
  | .alef =>
    if lam.contains char then some (0, none)
    else if CharWidth.isTransparent char then some (0, some .alef)
    else none
  | .lamed joined => if joined && char.toNat = 0x5D0 then some (0, none) else none
  | .khmer => if char.toNat = 0x17D2 then some (-1, none) else none
  | .ya joined => if joined && char.toNat = 0x1A17 then some (0, some .vowelYa) else none
  | .vowelYa => if char.toNat = 0x1A15 then some (0, none) else none
  | .tifinagh joined =>
    if char.toNat = 0x2D7F then some (1, some .tifinaghPair)
    else if joined && tifinaghLetter.contains char then some (0, none)
    else none
  | .tifinaghPair => if tifinaghLetter.contains char then some (-1, none) else none
  | .lisuTone => if lisuFirstTone.contains char then some (0, none) else none
  | .orkhonI joined => if joined && char.toNat = 0x10C32 then some (0, none) else none
  | .kiratE =>
    if char.toNat = 0x16D63 then some (0, none)
    else if char.toNat = 0x16D67 then some (0, some .kiratAi)
    else if char.toNat = 0x16D68 then some (1, some .kiratE)
    else if char.toNat = 0x16D69 then some (0, none)
    else none
  | .kiratAi => if char.toNat = 0x16D63 then some (0, none) else none

/-- What `combine` does, where joiners and invisible marks are passed over. -/
def extend (part : Part) (char : Char) : Option (Int × Option Part) :=
  if part.admitsMarks && char = CharWidth.joiner then some (0, some part.join)
  else if part.admitsMarks && invisibleMark.contains char then some (0, some part)
  else part.combine char

end Part

end Lineage.Ligature
