/-
  PropertyArchive.Text.Width — how many columns a text takes on a terminal.

  A character has columns of its own (`own`): two on a full square or as an emoji, none
  as a mark on the character before it or where nothing is drawn, one otherwise, control
  characters too. What stands behind it may change them, because some characters are
  drawn together:
  - a line break of two characters counts once;
  - a selector makes the character before it an emoji, a text sign or a wide quote;
  - emoji joined to one emoji, a coloured emoji and a flag count once;
  - letters that form a ligature count as one letter, with marks between them or not.

  So a text is measured from its end, and every character sees what follows it (`columns`).
-/
import PropertyArchive.Text.CharRange

namespace PropertyArchive.Text

inductive Selector
  | emoji
  | text
  | wideQuote
  deriving DecidableEq

def Selector.ofChar? (c : Char) : Option Selector :=
  if c.toNat = 0xFE0F then some .emoji
  else if c.toNat = 0xFE0E then some .text
  else if c.toNat = 0xFE01 then some .wideQuote
  else none

/-- What begins behind a character, where that can change the character's columns. -/
inductive Start
  | other
  | lineFeed
  | alef
  | khmerLetter
  | hebrewLamed
  | bugineseYa
  /-- A Buginese vowel sign that is joined to a ya. -/
  | bugineseVowelYa
  | tifinaghLetter
  /-- A Tifinagh consonant joiner with the consonant behind it. -/
  | tifinaghJoiner
  | lisuTone
  | orkhonI
  | kiratRaiE
  | kiratRaiAi
  | emoji
  | skinTone
  | regionalIndicator
  | regionalIndicators
  /-- A joiner with an emoji behind it. -/
  | joinedEmoji
  | joinedKeycap
  /-- One regional indicator before a joiner: no flag yet, so the emoji keeps its columns. -/
  | joinedIndicator
  /-- Regional indicators in pairs before a joiner: the last flag and the emoji are one. -/
  | joinedIndicatorsEven
  /-- Three or more before a joiner, the last of them alone: flags and then an emoji. -/
  | joinedIndicatorsOdd
  /-- The end of a flag's tag sequence, after so many letters. -/
  | tagLetters (count : Nat)
  /-- The end of a flag's tag sequence, after so many digits. -/
  | tagDigits (count : Nat)
  deriving DecidableEq

namespace Start

/-- A letter that forms ligatures: marks that are not drawn may stand before it. -/
def isTransparent : Start → Bool
  | .khmerLetter | .hebrewLamed | .bugineseYa | .bugineseVowelYa | .tifinaghLetter | .tifinaghJoiner
  | .lisuTone | .orkhonI => true
  | _ => false

/-- A letter that forms ligatures, with a selector before it or not. -/
def isLetter (start : Start) : Bool := start = .alef || start.isTransparent

/-- An emoji that takes an emoji before it into its sequence. -/
def isJoinedEmoji : Start → Bool
  | .joinedEmoji | .joinedKeycap => true
  | _ => false

/-- Whether a selector leaves it what it is. -/
def keeps (start : Start) (s : Selector) : Bool := start.isLetter || (s = .emoji && start.isJoinedEmoji)

end Start

structure Following where
  start : Start
  /-- A joiner stands before a letter that forms ligatures. -/
  joined : Bool
  /-- A selector stands before all of it. -/
  selector : Option Selector
  deriving DecidableEq

namespace Following

def of (start : Start) : Following := { start, joined := false, selector := none }

def nothing : Following := of .other

def select (f : Following) (s : Selector) : Following :=
  { (if f.start.keeps s then f else nothing) with selector := some s }

/-- Without the selector, where the character before it has no such form. The selector
still parts that character from an emoji, but letters join across it. -/
def unselect (f : Following) : Following :=
  if f.selector.isNone then f
  else if f.start.isLetter then { f with selector := none }
  else nothing

end Following

def isJoiner (c : Char) : Bool := c.toNat = 0x200D

def isSkinTone (c : Char) : Bool := within [(0x1F3FB, 0x1F3FF)] c

def isRegionalIndicator (c : Char) : Bool := within [(0x1F1E6, 0x1F1FF)] c

def isQuote (c : Char) : Bool := within [(0x2018, 0x2019), (0x201C, 0x201D)] c

def takesEmojiForm (c : Char) : Bool := within textPictureRanges c || within choicePictureRanges c

/-- A character that a text selector makes narrow; those on a full square stay wide. -/
def takesTextForm (c : Char) : Bool := within choicePictureRanges c && !within [(0x1F200, 0x1F2FF)] c

/-- The columns of a character that stands for itself, and what it begins. -/
def own (c : Char) : Nat × Start :=
  if within zeroWidthRanges c then (0, .other)
  else if within emojiRanges c then (2, .emoji)
  else if isSkinTone c then (2, .skinTone)
  else if isRegionalIndicator c then (1, .regionalIndicator)
  else if within wideRanges c then (2, .other)
  else if within alefRanges c then (1, .alef)
  else if within khmerStackRanges c then (1, .khmerLetter)
  else if within tifinaghRanges c then (1, .tifinaghLetter)
  else match c.toNat with
    | 0x5DC => (1, .hebrewLamed)
    | 0x17A4 => (2, .other)
    | 0x17D8 => (3, .other)
    | 0x1A10 => (1, .bugineseYa)
    | 0xA4FC | 0xA4FD => (1, .lisuTone)
    | 0x10C03 => (1, .orkhonI)
    | 0x16D67 => (1, .kiratRaiE)
    | 0x16D68 => (1, .kiratRaiAi)
    | _ => (1, .other)

def isJoinedAcross (c : Char) : Bool := (own c).1 = 0 && !within nonJoiningRanges c

/-- The columns that a character adds to what it is drawn together with, and what both
begin; `joined` says that a joiner stands between letters. A negative number takes back
a column of the letter behind. -/
def Start.drawnWith (c : Char) (joined : Bool) : Start → Option (Int × Start)
  | .alef =>
    if within lamRanges c then some (0, .other)
    else if isJoinedAcross c then some (0, .alef)
    else none
  | .hebrewLamed => if joined && c.toNat = 0x5D0 then some (0, .other) else none
  | .khmerLetter => if !joined && c.toNat = 0x17D2 then some (-1, .other) else none
  | .bugineseYa => if joined && c.toNat = 0x1A17 then some (0, .bugineseVowelYa) else none
  | .bugineseVowelYa => if !joined && c.toNat = 0x1A15 then some (0, .other) else none
  | .tifinaghLetter =>
    if c.toNat = 0x2D7F then some (1, .tifinaghJoiner)
    else if joined && within tifinaghRanges c then some (0, .other)
    else none
  | .tifinaghJoiner => if !joined && within tifinaghRanges c then some (-1, .other) else none
  | .lisuTone => if !joined && within [(0xA4F8, 0xA4FB)] c then some (0, .other) else none
  | .orkhonI => if joined && c.toNat = 0x10C32 then some (0, .other) else none
  | .kiratRaiE =>
    if within [(0x16D63, 0x16D63), (0x16D69, 0x16D69)] c then some (0, .other)
    else if c.toNat = 0x16D67 then some (0, .kiratRaiAi)
    else if c.toNat = 0x16D68 then some (1, .kiratRaiE)
    else none
  | .kiratRaiAi => if c.toNat = 0x16D63 then some (0, .other) else none
  | .emoji => if isJoiner c then some (0, .joinedEmoji) else none
  | .skinTone =>
    if within bodyRanges c then some (0, .emoji)
    else if isJoiner c then some (0, .joinedEmoji)
    else none
  | .regionalIndicator => if isRegionalIndicator c then some (1, .regionalIndicators) else none
  | .regionalIndicators =>
    if isRegionalIndicator c then some (1, .regionalIndicators)
    else if isJoiner c then some (0, .joinedEmoji)
    else none
  | .joinedEmoji =>
    if c.toNat = 0x20E3 then some (0, .joinedKeycap)
    else if isRegionalIndicator c then some (1, .joinedIndicator)
    else if isSkinTone c then some (0, .skinTone)
    else if c.toNat = 0xE007F then some (0, .tagLetters 0)
    else if within emojiRanges c then some (0, .emoji)
    else none
  | .joinedKeycap => none
  | .joinedIndicator => if isRegionalIndicator c then some (-1, .joinedIndicatorsEven) else none
  | .joinedIndicatorsEven =>
    if isRegionalIndicator c then some (3, .joinedIndicatorsOdd)
    else if isJoiner c then some (0, .joinedEmoji)
    else none
  | .joinedIndicatorsOdd =>
    if isRegionalIndicator c then some (-1, .joinedIndicatorsEven)
    else if isJoiner c then some (0, .joinedEmoji)
    else none
  | .tagLetters count =>
    if within [(0xE0061, 0xE007A)] c && count < 6 then some (0, .tagLetters (count + 1))
    else if within [(0xE0030, 0xE0039)] c && count ≤ 4 then some (0, .tagDigits 1)
    else if c.toNat = 0x1F3F4 && 3 ≤ count then some (0, .emoji)
    else none
  | .tagDigits count =>
    if within [(0xE0030, 0xE0039)] c && count < 3 then some (0, .tagDigits (count + 1))
    else if c.toNat = 0x1F3F4 && count = 3 then some (0, .emoji)
    else none
  | .other | .lineFeed => none

/-- The columns that a character adds to the text behind it, where the character is drawn
as no selector asks, and what the longer text begins with. -/
def columnsUnselected (c : Char) (following : Following) : Int × Following :=
  let start := following.start
  if start.isTransparent && isJoiner c then (0, { following with joined := true })
  else if start.isTransparent && within ignorableMarkRanges c then (0, following)
  else match start.drawnWith c following.joined with
    | some (added, start) => (added, .of start)
    | none =>
      let (columns, start) := own c
      (columns, .of start)

def columns (c : Char) (following : Following) : Int × Following :=
  if following.selector = some .emoji && takesEmojiForm c then
    -- A second emoji of a joined sequence is drawn in the square of the first.
    (if following.start.isJoinedEmoji then 0 else 2, .of .emoji)
  else
    let following := if following.selector = some .emoji then following.unselect else following
    if c.toNat ≤ 0xA0 then
      if c = '\n' then (1, .of .lineFeed)
      else if c = '\r' && following.start = .lineFeed then (0, .nothing)
      else (1, .nothing)
    else match Selector.ofChar? c with
      | some selector => (0, following.select selector)
      | none =>
        if following.selector = some .text && takesTextForm c then (1, .nothing)
        else if following.selector = some .wideQuote && isQuote c then (2, .nothing)
        else columnsUnselected c following.unselect

/-- The columns of a text and what it begins with, measured from its end. -/
def measure (t : Text) : Int × Following :=
  t.foldr (fun c (total, following) =>
    let (added, following) := columns c following
    (total + added, following)) (0, .nothing)

def width (t : Text) : Nat := (measure t).1.toNat

end PropertyArchive.Text
