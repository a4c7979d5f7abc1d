import Lineage.Text.Emoji
import Lineage.Text.Ligature

/-!
Display width of text in columns. The text is measured from its end: how many columns a character
takes depends on the emoji sequence or the group of letters on its right, and on the selectors
behind it.
-/

namespace Lineage.Width

/-- An invisible character that asks for a form of the character before it. -/
inductive Selector where
  | text
  | emoji
  /-- The form of two columns of a quotation mark. -/
  | wide
  deriving Repr, DecidableEq

def Selector.ofChar? (char : Char) : Option Selector :=
  if char.toNat = 0xFE01 then some .wide
  else if char.toNat = 0xFE0E then some .text
  else if char.toNat = 0xFE0F then some .emoji
  else none

/-- The forms that are asked of a character. -/
structure Request where
  text : Bool := false
  emoji : Bool := false
  wide : Bool := false
  deriving Repr, DecidableEq

def Request.add (request : Request) : Selector → Request
  | .text => { request with text := true }
  | .emoji => { request with emoji := true }
  | .wide => { request with wide := true }

/-- What stands on the right of a character, as far as the character can belong to it. -/
inductive Context where
  | plain
  | letters (part : Ligature.Part)
  | emoji (tail : Emoji.Tail)
  deriving Repr, DecidableEq

namespace Context

/-- The context that a character makes for the one before it. -/
def ofChar (char : Char) : Context :=
  match Ligature.Part.ofChar? char with
  | some part => .letters part
  | none =>
    match Emoji.Tail.ofChar? char with
    | some tail => .emoji tail
    | none => .plain

def ofPart? : Option Ligature.Part → Context
  | some part => .letters part
  | none => .plain

/-- The context with one more character on its left and the columns that this adds, if the character
belongs to it. -/
def extend (context : Context) (char : Char) : Option (Int × Context) :=
  match context with
  | .plain => none
  | .letters part => (part.extend char).map fun (columns, rest) => (columns, ofPart? rest)
  | .emoji tail => (tail.extend char).map fun (columns, rest) => (columns, .emoji rest)

/-- Whether an emoji that is asked for in front of the context is drawn as one with it. -/
def joinsEmoji : Context → Bool
  | .emoji tail => tail.takesSelector
  | _ => false

/-- Whether a group of letters stays open in front of selectors. -/
def joinsLetters : Context → Bool
  | .letters part => part.admitsSelectors
  | _ => false

/-- Whether the context is kept in front of a selector. -/
def admits (context : Context) (selector : Selector) : Bool :=
  context.joinsLetters || (selector == .emoji && context.joinsEmoji)

end Context

/-- The characters on the right of the place that is measured next. -/
structure Right where
  context : Context := .plain
  request : Request := {}
  deriving Repr, DecidableEq

namespace Right

/-- The right with a selector before it. What was asked for earlier is still asked for as long as
the context is kept. -/
def select (right : Right) (selector : Selector) : Right :=
  if right.context.admits selector then { right with request := right.request.add selector }
  else { request := Request.add {} selector }

/-- The right without its request for an emoji, which the next character cannot meet. -/
def withoutEmoji (right : Right) : Right :=
  if right.context.joinsLetters then { right with request := { right.request with emoji := false } }
  else {}

end Right

/-- Quotation marks that have a form of two columns. -/
def quotationMark : Runs := [(0x2018, 0x2019), (0x201C, 0x201D)]

/-- The columns that a character adds to the text on its right, when no emoji is asked of it. -/
def stepPlain (char : Char) (right : Right) : Int × Right :=
  if char.toNat ≤ 0xA0 then (1, {})
  else
    match Selector.ofChar? char with
    | some selector => (0, right.select selector)
    | none =>
      if right.request.text && Emoji.narrowsAsText char then (1, {})
      else if right.request.wide && quotationMark.contains char then (2, {})
      else
        match right.context.extend char with
        | some (columns, context) => (columns, { context })
        | none => (CharWidth.ofChar char, { context := .ofChar char })

/-- The columns that a character adds to the text on its right, and what now stands on the right of
the next character. A joined character may take columns back. -/
def step (char : Char) (right : Right) : Int × Right :=
  if right.request.emoji then
    if Emoji.twoForms.contains char then
      (if right.context.joinsEmoji then 0 else 2, { context := .emoji .whole })
    else stepPlain char right.withoutEmoji
  else stepPlain char right

/-- The columns of a text, and what it puts on the right of a character in front of it. -/
def measure (text : List Char) : Int × Right :=
  text.foldr (fun char (columns, right) =>
    let (added, next) := step char right
    (columns + added, next)) (0, {})

/-- The columns of a text. -/
def columns (text : List Char) : Nat :=
  (measure text).1.toNat

end Lineage.Width
