import Lineage.Json.Lexeme

/-!
Reading and writing JSON texts. The reader consumes one lexeme at a time and keeps the containers
that are still open on a stack; the writer lists the lexemes of a value.
-/

namespace Lineage.Json

/-- A container that waits for a value, with what it holds so far from last to first. -/
inductive Frame where
  | items (done : List Json)
  | members (done : List (Option String × Json)) (key : Option String)

/-- What the reader expects next. -/
inductive Expect where
  | value
  /-- The first item of an array, or its end. -/
  | itemOrEnd
  /-- The first key of an object, or its end. -/
  | keyOrEnd
  | key (done : List (Option String × Json))
  | colon (done : List (Option String × Json)) (key : Option String)
  /-- A value is complete: what goes on around it, or nothing. -/
  | after (value : Json)

/-- The containers around the current place and what is expected there. -/
structure ReadState where
  stack : List Frame
  expect : Expect

namespace ReadState

/-- Begins a value. -/
def beginValue (stack : List Frame) : Lexeme → Option ReadState
  | .null => some ⟨stack, .after .null⟩
  | .bool b => some ⟨stack, .after (.bool b)⟩
  | .number n => some ⟨stack, .after (.number n)⟩
  | .string s => some ⟨stack, .after (.string s)⟩
  | .openBracket => some ⟨stack, .itemOrEnd⟩
  | .openBrace => some ⟨stack, .keyOrEnd⟩
  | _ => none

/-- Goes on after a complete value. -/
def goOn (value : Json) : List Frame → Lexeme → Option ReadState
  | .items done :: stack, .comma => some ⟨.items (value :: done) :: stack, .value⟩
  | .items done :: stack, .closeBracket => some ⟨stack, .after (.array (value :: done).reverse)⟩
  | .members done key :: stack, .comma => some ⟨stack, .key ((key, value) :: done)⟩
  | .members done key :: stack, .closeBrace =>
    some ⟨stack, .after (.object ((key, value) :: done).reverse)⟩
  | _, _ => none

def step (state : ReadState) (lexeme : Lexeme) : Option ReadState :=
  match state.expect, lexeme with
  | .value, lexeme => beginValue state.stack lexeme
  | .itemOrEnd, .closeBracket => some ⟨state.stack, .after (.array [])⟩
  | .itemOrEnd, lexeme => beginValue (.items [] :: state.stack) lexeme
  | .keyOrEnd, .closeBrace => some ⟨state.stack, .after (.object [])⟩
  | .keyOrEnd, .string key => some ⟨state.stack, .colon [] key⟩
  | .key done, .string key => some ⟨state.stack, .colon done key⟩
  | .colon done key, .colon => some ⟨.members done key :: state.stack, .value⟩
  | .after value, lexeme => goOn value state.stack lexeme
  | _, _ => none

def run (state : ReadState) (lexemes : List Lexeme) : Option ReadState :=
  lexemes.foldlM step state

end ReadState

/-- The value of a sequence of lexemes, if it is exactly one value. -/
def ofLexemes? (lexemes : List Lexeme) : Option Json :=
  match ReadState.run ⟨[], .value⟩ lexemes with
  | some ⟨[], .after value⟩ => some value
  | _ => none

/-- Reads a text that holds one value, with blanks anywhere between lexemes. -/
def parse? (text : String) : Option Json :=
  (lexemes? text.toList).bind ofLexemes?

mutual

/-- The lexemes of a value. -/
def lexemes : Json → List Lexeme
  | .null => [.null]
  | .bool b => [.bool b]
  | .number n => [.number n]
  | .string s => [.string s]
  | .array items => .openBracket :: itemLexemes items ++ [.closeBracket]
  | .object members => .openBrace :: memberLexemes members ++ [.closeBrace]

def itemLexemes : List Json → List Lexeme
  | [] => []
  | [item] => lexemes item
  | item :: rest => lexemes item ++ .comma :: itemLexemes rest

def memberLexemes : List (Option String × Json) → List Lexeme
  | [] => []
  | [(key, value)] => .string key :: .colon :: lexemes value
  | (key, value) :: rest => .string key :: .colon :: lexemes value ++ .comma :: memberLexemes rest

end

/-- The text of a value without any blanks. -/
def compact (value : Json) : String :=
  String.ofList (value.lexemes.flatMap Lexeme.chars)

/-- Two blanks for each level of nesting, on a new line. -/
def newLine (level : Nat) : List Char :=
  '\n' :: List.replicate (2 * level) ' '

mutual

/-- The text of a value with a line for each item and each member. -/
def prettyChars (level : Nat) : Json → List Char
  | .array [] => ['[', ']']
  | .array items => '[' :: prettyItems (level + 1) items ++ newLine level ++ [']']
  | .object [] => ['\x7b', '\x7d']
  | .object members => '\x7b' :: prettyMembers (level + 1) members ++ newLine level ++ ['\x7d']
  | .null => Lexeme.null.chars
  | .bool b => (Lexeme.bool b).chars
  | .number n => (Lexeme.number n).chars
  | .string s => (Lexeme.string s).chars

def prettyItems (level : Nat) : List Json → List Char
  | [] => []
  | [item] => newLine level ++ prettyChars level item
  | item :: rest => newLine level ++ prettyChars level item ++ ',' :: prettyItems level rest

def prettyMembers (level : Nat) : List (Option String × Json) → List Char
  | [] => []
  | [(key, value)] =>
    newLine level ++ (Lexeme.string key).chars ++ ':' :: ' ' :: prettyChars level value
  | (key, value) :: rest =>
    newLine level ++ (Lexeme.string key).chars ++ ':' :: ' ' :: prettyChars level value
      ++ ',' :: prettyMembers level rest

end

def pretty (value : Json) : String :=
  String.ofList (value.prettyChars 0)

end Lineage.Json
