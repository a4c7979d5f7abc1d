import Lineage.Json.Lexeme
import Lineage.Path
import Lineage.View

/-!
The command line. Arguments are taken from left to right and the first one that does not fit decides
the outcome; options may stand between positional arguments, and `--` ends the options of a command.
-/

namespace Lineage.CommandLine

/-- Options that every command takes. -/
structure Shared where
  verbose : Bool := false
  logDir : Option Path := none
  deriving Repr, DecidableEq

/-- What `diff` is given besides the shared options. -/
structure DiffOptions where
  format : Option OutputFormat := none
  all : Bool := false
  threshold : Option Float := none
  config : Option Path := none

inductive Command where
  | diff (before after : Path) (options : DiffOptions)
  | tree (path : Path)

/-- What a list of arguments asks for. -/
inductive Request where
  | run (shared : Shared) (command : Command)
  | version
  | help
  | misuse

/-- An argument by its form. -/
inductive Argument where
  /-- The argument `--`. -/
  | dashes
  /-- An option `--name` or `--name=value`. -/
  | long (name : String) (value : Option String)
  /-- Options `-abc`, one letter for each. -/
  | short (letters : List Char)
  | plain (text : String)
  deriving Repr, DecidableEq

/-- Splits an option at its first `=`. -/
def splitOption (text : List Char) : String × Option String :=
  match text.dropWhile (· != '=') with
  | [] => (String.ofList text, none)
  | _ :: value => (String.ofList (text.takeWhile (· != '=')), some (String.ofList value))

/-- The form of an argument; a single `-` is plain. -/
def Argument.ofText (text : String) : Argument :=
  match text.toList with
  | ['-', '-'] => .dashes
  | '-' :: '-' :: rest => .long (splitOption rest).1 (splitOption rest).2
  | ['-'] => .plain text
  | '-' :: letters => .short letters
  | _ => .plain text

/-- The value of an option and the arguments left: the one attached to it, or the next argument
unless that looks like an option. -/
def takeValue? (attached : Option String) (rest : List String) : Option (String × List String) :=
  match attached, rest with
  | some value, rest => some (value, rest)
  | none, next :: rest =>
    match Argument.ofText next with
    | .plain value => some (value, rest)
    | _ => none
  | none, [] => none

/-- Sets an option that may be given once. -/
def setOnce? {α : Type} (old : Option α) (new : Option α) : Option α :=
  if old.isSome then none else new

def path? (text : String) : Option Path :=
  if text.isEmpty then none else some ⟨text⟩

def format? : String → Option OutputFormat
  | "table" => some .table
  | "json" => some .json
  | _ => none

/-- The double nearest to `digits * 10 ^ exponent`. Exponents far outside of the range are not
computed: the result is infinite or zero. -/
def scaled (digits : Nat) (exponent : Int) : Float :=
  let point := Decimal.width digits + exponent
  if digits = 0 ∨ point < -330 then 0
  else if 310 < point then 1 / 0
  else Float.ofScientific digits (exponent < 0) exponent.natAbs

/-- A number without sign: digits with an optional point, at least one of them, and an optional
exponent. -/
def unsigned? (text : List Char) : Option Float :=
  let (whole, rest) := Json.spanDigits text
  let (fraction, rest) :=
    match rest with
    | '.' :: rest => Json.spanDigits rest
    | _ => ([], rest)
  if whole.isEmpty && fraction.isEmpty then none
  else
    match Json.readExponent? rest with
    | some (exponent, []) =>
      some (scaled (Json.Number.ofDigits (whole ++ fraction))
        (exponent.getD 0 - fraction.length))
    | _ => none

/-- A number, an infinity or no number, the words in any case. -/
def magnitude? (text : List Char) : Option Float :=
  match String.ofList (text.map Char.toLower) with
  | "inf" | "infinity" => some (1 / 0)
  | "nan" => some (0 / 0)
  | _ => unsigned? text

/-- A number with an optional sign. -/
def number? (text : String) : Option Float :=
  match text.toList with
  | '-' :: rest => (magnitude? rest).map fun x => -x
  | '+' :: rest => magnitude? rest
  | rest => magnitude? rest

/-- What an argument of either level did: another state, or the outcome. -/
inductive Step (σ : Type) where
  | next (state : σ) (rest : List String)
  | done (request : Request)

/-- Applies a cluster of short options; only `v` goes on. -/
def shortOptions (versioned : Bool) (shared : Shared) (rest : List String) :
    List Char → Step Shared
  | [] => .next shared rest
  | 'v' :: letters =>
    if shared.verbose then .done .misuse
    else shortOptions versioned { shared with verbose := true } rest letters
  | 'h' :: _ => .done .help
  | 'V' :: _ => .done (if versioned then .version else .misuse)
  | _ :: _ => .done .misuse

/-- Applies a long option that every command takes. -/
def longOption (versioned : Bool) (shared : Shared) (rest : List String) (name : String)
    (value : Option String) : Step Shared :=
  match name, value with
  | "verbose", none =>
    if shared.verbose then .done .misuse else .next { shared with verbose := true } rest
  | "help", none => .done .help
  | "version", none => .done (if versioned then .version else .misuse)
  | "log-dir", value =>
    match takeValue? value rest with
    | none => .done .misuse
    | some (text, rest) =>
      match setOnce? shared.logDir (path? text) with
      | some dir => .next { shared with logDir := some dir } rest
      | none => .done .misuse
  | _, _ => .done .misuse

/-- The arguments of a command so far. -/
structure CommandState where
  shared : Shared := {}
  positionals : List Path := []
  options : DiffOptions := {}

/-- The number of positional arguments that a command takes, and whether it takes the options of
`diff`. -/
structure Arity where
  positionals : Nat
  diffOptions : Bool

def addPositional (arity : Arity) (state : CommandState) (text : String) : Option CommandState :=
  if state.positionals.length < arity.positionals then
    (path? text).map fun path => { state with positionals := state.positionals ++ [path] }
  else none

/-- Applies an option of `diff` with its value. -/
def diffValue? (options : DiffOptions) (name value : String) : Option DiffOptions :=
  match name with
  | "format" =>
    (setOnce? options.format (format? value)).map fun f => { options with format := some f }
  | "threshold" =>
    (setOnce? options.threshold (number? value)).map fun t => { options with threshold := some t }
  | "config" =>
    (setOnce? options.config (path? value)).map fun p => { options with config := some p }
  | _ => none

/-- Applies a long option of a command. -/
def commandOption (arity : Arity) (state : CommandState) (rest : List String) (name : String)
    (value : Option String) : Step CommandState :=
  if arity.diffOptions && (name == "format" || name == "threshold" || name == "config") then
    match takeValue? value rest with
    | none => .done .misuse
    | some (text, rest) =>
      match diffValue? state.options name text with
      | some options => .next { state with options } rest
      | none => .done .misuse
  else if arity.diffOptions && name == "all" then
    if value.isSome || state.options.all then .done .misuse
    else .next { state with options := { state.options with all := true } } rest
  else
    match longOption false state.shared rest name value with
    | .next shared rest => .next { state with shared } rest
    | .done request => .done request

/-- One argument of a command. -/
def commandStep (arity : Arity) (state : CommandState) (text : String) (rest : List String) :
    Step CommandState :=
  match Argument.ofText text with
  | .plain text =>
    match addPositional arity state text with
    | some state => .next state rest
    | none => .done .misuse
  | .short letters =>
    match shortOptions false state.shared rest letters with
    | .next shared rest => .next { state with shared } rest
    | .done request => .done request
  | .long name value => commandOption arity state rest name value
  | .dashes =>
    match rest.foldlM (addPositional arity) state with
    | some state => .next state []
    | none => .done .misuse

/-- The options of a command win over those before it. -/
def merge (outer inner : Shared) : Shared where
  verbose := outer.verbose || inner.verbose
  logDir := inner.logDir.or outer.logDir

def finish (outer : Shared) (diff : Bool) (state : CommandState) : Request :=
  match diff, state.positionals with
  | true, [before, after] => .run (merge outer state.shared) (.diff before after state.options)
  | false, [path] => .run (merge outer state.shared) (.tree path)
  | _, _ => .misuse

/-- No step gives back more arguments than it was left with. -/
theorem length_of_takeValue? {attached : Option String} {rest left : List String} {value : String}
    (h : takeValue? attached rest = some (value, left)) : left.length ≤ rest.length := by
  unfold takeValue? at h
  split at h
  · simp_all
  · split at h <;> simp_all
  · simp at h

theorem length_of_shortOptions {versioned : Bool} {shared shared' : Shared}
    {rest left : List String} {letters : List Char}
    (h : shortOptions versioned shared rest letters = .next shared' left) :
    left = rest := by
  fun_induction shortOptions versioned shared rest letters <;> simp_all

theorem length_of_longOption {versioned : Bool} {shared shared' : Shared} {rest left : List String}
    {name : String} {value : Option String}
    (h : longOption versioned shared rest name value = .next shared' left) :
    left.length ≤ rest.length := by
  unfold longOption at h
  split at h
  · split at h <;> simp_all
  · simp at h
  · simp at h
  · split at h
    · simp at h
    · next hv =>
      have := length_of_takeValue? hv
      split at h <;> simp_all
  · simp at h

theorem length_of_commandStep {arity : Arity} {state state' : CommandState} {text : String}
    {rest left : List String} (h : commandStep arity state text rest = .next state' left) :
    left.length ≤ rest.length := by
  unfold commandStep at h
  split at h
  · split at h <;> simp_all
  · split at h
    · next hs => have := length_of_shortOptions hs; simp_all
    · simp at h
  · unfold commandOption at h
    split at h
    · split at h
      · simp at h
      · next hv =>
        have := length_of_takeValue? hv
        split at h <;> simp_all
    · split at h
      · split at h <;> simp_all
      · split at h
        · next hl => have := length_of_longOption hl; simp_all
        · simp at h
  · split at h
    · simp only [Step.next.injEq] at h
      simp [← h.2]
    · simp at h

/-- The arguments after the name of a command. -/
def parseCommand (outer : Shared) (diff : Bool) (state : CommandState) : List String → Request
  | [] => finish outer diff state
  | text :: rest =>
    match _h : commandStep ⟨if diff then 2 else 1, diff⟩ state text rest with
    | .next state left => parseCommand outer diff state left
    | .done request => request
termination_by args => args.length
decreasing_by
  have := length_of_commandStep _h
  simp only [List.length_cons]
  omega

/-- Help on the program as a whole, or on one of its commands. -/
def helpOn : List String → Request
  | [] => .help
  | [topic] => if topic ∈ ["diff", "tree", "help"] then .help else .misuse
  | _ => .misuse

/-- The arguments before a command, and the command. -/
def parseShared (shared : Shared) : List String → Request
  | [] => .misuse
  | text :: rest =>
    match Argument.ofText text with
    | .plain "diff" => parseCommand shared true {} rest
    | .plain "tree" => parseCommand shared false {} rest
    | .plain "help" => helpOn rest
    | .plain _ => .misuse
    | .dashes => .misuse
    | .short letters =>
      match _h : shortOptions true shared rest letters with
      | .next shared left => parseShared shared left
      | .done request => request
    | .long name value =>
      match _h : longOption true shared rest name value with
      | .next shared left => parseShared shared left
      | .done request => request
termination_by args => args.length
decreasing_by
  · have := length_of_shortOptions _h
    simp_all
  · have := length_of_longOption _h
    simp only [List.length_cons]
    omega

/-- What a list of arguments asks for. -/
def parse (args : List String) : Request :=
  parseShared {} args

end Lineage.CommandLine
