import Dichromat.Value
import Dichromat.Text.Number

/-!
# Command-line arguments

Words are options or values: long options may be shortened to a unique beginning and take their
value behind `=`, short ones may be joined, and `--` ends the options. `Arguments.parse` gives
the arguments, or the exit code with which the command line ends at once.
-/

namespace Dichromat.CommandLine

/-- The options of the command. -/
inductive Flag
  | help | mode | config | seed | depth | json | css | preview | verbose
  deriving DecidableEq, Repr

namespace Flag

/-- The spellings of the options. -/
def spellings : List (String × Flag) :=
  [("-h", help), ("--help", help), ("-m", mode), ("--mode", mode), ("-c", config),
    ("--config", config), ("-s", seed), ("--seed", seed), ("-d", depth), ("--depth", depth),
    ("-j", json), ("--json", json), ("--css", css), ("-p", preview), ("--preview", preview),
    ("-v", verbose), ("--verbose", verbose)]

/-- The option with a spelling, if there is one. -/
def ofSpelling? (s : String) : Option Flag :=
  (spellings.find? fun entry => entry.1 = s).map Prod.snd

/-- Whether an option has a value. -/
def takesValue : Flag → Bool
  | mode | config | seed | depth | preview => true
  | _ => false

end Flag

/-! ### Words -/

/-- An option as it stands in a word, unless it is unknown. -/
structure OptionWord where
  flag? : Option Flag
  /-- Whether the option is spelled out behind two dashes. -/
  isLong : Bool
  /-- What stands behind the option in its word. -/
  attached : Option String

/-- What a word of the command line is. -/
inductive Word
  | value (text : String)
  | separator
  | option (o : OptionWord)

/-- The text before and behind the first equals sign. -/
def splitEquals (s : String) : Option (String × String) :=
  let name := s.toList.takeWhile (· ≠ '=')
  if name.length = s.length then none
  else some (String.ofList name, String.ofList (s.toList.drop (name.length + 1)))

/-- Whether a spelling is one with two hyphens. -/
def isLong (spelling : String) : Bool := spelling.startsWith "--"

/-- The options of which a word can be the beginning, or with which a short one is joined. -/
def completions (word : String) : List OptionWord :=
  if isLong word then
    let (name, attached) := match splitEquals word with
      | some (name, text) => (name, some text)
      | none => (word, none)
    (Flag.spellings.filter fun entry => entry.1.startsWith name).map fun (_, flag) =>
      { flag? := some flag, isLong := true, attached }
  else
    let short := String.ofList (word.toList.take 2)
    let rest := String.ofList (word.toList.drop 2)
    (Flag.spellings.filter fun entry => entry.1 = short || entry.1.startsWith word).map
      fun (spelling, flag) =>
        { flag? := some flag, isLong := isLong spelling
          attached := if spelling = short then some rest else none }

/-- A minus sign and a decimal number: a value, although it begins like an option. -/
def isNegativeNumber (word : String) : Bool :=
  let isDigit := fun c => (Text.digit? c).isSome
  let body := match word.toList.reverse with
    | '\n' :: rest => rest.reverse
    | rest => rest.reverse
  match body with
  | '-' :: rest =>
    let whole := rest.takeWhile isDigit
    match rest.drop whole.length with
    | [] => !whole.isEmpty
    | '.' :: fraction => !fraction.isEmpty && fraction.all isDigit
    | _ => false
  | _ => false

/-- What a word before the separator is; none if it is the beginning of several options. -/
def classify (word : String) : Option Word :=
  if !word.startsWith "-" || word = "-" then some (.value word)
  else if let some flag := Flag.ofSpelling? word then
    some (.option { flag? := some flag, isLong := isLong word, attached := none })
  else
    let exact := do
      let (name, text) ← splitEquals word
      let flag ← Flag.ofSpelling? name
      return OptionWord.mk (some flag) (isLong name) (some text)
    match exact with
    | some o => some (.option o)
    | none =>
      match completions word with
      | [o] => some (.option o)
      | _ :: _ => none
      | [] =>
        if isNegativeNumber word || word.toList.contains ' ' then some (.value word)
        else some (.option { flag? := none, isLong := isLong word, attached := none })

/-- The kinds of all words; behind the separator they are values. -/
def classifyAll : List String → Option (List Word)
  | [] => some []
  | word :: rest =>
    if word = "--" then some (.separator :: rest.map .value)
    else do
      let first ← classify word
      return first :: (← classifyAll rest)

/-! ### Parsing -/

/-- What the command line asks for. The value of an option is text or an integer, or null where the
option is not given; a separator as the value in the option's own word leaves an empty list. -/
structure Arguments where
  colors : List String
  mode : Value
  config : Value
  seed : Value
  depth : Value
  json : Bool
  css : Bool
  preview : Value
  verbosity : Nat

/-- The exit code of a command line that ends at once: 0 after help, 2 after a mistake. -/
abbrev Exit := Nat

/-- What has been made of the words so far. -/
structure Parsing where
  arguments : Arguments
  hasColors : Bool
  hasExtras : Bool

namespace Parsing

/-- The arguments before any word. -/
def start : Parsing where
  arguments :=
    { colors := [], mode := .text "red", config := .null, seed := .null, depth := .null
      json := false, css := false, preview := .null, verbosity := 0 }
  hasColors := false
  hasExtras := false

/-- The value of an option that takes text. -/
private def textValue (text : String) : Value := if text = "--" then .list [] else .text text

/-- The value of an option that takes an integer. -/
private def integerValue (text : String) : Except Exit Value :=
  if text = "--" then .ok (.list [])
  else
    match Text.integer text with
    | .ok n => .ok (.int n)
    | .error _ => .error 2

/-- The effect of an option that takes no value. -/
def setFlag (p : Parsing) (flag : Flag) : Except Exit Parsing :=
  let a := p.arguments
  match flag with
  | .help => .error 0
  | .json => .ok { p with arguments := { a with json := true } }
  | .css => .ok { p with arguments := { a with css := true } }
  | .verbose => .ok { p with arguments := { a with verbosity := a.verbosity + 1 } }
  | _ => .ok p

/-- The effect of an option with its value. -/
def setValue (p : Parsing) (flag : Flag) (text : String) : Except Exit Parsing := do
  let a := p.arguments
  match flag with
  | .mode => return { p with arguments := { a with mode := textValue text } }
  | .config => return { p with arguments := { a with config := textValue text } }
  | .preview => return { p with arguments := { a with preview := textValue text } }
  | .seed => return { p with arguments := { a with seed := ← integerValue text } }
  | .depth => return { p with arguments := { a with depth := ← integerValue text } }
  | _ => return p

/-- What stands behind the options without a value in a word. -/
inductive Ending
  | nothing
  /-- An option with its value in the same word. -/
  | value (flag : Flag) (text : String)
  /-- An option whose value is the next word. -/
  | wantsValue (flag : Flag)

/-- The options joined in a word, from one on: letters behind an option without a value are more
short options, behind one with a value they are its value. -/
def joined (flags : List Flag) (flag : Flag) : Option (List Char) → Except Exit (List Flag × Ending)
  | none => .ok (if flag.takesValue then (flags, .wantsValue flag) else (flags ++ [flag], .nothing))
  | some [] => if flag.takesValue then .ok (flags, .value flag "") else .error 2
  | some (c :: rest) =>
    if flag.takesValue then .ok (flags, .value flag (String.ofList (c :: rest)))
    else
      match Flag.ofSpelling? (String.ofList ['-', c]) with
      | none => .error 2
      | some next =>
        match rest with
        | [] => joined (flags ++ [flag]) next none
        | d :: rest => joined (flags ++ [flag]) next (some (d :: rest))
termination_by attached => (attached.map List.length).getD 0
decreasing_by all_goals simp

/-- The options of a word: those without a value, and what stands behind them. A long option
without a value stands alone. -/
def options (o : OptionWord) (flag : Flag) : Except Exit (List Flag × Ending) :=
  if o.isLong && !flag.takesValue && o.attached.isSome then .error 2
  else joined [] flag (o.attached.map String.toList)

/-- The words of a run of values, without the first separator. -/
private def colorsOf (words : List Word) : List String :=
  let texts := words.map fun
    | .value text => text
    | _ => "--"
  texts.erase "--"

/-- Takes in a run of values and separators up to the next option: the first one that has a value
is the colours, any other is too much. -/
def takeValues (p : Parsing) (words : List Word) : Parsing :=
  let hasValue := words.any fun
    | .value _ => true
    | _ => false
  if words.isEmpty then p
  else if hasValue && !p.hasColors then
    { p with arguments := { p.arguments with colors := colorsOf words }, hasColors := true }
  else { p with hasExtras := true }

/-- Whether a word is an option. -/
private def isOption : Word → Bool
  | .option _ => true
  | _ => false

/-- Takes in all words; `fuel` bounds their number. -/
def takeAll : Nat → Parsing → List Word → Except Exit Parsing
  | 0, p, _ => .ok p
  | fuel + 1, p, words =>
    let run := words.takeWhile fun w => !isOption w
    let p := p.takeValues run
    match words.drop run.length with
    | .option o :: rest =>
      match o.flag? with
      | none => takeAll fuel { p with hasExtras := true } rest
      | some flag => do
        let (flags, ending) ← options o flag
        match ending, rest with
        | .nothing, rest => takeAll fuel (← flags.foldlM setFlag p) rest
        | .value flag text, rest =>
          takeAll fuel (← (← flags.foldlM setFlag p).setValue flag text) rest
        | .wantsValue flag, .value text :: rest =>
          takeAll fuel (← (← flags.foldlM setFlag p).setValue flag text) rest
        | .wantsValue _, _ => .error 2
    | _ => .ok p

end Parsing

/-- The arguments that words give, or the exit code. -/
def Arguments.parse (words : List String) : Except Exit Arguments :=
  match classifyAll words with
  | none => .error 2
  | some classified => do
    let p ← Parsing.takeAll (words.length + 1) Parsing.start classified
    if !p.hasColors || p.hasExtras then throw 2
    return p.arguments

end Dichromat.CommandLine
