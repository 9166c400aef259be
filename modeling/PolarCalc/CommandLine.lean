import PolarCalc.Plugin.Samples
import PolarCalc.Session
/-!
# The command line

The arguments of a call, the answer to a single line and the transcript of an
interactive session.  Long options may be cut short as long as they stay
unambiguous; the value of an option stands behind an equals sign, directly behind
its letter, or in the next argument.
-/

namespace PolarCalc.CommandLine

open PolarCalc.Text

/-- The name that the program is called by. -/
def programName : String := "calc-jax"

def version : String := "0.1.0"

/-- The name and version as they are shown. -/
def versionLine : String := programName ++ " " ++ version

/-- How deep calls of user functions may be nested. -/
def callDepth : Nat := 100000

/-! ## Arguments -/

/-- The options. -/
inductive Switch where
  | help
  | exec
  | debug
  | version
  deriving DecidableEq, Repr

namespace Switch

/-- The spellings of the options. -/
def spellings : List (String × Switch) := [
  ("-h", .help), ("--help", .help), ("-e", .exec), ("--exec", .exec), ("--debug", .debug),
  ("--version", .version)]

/-- The option of an exact spelling. -/
def ofSpelling? (text : List Char) : Option Switch :=
  (spellings.find? fun s => s.1.toList == text).map (·.2)

/-- The options with a long spelling that begins with the text. -/
def abbreviated (text : List Char) : List Switch :=
  (spellings.filter fun s => text.isPrefixOf s.1.toList).map (·.2)

end Switch

/-- What stands directly behind an option. -/
inductive Attached where
  | nothing
  /-- A value behind an equals sign. -/
  | equals (text : List Char)
  /-- A value behind the letter of a short option. -/
  | direct (text : List Char)
  deriving DecidableEq, Repr

/-- What an argument is taken for. -/
inductive Reading where
  | operand
  | separator
  | option (switch : Switch) (attached : Attached)
  | unknown
  | ambiguous
  deriving DecidableEq, Repr

/-- The text before the first equals sign and the text behind it. -/
def splitEquals (text : List Char) : List Char × Attached :=
  match text.dropWhile (· != '=') with
  | [] => (text, .nothing)
  | _ :: value => (text.takeWhile (· != '='), .equals value)

/-- Does the text look like a negative number?  One line break may follow. -/
def isNegativeNumber (text : List Char) : Bool :=
  let body := if text.getLast? = some '\n' then text.dropLast else text
  match body with
  | '-' :: digits =>
      let isDigit (c : Char) : Bool := (digitValue? c).isSome
      let fraction := (digits.dropWhile isDigit).drop 1
      (!digits.isEmpty && digits.all isDigit)
        || ((digits.dropWhile isDigit).head? == some '.' && !fraction.isEmpty
          && fraction.all isDigit)
  | _ => false

/-- What a text is taken for that is no known option. -/
def readingOfOther (text : List Char) : Reading :=
  if isNegativeNumber text || text.contains ' ' then .operand else .unknown

/-- What an argument is taken for on its own. -/
def readingOf (text : List Char) : Reading :=
  match Switch.ofSpelling? text with
  | some switch => .option switch .nothing
  | none =>
      match text with
      | '-' :: second :: rest =>
          let (name, attached) := splitEquals text
          match Switch.ofSpelling? name, attached with
          | some switch, .equals value => .option switch (.equals value)
          | _, _ =>
              if second = '-' then
                match Switch.abbreviated name with
                | [] => readingOfOther text
                | [switch] => .option switch attached
                | _ => .ambiguous
              else
                match Switch.ofSpelling? ['-', second] with
                | some switch => .option switch (.direct rest)
                | none => readingOfOther text
      | _ => .operand

/-- The arguments with what each is taken for; behind two dashes all are
operands. -/
def sorted : List String → List (String × Reading)
  | [] => []
  | arg :: args =>
      if arg = "--" then (arg, .separator) :: args.map fun a => (a, .operand)
      else (arg, readingOf arg.toList) :: sorted args

/-- What a call asks for. -/
inductive Invocation where
  /-- Run the given line, or else a session. -/
  | run (source? : Option String) (debug : Bool)
  | help
  | version
  | misuse
  deriving DecidableEq, Repr

/-- Options whose letters stand directly behind the one for help: each is help
again, up to the one for a line, which takes what follows as its value. -/
def cluster (operandFollows : Bool) : List Char → Invocation
  | [] => .help
  | 'h' :: rest => cluster operandFollows rest
  | ['e'] => if operandFollows then .help else .misuse
  | 'e' :: _ => .help
  | _ => .misuse

/-- Does an operand come first? -/
def operandFirst : List (String × Reading) → Bool
  | (_, .operand) :: _ => true
  | _ => false

/-- What the sorted arguments ask for; `stray` tells that one of those before
belongs to no option. -/
def interpret (source? : Option String) (debug stray : Bool) :
    List (String × Reading) → Invocation
  | [] => if stray then .misuse else .run source? debug
  | (_, .option .exec .nothing) :: (value, .operand) :: rest =>
      interpret (some value) debug stray rest
  | (_, .option .exec .nothing) :: _ => .misuse
  | (_, .option .exec (.equals value)) :: rest =>
      interpret (some (String.ofList value)) debug stray rest
  | (_, .option .exec (.direct value)) :: rest =>
      interpret (some (String.ofList value)) debug stray rest
  | (_, .option .help .nothing) :: _ => .help
  | (_, .option .help (.equals _)) :: _ => .misuse
  | (_, .option .help (.direct letters)) :: rest => cluster (operandFirst rest) letters
  | (_, .option .debug .nothing) :: rest => interpret source? true stray rest
  | (_, .option .debug _) :: _ => .misuse
  | (_, .option .version .nothing) :: _ => .version
  | (_, .option .version _) :: _ => .misuse
  | _ :: rest => interpret source? debug true rest

/-- What the arguments of a call ask for. -/
def parse (args : List String) : Invocation :=
  let sorted := sorted args
  if sorted.any fun s => s.2 == .ambiguous then .misuse
  else interpret none false false sorted

/-! ## Sessions -/

/-- What an interactive session prints before it reads a line. -/
def promptText : String := "calc> "

/-- The words that end a session. -/
def exitWords : List String := ["exit", "quit"]

/-- What a session does with an input line. -/
inductive Reaction where
  | skip
  | leave
  | run (line : String)
  deriving DecidableEq, Repr

/-- The reaction to an input line; blanks at its ends do not matter. -/
def react (line : List Char) : Reaction :=
  let text := String.ofList (trimBlanks line)
  if text = "" then .skip
  else if exitWords.contains text then .leave
  else .run text

/-- What a session prints for the given input lines, until it is left or the
input ends. -/
def transcript {σ : Type} (host : PluginHost σ) : List (List Char) → Session σ → Outcome String
  | [], _ => .ok (promptText ++ "\n")
  | line :: lines, session =>
      match react line with
      | .skip => do return promptText ++ (← transcript host lines session)
      | .leave => .ok promptText
      | .run text => do
          let (ran, session) := session.run host callDepth text
          let answer ← ran.answer
          return promptText ++ answer ++ "\n" ++ (← transcript host lines session)

/-- The lines of an input.  This is the text with all its line breaks translated, `\r\n` and
`\r` to `\n`, so that no other is left; one at the end begins no further line. -/
def inputLines (text : String) : List (List Char) :=
  let pieces := splitAt '\n' text.toList
  if pieces.getLast? = some [] then pieces.dropLast else pieces

/-- The mark of an answer that reports an error. -/
def errorMark : List Char := ['E', 'r', 'r', 'o', 'r', ':']

/-- The exit code for the answer to a single line. -/
def exitCode (answer : String) : Nat := if errorMark.isPrefixOf answer.toList then 1 else 0

/-- The exit code of a call and what it prints. -/
def run {σ : Type} (host : PluginHost σ) (args : List String) (input : String) :
    Outcome (Nat × String) :=
  let session := Session.start host default
  match parse args with
  | .help => .ok (0, "")
  | .version => .ok (0, versionLine ++ "\n")
  | .misuse => .ok (2, "")
  | .run (some source) _ => do
      let answer ← (session.run host callDepth source).1.answer
      return (exitCode answer, answer ++ "\n")
  | .run none _ => do
      return (0, ← transcript host (inputLines input) session)

end PolarCalc.CommandLine
