import PolarCalc.Plugin.Folder
/-!
# Where plugins are looked for

Paths are kept as their steps.  Two leading slashes name a root of their own;
any other number is one.  A tilde at the first step stands for a home directory.
-/

namespace PolarCalc

/-- A path: the slashes it starts with and its steps. -/
structure Path where
  root : List Char
  steps : List (List Char)
  deriving DecidableEq, Repr

namespace Path

/-- The root of a path text: one slash, exactly two, or none. -/
def rootOf (text : List Char) : List Char :=
  match (text.takeWhile (· == '/')).length with
  | 0 => []
  | 2 => ['/', '/']
  | _ => ['/']

/-- The path of a text; empty steps and single dots are dropped. -/
def ofChars (text : List Char) : Path := ⟨rootOf text, pathSteps text⟩

def ofString (text : String) : Path := ofChars text.toList

/-- The steps with slashes between them. -/
def joinSteps : List (List Char) → List Char
  | [] => []
  | [step] => step
  | step :: rest => step ++ '/' :: joinSteps rest

/-- The text of a path; the path without root and steps is a dot. -/
def chars (p : Path) : List Char :=
  match p.root ++ joinSteps p.steps with
  | [] => ['.']
  | text => text

def toString (p : Path) : String := String.ofList p.chars

/-- The path with further steps. -/
def append (p : Path) (steps : List (List Char)) : Path := ⟨p.root, p.steps ++ steps⟩

end Path

/-- The variables of a process. -/
abbrev ProcessVariables := List (String × String)

namespace PluginLocation

/-- A process variable that is set to something. -/
def setting? (vars : ProcessVariables) (name : String) : Option String :=
  match Bindings.lookup name vars with
  | some "" => none
  | other => other

/-- The home directory of the superuser, whose process may not be told one. -/
def superuserHome : String := "/root"

/-- The home directory: the process variable without slashes at its end, or the
root when nothing is left of it. -/
def home (vars : ProcessVariables) : List Char :=
  match ((Bindings.lookup "HOME" vars).getD superuserHome).toList.reverse.dropWhile (· == '/') with
  | [] => ['/']
  | kept => kept.reverse

/-- The home directory of an account: the process's own without a name, and no
other than the superuser's by name. -/
def homeOf? (vars : ProcessVariables) : (account : List Char) → Option (List Char)
  | [] => some (home vars)
  | account => if account = "root".toList then some superuserHome.toList else none

/-- The path with a tilde at its front, and the account named behind it, resolved;
nothing if the home is not known or begins with a tilde itself. -/
def expandHome? (vars : ProcessVariables) (p : Path) : Option Path :=
  match p.root, p.steps with
  | [], ('~' :: account) :: rest => do
      let home ← homeOf? vars account
      if home.head? = some '~' then none else return (Path.ofChars home).append rest
  | _, _ => some p

/-- The directory of a user's settings. -/
def settings? (vars : ProcessVariables) : Option Path :=
  match setting? vars "XDG_CONFIG_HOME" with
  | some text => expandHome? vars (.ofString text)
  | none => (expandHome? vars (.ofString "~")).map fun p => p.append [".config".toList]

/-- The directory that plugins are looked for in, unless a directory is named:
`calc/plugins` under the user's settings. -/
def default? (vars : ProcessVariables) : Option Path :=
  match setting? vars "CALC_JAX_PLUGIN_DIR" with
  | some text => expandHome? vars (.ofString text)
  | none => (settings? vars).map fun p => p.append ["calc".toList, "plugins".toList]

end PluginLocation

end PolarCalc
