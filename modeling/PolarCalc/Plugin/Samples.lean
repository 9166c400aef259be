import PolarCalc.Plugin.Location
/-!
# Sample libraries

A folder of small libraries that show what a plugin can do: reply, count, fail in
each of the ways there are, and lack an entry point.  The program offers these libraries
to its lines, and what is proved of calls for any folder has its instances here.
-/

namespace PolarCalc

/-- The modules of the sample libraries: each counts its calls. -/
abbrev Loaded := ModuleCache Nat

namespace Samples

/-- A library that replies to its arguments by the number of calls there have been
since it was loaded, this one included. -/
def replying (name : String) (reply : Nat → List Value → Reply) : Library Nat where
  name := name
  load := .ok 0
  entry? calls := some fun args => (reply (calls + 1) args, calls + 1)

/-- The library that replies with its single argument. -/
def echo : Library Nat := replying "ex_plug" fun _ args =>
  match args with
  | [v] => .value v
  | _ => .failure (.error (.wrongArity "ex_plug" "1" args.length))

/-- The library that packs its arguments into a list. -/
def pack : Library Nat := replying "pack" fun _ args => .value (.list args)

/-- The library that counts its arguments. -/
def count : Library Nat := replying "count" fun _ args => .value (.ofInt args.length)

/-- The library that counts its calls. -/
def counter : Library Nat := replying "counter" fun calls _ => .value (.ofInt calls)

/-- The library that reports an error. -/
def boom : Library Nat :=
  replying "boom" fun _ _ => .failure (.error (.reported .runtime "boom"))

/-- The library that breaks down. -/
def crash : Library Nat := replying "crash" fun _ _ => .failure .crash

/-- The library that replies with the impossible value. -/
def nothing : Library Nat := replying "nothing" fun _ _ => .value .impossible

/-- The library that replies with its first argument, or else with zero. -/
def mutate : Library Nat :=
  replying "mutate" fun _ args => .value ((args ++ [Value.ofInt 0]).headD .impossible)

/-- A library without entry point. -/
def withoutEntry (name : String) : Library Nat := ⟨name, .ok 0, fun _ => none⟩

/-- A library whose replies are no values. -/
def foreign (name typeName : String) : Library Nat := replying name fun _ _ => .foreign typeName

/-- All sample libraries. -/
def libraries : List (Library Nat) := [
  echo, pack, count, counter, boom, crash, nothing, mutate,
  withoutEntry "no_entry", withoutEntry "not_callable",
  foreign "returns_int" "int", foreign "returns_none" "NoneType", foreign "returns_list" "list"]

/-- The name of the folder of the sample libraries. -/
def folderName : String := "fixtures"

/-- The folder of the sample libraries. -/
def folder : Folder Nat := ⟨folderName, some libraries⟩

/-- The folder of a given name: the one of the sample libraries, the current
directory, which is empty, or one that does not exist. -/
def folderAt (name : String) : Folder Nat :=
  let path := Path.ofString name
  if name = folderName then folder
  else ⟨path.toString, if path = ⟨[], []⟩ then some [] else none⟩

end Samples

end PolarCalc
