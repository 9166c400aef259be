import PolarCalc.Environment
import PolarCalc.Plugin.Host
/-!
# Hosts over a folder of libraries

A library is loaded at its first call, which may fail, and stays loaded once it
was.  A folder may be missing altogether, and so may a library in it or the entry
point of a library.
-/

namespace PolarCalc

/-- What an entry point does with its arguments. -/
inductive Reply where
  | value (v : Value)
  /-- Something that is no value, by the name of its type. -/
  | foreign (typeName : String)
  | failure (f : Failure)

/-- A plugin library with modules `μ`. -/
structure Library (μ : Type) where
  name : String
  /-- The module as loading it leaves it, unless its code fails. -/
  load : Outcome μ
  /-- The entry point of the module, which may change the module. -/
  entry? : μ → Option (List Value → Reply × μ)

/-- A place for libraries. -/
structure Folder (μ : Type) where
  path : String
  /-- The libraries, unless the folder does not exist. -/
  libraries? : Option (List (Library μ))

/-- Split at a separator; empty pieces are kept. -/
def splitAt (separator : Char) : List Char → List (List Char)
  | [] => [[]]
  | c :: rest =>
      let pieces := splitAt separator rest
      if c = separator then [] :: pieces
      else
        match pieces with
        | [] => [[c]]
        | piece :: more => (c :: piece) :: more

/-- The steps of a path that lead anywhere: neither empty nor a single dot. -/
def pathSteps (path : List Char) : List (List Char) :=
  (splitAt '/' path).filter fun step => !(step.isEmpty || step == ['.'])

/-- The modules that were loaded, by the names of their libraries, and these names
in the order of loading. -/
structure ModuleCache (μ : Type) where
  modules : Bindings μ
  record : List String

namespace ModuleCache

variable {μ : Type}

/-- Nothing is loaded. -/
def empty : ModuleCache μ := ⟨.empty, []⟩

/-- The module of a library that was loaded, with what a call made of it. -/
def keep (cache : ModuleCache μ) (name : String) (m : μ) : ModuleCache μ :=
  { cache with modules := cache.modules.set name m }

/-- The module of a library; it is loaded unless it was before. -/
def fetch (cache : ModuleCache μ) (l : Library μ) : Outcome μ × ModuleCache μ :=
  match cache.modules.get? l.name with
  | some m => (.ok m, cache)
  | none =>
      match l.load with
      | .error f => (.error f, cache)
      | .ok m => (.ok m, ⟨cache.modules.set l.name m, cache.record ++ [l.name]⟩)

end ModuleCache

namespace Folder

variable {μ : Type}

/-- The file that a library of the given name stands in. -/
def fileName (name : String) : List Char := name.toList ++ ['.', 'p', 'y']

/-- The library of a name.  The name is a path to a file, so that steps that lead
nowhere do not matter and a path from the root leaves the folder. -/
def find? (libraries : List (Library μ)) (name : String) : Option (Library μ) :=
  if name.toList.head? = some '/' then none
  else libraries.find? fun l => pathSteps (fileName name) == [fileName l.name]

/-- What a reply means for the caller. -/
def accept (library : String) : Reply → Outcome Value
  | .value v => .ok v
  | .foreign typeName => refuse (.foreignReply library typeName)
  | .failure f => .error f

/-- Call a library: the folder, the library and its entry point must be there. -/
def execute (folder : Folder μ) (library : String) (args : List Value) (cache : ModuleCache μ) :
    Outcome Value × ModuleCache μ :=
  match folder.libraries? with
  | none => (refuse (.missingDirectory folder.path), cache)
  | some libraries =>
      match find? libraries library with
      | none => (refuse (.missingLibrary library), cache)
      | some l =>
          match cache.fetch l with
          | (.error f, cache) => (.error f, cache)
          | (.ok m, cache) =>
              match l.entry? m with
              | none => (refuse (.missingEntry library), cache)
              | some entry =>
                  let (reply, m) := entry args
                  (accept library reply, cache.keep l.name m)

/-- The host of a folder. -/
def host (folder : Folder μ) : PluginHost (ModuleCache μ) := ⟨.empty, folder.execute⟩

end Folder

end PolarCalc
