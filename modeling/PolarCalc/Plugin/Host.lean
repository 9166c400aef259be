import PolarCalc.Value.Basic
/-!
# Plugin hosts

A host runs the libraries that are called by name.  It has a state of its own,
which a call may change whether it succeeds or fails; a fresh host starts in the
same state each time.
-/

namespace PolarCalc

/-- A host of plugin libraries with states `σ`. -/
structure PluginHost (σ : Type) where
  /-- The state of a host before any call. -/
  fresh : σ
  /-- Call a library with arguments. -/
  execute : (library : String) → List Value → σ → Outcome Value × σ

end PolarCalc
