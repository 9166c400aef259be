/-!
# Cartesian pairs

The real and the lateral (imaginary) part of a complex number.
-/

namespace PolarCalc

/-- A complex number by its two parts. -/
structure Cartesian (α : Type) where
  real : α
  lateral : α
  deriving DecidableEq, Repr

namespace Cartesian

variable {α : Type}

/-- The sum, part by part. -/
def add [Add α] (z w : Cartesian α) : Cartesian α :=
  ⟨z.real + w.real, z.lateral + w.lateral⟩

/-- The difference, part by part. -/
def sub [Sub α] (z w : Cartesian α) : Cartesian α :=
  ⟨z.real - w.real, z.lateral - w.lateral⟩

instance [Add α] : Add (Cartesian α) := ⟨add⟩
instance [Sub α] : Sub (Cartesian α) := ⟨sub⟩

end Cartesian

end PolarCalc
