import PolarCalc.Expr.Basic
import PolarCalc.Value.Basic
/-!
# Environments

The variables and the functions that a user has defined.  Variables keep the
order in which they were first set; setting one again keeps its place, and one
that was removed and set again comes last.
-/

namespace PolarCalc

/-- Names bound to things, in the order of their first binding. -/
structure Bindings (α : Type) where
  entries : List (String × α) := []

namespace Bindings

variable {α : Type}

/-- What the first entry of a name holds. -/
def lookup (name : String) : List (String × α) → Option α
  | [] => none
  | (key, a) :: rest => if key = name then some a else lookup name rest

/-- The entries with a name bound, in place if it was bound already. -/
def put (name : String) (a : α) : List (String × α) → List (String × α)
  | [] => [(name, a)]
  | (key, b) :: rest => if key = name then (key, a) :: rest else (key, b) :: put name a rest

/-- No names at all. -/
def empty : Bindings α := ⟨[]⟩

/-- What a name is bound to. -/
def get? (b : Bindings α) (name : String) : Option α := lookup name b.entries

def contains (b : Bindings α) (name : String) : Bool := (b.get? name).isSome

/-- The bindings with a name bound. -/
def set (b : Bindings α) (name : String) (a : α) : Bindings α := ⟨put name a b.entries⟩

/-- The bindings without a name. -/
def erase (b : Bindings α) (name : String) : Bindings α :=
  ⟨b.entries.filter fun entry => entry.1 != name⟩

/-- The bindings with further names bound, one after the other. -/
def update (b : Bindings α) (entries : List (String × α)) : Bindings α :=
  entries.foldl (fun b entry => b.set entry.1 entry.2) b

/-- Bindings from pairs; a name that comes again keeps its first place and takes
its last value. -/
def ofList (entries : List (String × α)) : Bindings α := empty.update entries

def names (b : Bindings α) : List String := b.entries.map (·.1)

def size (b : Bindings α) : Nat := b.entries.length

instance : Inhabited (Bindings α) := ⟨empty⟩

@[simp] theorem get?_empty (name : String) : (empty : Bindings α).get? name = none := rfl

private theorem lookup_put (name other : String) (a : α) (entries : List (String × α)) :
    lookup other (put name a entries) = if name = other then some a else lookup other entries := by
  induction entries with
  | nil => simp [put, lookup]
  | cons entry rest ih =>
      obtain ⟨key, b⟩ := entry
      by_cases hkey : key = name
      · subst hkey
        by_cases hother : key = other <;> simp [put, lookup, hother]
      · by_cases hname : name = other
        · subst hname
          simp [put, lookup, hkey, ih]
        · simp [put, lookup, hkey, hname, ih]

theorem get?_set (b : Bindings α) (name other : String) (a : α) :
    (b.set name a).get? other = if name = other then some a else b.get? other :=
  lookup_put name other a b.entries

@[simp] theorem get?_set_self (b : Bindings α) (name : String) (a : α) :
    (b.set name a).get? name = some a := by
  simp [get?_set]

theorem eq_or_get?_of_get?_set {b : Bindings α} {name other : String} {a c : α}
    (h : (b.set name a).get? other = some c) : c = a ∨ b.get? other = some c := by
  rw [get?_set] at h
  by_cases hname : name = other
  · rw [if_pos hname] at h
    exact .inl (Option.some.inj h).symm
  · rw [if_neg hname] at h
    exact .inr h

theorem lookup_append (name : String) (front back : List (String × α)) :
    lookup name (front ++ back) = (lookup name front).or (lookup name back) := by
  induction front with
  | nil => rw [List.nil_append, lookup, Option.none_or]
  | cons entry rest ih =>
      rw [List.cons_append, lookup, lookup, ih]
      by_cases hkey : entry.1 = name
      · rw [if_pos hkey, if_pos hkey, Option.some_or]
      · rw [if_neg hkey, if_neg hkey]

theorem mem_of_lookup {name : String} {a : α} {entries : List (String × α)}
    (h : lookup name entries = some a) : (name, a) ∈ entries := by
  induction entries with
  | nil => cases h
  | cons entry rest ih =>
      obtain ⟨key, b⟩ := entry
      rw [lookup] at h
      by_cases hkey : key = name
      · rw [if_pos hkey] at h
        cases hkey
        cases h
        exact List.mem_cons_self
      · rw [if_neg hkey] at h
        exact List.mem_cons_of_mem _ (ih h)

/-- Of further bindings the last one of a name decides. -/
theorem get?_update (b : Bindings α) (entries : List (String × α)) (name : String) :
    (b.update entries).get? name = (lookup name entries.reverse).or (b.get? name) := by
  induction entries generalizing b with
  | nil => rw [List.reverse_nil, lookup, Option.none_or]; rfl
  | cons entry rest ih =>
      obtain ⟨key, a⟩ := entry
      have hrest : b.update ((key, a) :: rest) = (b.set key a).update rest := rfl
      rw [hrest, ih, get?_set, List.reverse_cons, lookup_append, Option.or_assoc]
      by_cases hkey : key = name
      · simp [lookup, hkey]
      · simp [lookup, hkey]

private theorem mem_put {name : String} {a : α} {entry : String × α} {entries : List (String × α)}
    (h : entry ∈ put name a entries) : entry = (name, a) ∨ entry ∈ entries := by
  induction entries with
  | nil => exact .inl (by simpa [put] using h)
  | cons first rest ih =>
      obtain ⟨key, b⟩ := first
      rw [put] at h
      by_cases hkey : key = name
      · rw [if_pos hkey, List.mem_cons, hkey] at h
        exact h.imp id (List.mem_cons_of_mem _)
      · rw [if_neg hkey, List.mem_cons] at h
        rcases h with rfl | h
        · exact .inr List.mem_cons_self
        · exact (ih h).imp id (List.mem_cons_of_mem _)

theorem mem_update {b : Bindings α} {entries : List (String × α)} {entry : String × α}
    (h : entry ∈ (b.update entries).entries) : entry ∈ b.entries ∨ entry ∈ entries := by
  induction entries generalizing b with
  | nil => exact .inl h
  | cons first rest ih =>
      rcases ih h with h | h
      · rcases mem_put h with rfl | h
        · exact .inr List.mem_cons_self
        · exact .inl h
      · exact .inr (List.mem_cons_of_mem _ h)

theorem mem_ofList {entries : List (String × α)} {entry : String × α}
    (h : entry ∈ (ofList entries).entries) : entry ∈ entries :=
  (mem_update h).resolve_left List.not_mem_nil

end Bindings

/-- A function that a user has defined. -/
structure UserFunction where
  params : List String
  body : Expr
  deriving DecidableEq, Repr

/-- The variables and functions of a user. -/
structure Environment where
  vars : Bindings Value := .empty
  functions : Bindings UserFunction := .empty

namespace Environment

instance : Inhabited Environment := ⟨⟨.empty, .empty⟩⟩

/-- The environment with a variable set. -/
def setVariable (env : Environment) (name : String) (v : Value) : Environment :=
  { env with vars := env.vars.set name v }

/-- The environment with a function defined. -/
def setFunction (env : Environment) (name : String) (f : UserFunction) : Environment :=
  { env with functions := env.functions.set name f }

/-- The environment without a variable. -/
def eraseVariable (env : Environment) (name : String) : Environment :=
  { env with vars := env.vars.erase name }

/-- The environment without variables. -/
def clearVariables (env : Environment) : Environment := { env with vars := .empty }

/-- The environment with bindings layered over its variables. -/
def extended (env : Environment) (bindings : Bindings Value) : Environment :=
  { env with vars := env.vars.update bindings.entries }

end Environment

end PolarCalc
