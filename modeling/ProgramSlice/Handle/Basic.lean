/-!
# Handles

Symbols and operations are never compared by what they look like.  Each is named by a *handle*, a
number given out when the thing is declared, and everything downstream (edges, sets, maps) works
on handles alone.  This file holds the one property that sets and maps of handles need: a handle
is determined by its number.
-/

namespace ProgramSlice

/-- A type whose values are told apart by a number. -/
class Handle (α : Type) where
  /-- The number of a handle. -/
  number : α → Nat
  /-- Two handles with one number are the same handle. -/
  number_injective : ∀ {a b : α}, number a = number b → a = b

namespace Handle

variable {α : Type} [Handle α]

/-- A handle precedes another when its number is smaller. -/
abbrev Before (a b : α) : Prop := number a < number b

theorem number_inj {a b : α} : number a = number b ↔ a = b :=
  ⟨number_injective, fun h => h ▸ rfl⟩

/-- Of two handles one precedes the other, or they are the same. -/
theorem trichotomy (a b : α) : Before a b ∨ a = b ∨ Before b a := by
  rcases Nat.lt_trichotomy (number a) (number b) with h | h | h
  · exact Or.inl h
  · exact Or.inr (Or.inl (number_injective h))
  · exact Or.inr (Or.inr h)

end Handle

end ProgramSlice
