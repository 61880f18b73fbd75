import Equilibrium.Numeral

/-!
# Quantities

Flows and totals are added and compared in the arithmetic of the machine. Definitions that only
add and compare are stated for any arithmetic with the same operations, so they can also be read
over exact numbers.
-/

namespace Equilibrium

/-- The arithmetic of flows. -/
class Quantity (ρ : Type) where
  /-- The amount of a flow that is not there. -/
  zero : ρ
  /-- The sum of no amounts. -/
  emptySum : ρ
  add : ρ → ρ → ρ
  sub : ρ → ρ → ρ
  mul : ρ → ρ → ρ
  abs : ρ → ρ
  /-- The larger of two amounts; if one is not a number, the other one. -/
  larger : ρ → ρ → ρ
  le : ρ → ρ → Bool
  isFinite : ρ → Bool

namespace Quantity

/-- The arithmetic of the machine. Its sums begin with -0, so the sum of no amounts is -0. -/
instance : Quantity Float where
  zero := 0.0
  emptySum := -0.0
  add := (· + ·)
  sub := (· - ·)
  mul := (· * ·)
  abs := Float.abs
  larger a b := if a.isNaN then b else if b.isNaN then a else if a ≤ b then b else a
  le a b := a ≤ b
  isFinite := Float.isFinite

variable {ρ : Type} [Quantity ρ]

/-- The sum of some amounts, added from left to right. -/
def total (amounts : List ρ) : ρ := amounts.foldl add emptySum

end Quantity

/-- How far two amounts may lie apart, absolutely and relative to the larger one. -/
structure Tolerance (ρ : Type) where
  abs : ρ
  rel : ρ

/-- One part in a thousand million, absolutely or relatively. -/
def Tolerance.standard : Tolerance Float := ⟨1e-9, 1e-9⟩

/-- Whether two amounts are equal up to a tolerance. -/
def nearlyEqual {ρ : Type} [Quantity ρ] (tol : Tolerance ρ) (a b : ρ) : Bool :=
  let distance := Quantity.abs (Quantity.sub a b)
  Quantity.le distance tol.abs ||
    Quantity.le distance (Quantity.mul tol.rel (Quantity.larger (Quantity.abs a) (Quantity.abs b)))

/-- An amount that is infinite or not a number, and what it was meant for. -/
structure NonFinite (ρ : Type) where
  what : String
  value : ρ

/-- The message about an amount that is not finite. -/
def NonFinite.message (e : NonFinite Float) : String :=
  "Non-finite numeric value for " ++ e.what ++ ": " ++ (Binary64.ofFloat e.value).text .plain

/-- Refuse an amount that is infinite or not a number. -/
def ensureFinite {ρ : Type} [Quantity ρ] (what : String) (value : ρ) : Except (NonFinite ρ) ρ :=
  if Quantity.isFinite value then .ok value else .error ⟨what, value⟩

end Equilibrium
