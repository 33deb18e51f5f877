import Mathlib.Data.Int.Order.Basic
import Mathlib.Tactic.NormNum

/-!
# Machine — conversions of unbounded integers to machine types

A C expression on 32-bit operands is written here over `Int` and `Nat` and brought back to
its type by the conversion the language prescribes: `int32` and `int16` for the signed types,
`u32` and `u16` for the unsigned ones. In range they are the identity.
-/

namespace Machine

/-- Conversion to a 32-bit `int` or `long`. -/
def int32 (z : Int) : Int := z.bmod 4294967296

/-- Conversion to a 16-bit `short`. -/
def int16 (z : Int) : Int := z.bmod 65536

/-- Conversion to a 32-bit `u_int` or `u_long`. -/
def u32 (z : Int) : Nat := (z % 4294967296).toNat

/-- Conversion to a 16-bit `u_short`. -/
def u16 (z : Int) : Nat := (z % 65536).toNat

variable {z : Int}

theorem int32_of_range (hlo : -2147483648 ≤ z) (hhi : z < 2147483648) :
    int32 z = z :=
  Int.bmod_eq_of_le_mul_two (by omega) (by omega)

theorem int16_of_range (hlo : -32768 ≤ z) (hhi : z < 32768) : int16 z = z :=
  Int.bmod_eq_of_le_mul_two (by omega) (by omega)

theorem u32_of_range (hlo : 0 ≤ z) (hhi : z < 4294967296) : u32 z = z.toNat := by
  rw [u32, Int.emod_eq_of_lt hlo hhi]

end Machine
