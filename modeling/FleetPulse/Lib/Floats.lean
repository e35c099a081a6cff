import FleetPulse.Lib.Values

/-! The order of the floats: `max` and `min` of two, and tuples of two.

    `<` on floats is no linear order, since nothing compares with NaN. On numbers it is the order of
    the extended line (`level`), and on pairs of numbers the comparison of tuples is the lexicographic
    order (`pairLevel`). -/

namespace Values
namespace PyFloat

/-- `max(x, y)`: the second one only when it is greater. -/
def maxOf (x y : PyFloat) : PyFloat := if x.lt y then y else x

/-- `min(x, y)`: the second one only when it is less. -/
def minOf (x y : PyFloat) : PyFloat := if y.lt x then y else x

/-- Where a number stands on the extended line. -/
def level : PyFloat → WithBot (WithTop ℚ)
  | .nan | .negInf => ⊥
  | .posInf => ((⊤ : WithTop ℚ) : WithBot (WithTop ℚ))
  | .finite q => ((q : WithTop ℚ) : WithBot (WithTop ℚ))

theorem lt_iff_level {x y : PyFloat} (hx : x ≠ .nan) (hy : y ≠ .nan) :
    x.lt y = true ↔ x.level < y.level := by
  cases x <;> cases y <;> simp_all [lt, level]
  exact WithBot.coe_lt_coe.mpr (WithTop.coe_lt_top _)

theorem level_eq_iff {x y : PyFloat} (hx : x ≠ .nan) (hy : y ≠ .nan) :
    x.level = y.level ↔ x = y := by
  cases x <;> cases y <;> simp_all [level]

/-- `(x1, x2) < (y1, y2)`: the first components decide, unless they are equal. -/
def pairLt (x y : PyFloat × PyFloat) : Bool :=
  if x.1 = y.1 then x.2.lt y.2 else x.1.lt y.1

/-- Where a pair stands in the lexicographic order. -/
def pairLevel (x : PyFloat × PyFloat) : WithBot (WithTop ℚ) ×ₗ WithBot (WithTop ℚ) :=
  toLex (x.1.level, x.2.level)

theorem pairLt_iff_level {x y : PyFloat × PyFloat} (hx : x.1 ≠ .nan ∧ x.2 ≠ .nan)
    (hy : y.1 ≠ .nan ∧ y.2 ≠ .nan) : pairLt x y = true ↔ pairLevel x < pairLevel y := by
  rw [pairLevel, pairLevel, Prod.Lex.toLex_lt_toLex, level_eq_iff hx.1 hy.1,
    ← lt_iff_level hx.1 hy.1, ← lt_iff_level hx.2 hy.2, pairLt]
  split
  · next heq =>
    rw [heq]
    cases y.1 <;> simp [lt]
  · next hne => simp [hne]

end PyFloat
end Values
