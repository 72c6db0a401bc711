import Mathlib.Algebra.Order.Field.Rat

/-! # The configuration of the watcher -/

namespace Patrons

/-- The `float` nearest to a `long`: 24 significant bits, ties to even. -/
def toFloat (v : ℤ) : ℤ :=
  let m := v.natAbs
  let e := m.log2 - 23
  let q := m / 2 ^ e
  let r := m % 2 ^ e
  let q := if 2 ^ e < 2 * r ∨ (2 * r = 2 ^ e ∧ q % 2 = 1) then q + 1 else q
  v.sign * (q * 2 ^ e)

/-- `PatronsConfig`. A `float` that is not finite compares with a reading as some value
outside the range of the readings does. -/
structure PatronsConfig where
  debuggable : Bool := false
  auto : Bool := true
  /-- `0.76f`. -/
  periodOfShrink : ℚ := 12750684 / 2 ^ 24
  shrinkStep : Int32 := 125
  periodOfCheck : Int32 := 30
  lowerLimit : Int32 := 384
  fixHuaweiBinderAbort : Bool := false
  recordInitResult : Bool := false
  deriving DecidableEq

/-- `currentPeriod > config.periodOfShrink`, with `currentPeriod = beforeVmSize /
VSS_MAX_IN_V7A`. The divisor is `2^32`, so the division is exact. -/
def PatronsConfig.overPeriod (config : PatronsConfig) (beforeVmSize : Int64) : Bool :=
  decide (config.periodOfShrink < (toFloat beforeVmSize.toInt : ℚ) / 2 ^ 32)

end Patrons
