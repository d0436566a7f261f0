import Mathlib.Algebra.Order.Ring.Nat
import Mathlib.Tactic.Common

/-!
# Machine models

The machine dependent numbers that goto types and constants are read against
(`machine_model.rs`), and the model a compilation session sets up (`goto_ctx.rs`).
-/

namespace Rmc

/-- The rounding modes, numbered as the model checker numbers them. -/
inductive RoundingMode where
  | toNearest
  | downward
  | upward
  | towardsZero
  deriving DecidableEq, Repr

/-- The number a rounding mode is converted to. -/
def RoundingMode.toInt : RoundingMode → ℤ
  | .toNearest => 0
  | .downward => 1
  | .upward => 2
  | .towardsZero => 3

/-- The machine specific information that a symbol table carries. -/
structure MachineModel where
  alignment : ℕ
  architecture : String
  boolWidth : ℕ
  charIsUnsigned : Bool
  charWidth : ℕ
  doubleWidth : ℕ
  floatWidth : ℕ
  intWidth : ℕ
  isBigEndian : Bool
  longDoubleWidth : ℕ
  longIntWidth : ℕ
  longLongIntWidth : ℕ
  memoryOperandSize : ℕ
  nullIsZero : Bool
  pointerWidth : ℕ
  roundingMode : RoundingMode
  shortIntWidth : ℕ
  singleWidth : ℕ
  wcharTIsUnsigned : Bool
  wcharTWidth : ℕ
  wordSize : ℕ
  deriving DecidableEq, Repr

/-- The machine model of a compilation session. The session gives the target's minimum alignment
of globals, its architecture, its endianness and its pointer width; the other values are fixed. -/
def machineModelFromSession (minGlobalAlign : Option ℕ) (arch : String) (bigEndian : Bool)
    (pointerWidth : ℕ) : MachineModel where
  alignment := minGlobalAlign.getD 1
  architecture := arch
  boolWidth := 8
  charIsUnsigned := false
  charWidth := 8
  doubleWidth := 64
  floatWidth := 32
  intWidth := 32
  isBigEndian := bigEndian
  longDoubleWidth := 128
  longIntWidth := 64
  longLongIntWidth := 64
  memoryOperandSize := 4
  nullIsZero := true
  pointerWidth := pointerWidth
  roundingMode := .toNearest
  shortIntWidth := 16
  singleWidth := 32
  wcharTIsUnsigned := false
  wcharTWidth := 32
  wordSize := 32

end Rmc
