/-
**Digits of numbers written in a base.**

* `digit?` — the value of a digit: `0` to `9`, then the Latin letters from `a` or `A` on, as far as the
  base goes.
* `hexDigit` — the digit of a value below sixteen.
-/

namespace EntityModel.Text

/-- The value of a digit or of a letter that continues the digits, up to fifteen. -/
def digitValue? (c : Char) : Option Nat :=
  let code := c.toNat
  if 0x30 ≤ code && code ≤ 0x39 then some (code - 0x30)
  else if 0x41 ≤ code && code ≤ 0x46 then some (code - 0x41 + 10)
  else if 0x61 ≤ code && code ≤ 0x66 then some (code - 0x61 + 10)
  else none

/-- The value of a digit in a base of at most sixteen. -/
def digit? (base : Nat) (c : Char) : Option Nat :=
  (digitValue? c).filter (· < base)

/-- The digit of a value below sixteen, in lower case. -/
def hexDigit (value : Nat) : Char :=
  Char.ofNat (if value < 10 then 0x30 + value else 0x61 + (value - 10))

end EntityModel.Text
