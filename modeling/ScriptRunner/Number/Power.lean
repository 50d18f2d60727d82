/-!
# Powers of the two bases

Doubles are counted in powers of two and decimals in powers of ten.

## Main definitions

* `twoPow`, `tenPow` - the powers.
-/

namespace ScriptRunner

def twoPow (n : Nat) : Nat := Nat.pow 2 n

def tenPow (n : Nat) : Nat := Nat.pow 10 n

theorem tenPow_succ (n : Nat) : tenPow (n + 1) = tenPow n * 10 := rfl

theorem tenPow_pos (n : Nat) : 0 < tenPow n := Nat.pow_pos (by decide)

end ScriptRunner
