/-
The sizes of machine words.

Numbers are kept as natural numbers and integers; what limits them is stated with the
powers of two below.
-/

set_option autoImplicit false

namespace PatternAudit.Word

/-- How many numbers `n` bits can tell apart. -/
def count (n : Nat) : Nat := Nat.pow 2 n

/-- Whether a number needs no more than `n` bits. -/
def fits (n value : Nat) : Bool := value < count n

end PatternAudit.Word
