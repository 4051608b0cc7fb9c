/-!
Sets of characters given as sorted runs of code points. A table of a character property is such a
list; membership stops at the first run past the code point.
-/

namespace Cnd.Text

/-- The first and the last code point of each run, in increasing order and apart. -/
abbrev Ranges := List (Nat × Nat)

/-- Whether a code point lies in one of the runs. -/
def Ranges.contains : Ranges → Nat → Bool
  | [], _ => false
  | (first, last) :: rest, c =>
    if c < first then false else if c ≤ last then true else Ranges.contains rest c

theorem Ranges.contains_nil (c : Nat) : Ranges.contains [] c = false := rfl

end Cnd.Text
