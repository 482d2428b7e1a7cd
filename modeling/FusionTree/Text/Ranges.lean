/-!
# Ranges of code points

A property of characters is given by the ranges of code points that have it, in ascending order and
with both ends included.
-/

namespace FusionTree.Text

def inRanges (ranges : List (Nat × Nat)) (c : Char) : Bool :=
  ranges.any fun (first, last) => first ≤ c.toNat && c.toNat ≤ last

end FusionTree.Text
