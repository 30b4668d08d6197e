/-!
# Bands of code points

A character property is a long list of code points that come in runs.  A `Band` is one run, either
solid or, where capital and small letters alternate, of every second code point.
-/

namespace EpicsDb.Text

/-- The code points `first`, `first + step`, `first + 2 * step`, ... up to `last`. -/
structure Band where
  first : Nat
  last : Nat
  step : Nat

/-- Whether `n` is a code point of the band. -/
def Band.contains (b : Band) (n : Nat) : Bool :=
  b.first ≤ n && n ≤ b.last && (n - b.first) % b.step == 0

/-- Whether the character lies in one of the bands. -/
def inBands (bands : List Band) (c : Char) : Bool :=
  bands.any (·.contains c.toNat)

end EpicsDb.Text
