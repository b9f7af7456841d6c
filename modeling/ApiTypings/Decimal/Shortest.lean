import ApiTypings.Decimal.Binary

/-!
# The shortest decimal of a binary fraction

The shortest decimal of a binary fraction is the one with the fewest digits among those the
fraction is nearest to, and of several such the nearest. All arithmetic is exact, on natural
numbers.
-/

namespace ApiTypings.Decimal

/-- Whether `b` is nearest to a decimal on the grid `10 ^ exponent`: it lies within half a step,
the ends included if the mantissa is even. Below a power of two steps are half as wide. -/
def Binary.covers (b : Binary) (digits : Nat) (exponent : Int) : Bool :=
  let narrow := b.mantissa = leastMantissa ∧ b.exponent > minExponent
  let low := 4 * b.mantissa - (if narrow then 1 else 2)
  let high := 4 * b.mantissa + 2
  let (x, xd) := scale 10 digits 1 exponent
  let (l, ld) := scale 2 low 4 b.exponent
  let (h, hd) := scale 2 high 4 b.exponent
  if b.mantissa % 2 = 0 then l * xd ≤ x * ld && x * hd ≤ h * xd
  else l * xd < x * ld && x * hd < h * xd

/-- The neighbours of `b` on the grid `10 ^ exponent` that round to it, the nearer first. -/
def Binary.candidates (b : Binary) (exponent : Int) : List Nat :=
  let (v, vd) := scale 2 b.mantissa 1 b.exponent
  let (n, d) := scale 10 v vd (-exponent)
  let below := n / d
  let nearer := roundDiv n d
  ([nearer, if nearer = below then below + 1 else below]).filter (b.covers · exponent)

/-- Tries ever finer grids, starting at `10 ^ exponent`. -/
def Binary.search (b : Binary) (exponent : Int) : Nat → Scientific
  | 0 => ⟨b.mantissa, 0⟩
  | fuel + 1 =>
    match b.candidates exponent with
    | digits :: _ => ⟨digits, exponent⟩
    | [] => b.search (exponent - 1) fuel

/-- The shortest decimal that rounds to `b`. Seventeen digits always suffice, and the first grid
is coarser than the value. -/
def Binary.shortest (b : Binary) : Scientific :=
  if b.mantissa = 0 then ⟨0, 0⟩
  else
    let (v, vd) := scale 2 b.mantissa 1 b.exponent
    let magnitude : Int := (Nat.toDigits 10 v).length - (Nat.toDigits 10 vd).length
    b.search (magnitude + 1) 20

/-- How the text of a number is laid out. -/
structure Notation where
  /-- The least exponent of the first digit that is written positionally. -/
  leastPositional : Int
  /-- The greatest exponent of the first digit that is written positionally. -/
  greatestPositional : Int

/-- The digits of a decimal without trailing zeros, and the exponent of the first digit. -/
def Scientific.normalized (s : Scientific) : List Char × Int :=
  let all := Nat.toDigits 10 s.digits
  let kept := (all.reverse.dropWhile (· == '0')).reverse
  (if kept.isEmpty then ['0'] else kept, s.exponent + all.length - 1)

/-- The text of a decimal: positional with at least one place after the point, or one digit
before the point and an exponent with its sign. -/
def Scientific.text (s : Scientific) (layout : Notation) : String :=
  let (digits, first) := if s.digits = 0 then (['0'], 0) else s.normalized
  if layout.leastPositional ≤ first ∧ first ≤ layout.greatestPositional then
    if first < 0 then
      String.ofList ("0.".toList ++ List.replicate (-first - 1).toNat '0' ++ digits)
    else
      let width := first.toNat + 1
      let whole := digits.take width ++ List.replicate (width - digits.length) '0'
      let places := digits.drop width
      String.ofList (whole ++ '.' :: (if places.isEmpty then ['0'] else places))
  else
    let places := digits.drop 1
    String.ofList (digits.take 1 ++ (if places.isEmpty then [] else '.' :: places)) ++ "e" ++
      (if first < 0 then "-" else "+") ++ toString first.natAbs

end ApiTypings.Decimal
