/-!
The shortest decimal that reads back as a given binary floating-point number. A finite value is a natural
number times a power of two; the reals that round to it form an interval around it, and the search goes
through ever finer decimal grids until one of the two neighbours of the value lies in that interval. All
comparisons are between natural numbers.
-/

namespace Scriptlet.Decimal

/-- A positive value `significand * 2 ^ exponent`. At most powers of two the gap to the value below is half as
wide as the gap to the value above. -/
structure Binary where
  significand : Nat
  exponent : Int
  narrowBelow : Bool

structure Scaled where
  coefficient : Nat
  exponent : Int
  deriving DecidableEq

def tenTo (p : Int) : Nat × Nat :=
  (Nat.pow 10 p.toNat, Nat.pow 10 (-p).toNat)

def twoTo (q : Int) : Nat × Nat :=
  (Nat.pow 2 q.toNat, Nat.pow 2 (-q).toNat)

/-- The grid of multiples of `10 ^ p` laid over the interval of a value. One step of the grid and the four
parts of a unit of the significand are measured by one common yardstick, so that all fields are naturals. -/
structure Grid where
  step : Nat
  value : Nat
  low : Nat
  high : Nat
  closed : Bool

def Binary.grid (b : Binary) (p : Int) : Grid :=
  let (tenNum, tenDen) := tenTo p
  let (unitNum, unitDen) := twoTo (b.exponent - 2)
  let unit := unitNum * tenDen
  { step := tenNum * unitDen
    value := 4 * b.significand * unit
    low := (4 * b.significand - if b.narrowBelow then 1 else 2) * unit
    high := (4 * b.significand + 2) * unit
    closed := b.significand % 2 == 0 }

/-- Whether the `c`-th point of the grid rounds to the value: ties of rounding go to even significands. -/
def Grid.readsBack (g : Grid) (c : Nat) : Bool :=
  if g.closed then g.low ≤ c * g.step && c * g.step ≤ g.high
  else g.low < c * g.step && c * g.step < g.high

def Grid.nearest? (g : Grid) : Option Nat :=
  let below := g.value / g.step
  match g.readsBack below, g.readsBack (below + 1) with
  | true, true => some (if (2 * below + 1) * g.step ≤ 2 * g.value then below + 1 else below)
  | true, false => some below
  | false, true => some (below + 1)
  | false, false => none

/-- The exponent of a power of ten above the value, at most two more than needed. -/
def Binary.scale (b : Binary) : Int :=
  (Int.fdiv ((b.significand.log2 + b.exponent) * 30103) 100000) + 2

def Binary.exact (b : Binary) : Scaled :=
  if 0 ≤ b.exponent then ⟨b.significand * Nat.pow 2 b.exponent.toNat, 0⟩
  else ⟨b.significand * Nat.pow 5 (-b.exponent).toNat, b.exponent⟩

def Binary.shortest (b : Binary) : Scaled :=
  let found := (List.range 21).findSome? fun (n : Nat) =>
    let p := b.scale - n
    (b.grid p).nearest?.map fun c => Scaled.mk c p
  found.getD b.exact

inductive Parts
  | notANumber
  | infinite (negative : Bool)
  | zero (negative : Bool)
  | finite (negative : Bool) (magnitude : Binary)

def Parts.ofFloat (x : Float) : Parts :=
  let bits := x.toBits.toNat
  let negative := bits / Nat.pow 2 63 == 1
  let biased : Nat := bits / Nat.pow 2 52 % Nat.pow 2 11
  let fraction := bits % Nat.pow 2 52
  if biased = 2047 then
    if fraction = 0 then .infinite negative else .notANumber
  else if biased = 0 then
    if fraction = 0 then .zero negative else .finite negative ⟨fraction, -1074, false⟩
  else
    .finite negative ⟨Nat.pow 2 52 + fraction, (biased : Int) - 1075, fraction == 0 && biased != 1⟩

end Scriptlet.Decimal
