/-
  TexEngine.Digest.Keccak

  The permutation Keccak-f[1600].  The state is an array of 5 × 5 lanes of 64
  bits each; a round diffuses the columns, rotates and rearranges the lanes,
  combines the rows, and adds a constant to the first lane.
-/

namespace TexEngine.Keccak

/-- The state; lane `(x, y)` has number `x + 5 * y`. -/
abbrev State := Vector UInt64 25

/-- Lane `(x, y)`, with both coordinates taken modulo 5. -/
def State.lane (a : State) (x y : Nat) : UInt64 :=
  a.get ⟨x % 5 + 5 * (y % 5), by omega⟩

/-- The state with the given lanes. -/
def State.ofLanes (f : Nat → Nat → UInt64) : State :=
  Vector.ofFn fun i => f (i.val % 5) (i.val / 5)

/-- The state of zeros. -/
def State.zero : State :=
  State.ofLanes fun _ _ => 0

/-- Rotation towards the more significant bits. -/
def rotate (w : UInt64) (n : Nat) : UInt64 :=
  if n % 64 = 0 then w
  else (w <<< UInt64.ofNat (n % 64)) ||| (w >>> UInt64.ofNat (64 - n % 64))

/-- The amounts by which the lanes are rotated. -/
def offsets : Vector Nat 25 :=
  #v[0, 1, 62, 28, 27,
     36, 44, 6, 55, 20,
     3, 10, 43, 25, 39,
     41, 45, 15, 21, 8,
     18, 2, 61, 56, 14]

/-- The constants of the 24 rounds. -/
def roundConstants : List UInt64 :=
  [0x0000000000000001, 0x0000000000008082, 0x800000000000808A, 0x8000000080008000,
   0x000000000000808B, 0x0000000080000001, 0x8000000080008081, 0x8000000000008009,
   0x000000000000008A, 0x0000000000000088, 0x0000000080008009, 0x000000008000000A,
   0x000000008000808B, 0x800000000000008B, 0x8000000000008089, 0x8000000000008003,
   0x8000000000008002, 0x8000000000000080, 0x000000000000800A, 0x800000008000000A,
   0x8000000080008081, 0x8000000000008080, 0x0000000080000001, 0x8000000080008008]

/-- The parity of a column. -/
def columnParity (a : State) (x : Nat) : UInt64 :=
  a.lane x 0 ^^^ a.lane x 1 ^^^ a.lane x 2 ^^^ a.lane x 3 ^^^ a.lane x 4

/-- Adds the parities of two neighbouring columns to every lane. -/
def theta (a : State) : State :=
  State.ofLanes fun x y =>
    a.lane x y ^^^ columnParity a (x + 4) ^^^ rotate (columnParity a (x + 1)) 1

/-- Rotates every lane by its own amount and moves it to its new place. -/
def rhoPi (a : State) : State :=
  State.ofLanes fun x y =>
    rotate (a.lane (x + 3 * y) x) (offsets.get ⟨(x + 3 * y) % 5 + 5 * (x % 5), by omega⟩)

/-- Combines every lane with its two successors in the row. -/
def chi (a : State) : State :=
  State.ofLanes fun x y => a.lane x y ^^^ (~~~(a.lane (x + 1) y) &&& a.lane (x + 2) y)

/-- Adds a constant to the first lane. -/
def iota (c : UInt64) (a : State) : State :=
  State.ofLanes fun x y => if x = 0 ∧ y = 0 then a.lane 0 0 ^^^ c else a.lane x y

/-- The permutation. -/
def permute (a : State) : State :=
  roundConstants.foldl (fun a c => iota c (chi (rhoPi (theta a)))) a

end TexEngine.Keccak
