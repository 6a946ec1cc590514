/-
  TexEngine.Digest.Shake

  The extendable-output function SHAKE128: a sponge with a rate of 168 bytes on
  top of the Keccak permutation.
-/
import TexEngine.Digest.Keccak

namespace TexEngine.Shake

open Keccak

/-- Bytes absorbed or squeezed out between two permutations. -/
def rate : Nat := 168

/-- The bytes behind a message of the given length that fill its last block:
    the suffix 1111 of this function, and a final 1 bit. -/
def padding (length : Nat) : List UInt8 :=
  let missing := rate - length % rate
  if missing = 1 then [0x9F]
  else 0x1F :: List.replicate (missing - 2) 0 ++ [0x80]

/-- The number of up to eight bytes, least significant first. -/
def word (bytes : List UInt8) : UInt64 :=
  (bytes.take 8).foldr (fun b w => (w <<< 8) ||| b.toUInt64) 0

/-- The eight bytes of a number, least significant first. -/
def wordBytes (w : UInt64) : List UInt8 :=
  (List.range 8).map fun i => (w >>> UInt64.ofNat (8 * i)).toUInt8

/-- Adds a block to the state and permutes it. -/
def absorb (s : State) (block : List UInt8) : State :=
  permute (State.ofLanes fun x y =>
    let i := x + 5 * y
    s.lane x y ^^^ (if i < rate / 8 then word (block.drop (8 * i)) else 0))

/-- Cuts bytes into blocks. -/
def blocks (bytes : List UInt8) : List (List UInt8) :=
  if bytes.isEmpty then [] else bytes.take rate :: blocks (bytes.drop rate)
termination_by bytes.length
decreasing_by
  cases bytes with
  | nil => simp_all
  | cons b bs =>
    have hrate : 0 < rate := by decide
    rw [List.length_drop, List.length_cons]
    omega

/-- The bytes of the state that may be seen. -/
def visible (s : State) : List UInt8 :=
  (s.toList.flatMap wordBytes).take rate

/-- Squeezes out the contents of `n` blocks. -/
def squeeze : Nat → State → List UInt8
  | 0, _ => []
  | n + 1, s => visible s ++ squeeze n (permute s)

/-- The first `length` bytes of the output for a message. -/
def digest (message : List UInt8) (length : Nat) : List UInt8 :=
  let s := (blocks (message ++ padding message.length)).foldl absorb State.zero
  (squeeze (length / rate + 1) s).take length

end TexEngine.Shake
