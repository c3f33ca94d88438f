import Mathlib.Data.Nat.Bitwise

/-!
# Keccak-256

The hash that Ethereum and the Wormhole guardians use, as `bridge_attestation` computes it. The
state is five columns of five 64-bit lanes.
-/

namespace LedgerLens.Integrations

namespace Keccak256

/-- `_KECCAK_RC`. -/
def roundConstants : List ℕ :=
  [0x0000000000000001, 0x0000000000008082, 0x800000000000808A, 0x8000000080008000,
    0x000000000000808B, 0x0000000080000001, 0x8000000080008081, 0x8000000000008009,
    0x000000000000008A, 0x0000000000000088, 0x0000000080008009, 0x000000008000000A,
    0x000000008000808B, 0x800000000000008B, 0x8000000000008089, 0x8000000000008003,
    0x8000000000008002, 0x8000000000000080, 0x000000000000800A, 0x800000008000000A,
    0x8000000080008081, 0x8000000000008080, 0x0000000080000001, 0x8000000080008008]

/-- `_KECCAK_ROT`. -/
def rotations : List (List ℕ) :=
  [[0, 36, 3, 41, 18], [1, 44, 10, 45, 2], [62, 6, 43, 15, 61],
    [28, 55, 25, 21, 56], [27, 20, 39, 8, 14]]

/-- `_MASK64`. -/
def mask64 : ℕ := (1 <<< 64) - 1

/-- `_rotl`. -/
def rotl (x n : ℕ) : ℕ := if n = 0 then x else ((x <<< n) ||| (x >>> (64 - n))) &&& mask64

/-- A five by five state. -/
abbrev Lanes := List (List ℕ)

/-- `a[x][y]`. -/
def lane (a : Lanes) (x y : ℕ) : ℕ := (a.getD x []).getD y 0

/-- The state with a lane for each place. -/
def ofLanes (f : ℕ → ℕ → ℕ) : Lanes :=
  (List.range 5).map fun x => (List.range 5).map fun y => f x y

/-- `a[x][y] = v`. -/
def setLane (a : Lanes) (x y v : ℕ) : Lanes := a.modify x fun column => column.set y v

/-- The places in the order of the loops over `x` and `y`. -/
def places : List (ℕ × ℕ) := (List.range 5).flatMap fun x => (List.range 5).map fun y => (x, y)

/-- The loop of `_keccak_f` for one round constant. -/
def round (a : Lanes) (rc : ℕ) : Lanes :=
  let c := (List.range 5).map fun x =>
    lane a x 0 ^^^ lane a x 1 ^^^ lane a x 2 ^^^ lane a x 3 ^^^ lane a x 4
  let d := (List.range 5).map fun x => c.getD ((x + 4) % 5) 0 ^^^ rotl (c.getD ((x + 1) % 5) 0) 1
  let a := ofLanes fun x y => lane a x y ^^^ d.getD x 0
  let b := places.foldl (fun b place =>
    setLane b place.2 ((2 * place.1 + 3 * place.2) % 5)
      (rotl (lane a place.1 place.2) (lane rotations place.1 place.2))) (ofLanes fun _ _ => 0)
  -- for naturals `(~u) & v` is `v ^ (u & v)`
  let a := ofLanes fun x y =>
    lane b x y ^^^ (lane b ((x + 2) % 5) y ^^^ (lane b ((x + 1) % 5) y &&& lane b ((x + 2) % 5) y))
  setLane a 0 0 (lane a 0 0 ^^^ rc)

/-- `_keccak_f`. -/
def keccakF (a : Lanes) : Lanes := roundConstants.foldl round a

/-- The bytes of a block. -/
def rate : ℕ := 136

/-- A number from its bytes, the least significant one first. -/
def ofLittleEndian (bytes : List UInt8) : ℕ := bytes.foldr (fun b acc => acc * 256 + b.toNat) 0

/-- The bytes of a number, the least significant one first. -/
def toLittleEndian : ℕ → ℕ → List UInt8
  | 0, _ => []
  | n + 1, x => UInt8.ofNat (x % 256) :: toLittleEndian n (x / 256)

/-- The message with its padding. -/
def padded (data : List UInt8) : List UInt8 :=
  let padding := data ++ 0x01 :: List.replicate ((rate - (data.length + 1) % rate) % rate) 0x00
  padding.dropLast ++ [padding.getLastD 0 ||| 0x80]

/-- The lanes of a block are added to the state. -/
def absorb (state : Lanes) (block : List UInt8) : Lanes :=
  (List.range (rate / 8)).foldl (fun state i =>
    setLane state (i % 5) (i / 5)
      (lane state (i % 5) (i / 5) ^^^ ofLittleEndian ((block.drop (8 * i)).take 8))) state

/-- The loop over the blocks of a message; the number bounds its turns. -/
def absorbAll : ℕ → Lanes → List UInt8 → Lanes
  | 0, state, _ => state
  | turns + 1, state, message =>
    match message with
    | [] => state
    | _ => absorbAll turns (keccakF (absorb state (message.take rate))) (message.drop rate)

end Keccak256

open Keccak256 in
/-- `keccak256`. -/
def keccak256 (data : List UInt8) : List UInt8 :=
  let message := padded data
  let state := absorbAll message.length (ofLanes fun _ _ => 0) message
  (List.range 4).flatMap fun i => toLittleEndian 8 (lane state (i % 5) (i / 5))

/-- The published hash of the empty message. -/
example : keccak256 [] =
    [0xc5, 0xd2, 0x46, 0x01, 0x86, 0xf7, 0x23, 0x3c, 0x92, 0x7e, 0x7d, 0xb2, 0xdc, 0xc7, 0x03, 0xc0,
      0xe5, 0x00, 0xb6, 0x53, 0xca, 0x82, 0x27, 0x3b, 0x7b, 0xfa, 0xd8, 0x04, 0x5d, 0x85, 0xa4,
      0x70] := by
  decide +kernel

end LedgerLens.Integrations
