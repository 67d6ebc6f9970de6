import OptimumGateway.Foundation.Bytes

/-!
# The 64-bit xxHash

The hash with seed 0: four lanes over stripes of 32 bytes, then the rest in words of
eight, four and one byte, then the final mix.
-/

namespace OptimumGateway
namespace Foundation
namespace XXHash

def prime1 : UInt64 := 11400714785074694791

def prime2 : UInt64 := 14029467366897019727

def prime3 : UInt64 := 1609587929392839161

def prime4 : UInt64 := 9650029242287828579

def prime5 : UInt64 := 2870177450012600261

def rotateLeft (x : UInt64) (r : UInt64) : UInt64 :=
  (x <<< r) ||| (x >>> (64 - r))

def round (acc input : UInt64) : UInt64 :=
  rotateLeft (acc + input * prime2) 31 * prime1

def mergeRound (acc lane : UInt64) : UInt64 :=
  (acc ^^^ round 0 lane) * prime1 + prime4

structure Lanes where
  v1 : UInt64
  v2 : UInt64
  v3 : UInt64
  v4 : UInt64

def Lanes.start : Lanes :=
  ⟨prime1 + prime2, prime2, 0, 0 - prime1⟩

def Lanes.stripe (v : Lanes) (b : Bytes) : Lanes :=
  ⟨round v.v1 (getUint64 (slice b 0 8)), round v.v2 (getUint64 (slice b 8 16)),
    round v.v3 (getUint64 (slice b 16 24)), round v.v4 (getUint64 (slice b 24 32))⟩

/-- The lanes after at most `k` stripes, and the bytes behind the last whole one. -/
def Lanes.stripes : Nat → Lanes → Bytes → Lanes × Bytes
  | 0, v, b => (v, b)
  | k + 1, v, b =>
      if b.length < 32 then (v, b)
      else Lanes.stripes k (v.stripe b) (b.drop 32)

def Lanes.converge (v : Lanes) : UInt64 :=
  let h := rotateLeft v.v1 1 + rotateLeft v.v2 7 + rotateLeft v.v3 12 + rotateLeft v.v4 18
  mergeRound (mergeRound (mergeRound (mergeRound h v.v1) v.v2) v.v3) v.v4

/-- The words behind the stripes. -/
def finish : Nat → UInt64 → Bytes → UInt64
  | 0, h, _ => h
  | k + 1, h, b =>
      if 8 ≤ b.length then
        finish k (rotateLeft (h ^^^ round 0 (getUint64 b)) 27 * prime1 + prime4) (b.drop 8)
      else if 4 ≤ b.length then
        finish k (rotateLeft (h ^^^ (UInt64.ofNat (leValue (b.take 4)) * prime1)) 23 *
          prime2 + prime3) (b.drop 4)
      else
        match b with
        | [] => h
        | x :: b => finish k (rotateLeft (h ^^^ (x.toUInt64 * prime5)) 11 * prime1) b

def avalanche (h : UInt64) : UInt64 :=
  let h := (h ^^^ (h >>> 33)) * prime2
  let h := (h ^^^ (h >>> 29)) * prime3
  h ^^^ (h >>> 32)

def sum64 (b : Bytes) : UInt64 :=
  let striped := Lanes.stripes b.length Lanes.start b
  let h := if b.length < 32 then prime5 else striped.1.converge
  avalanche (finish (b.length + 1) (h + UInt64.ofNat b.length) striped.2)

example : sum64 [0x61, 0x62, 0x63] = 0x44BC2CF5AD770999 := by decide +kernel

-- "Nobody inspects the spammish repetition"
example : sum64
    [0x4E, 0x6F, 0x62, 0x6F, 0x64, 0x79, 0x20, 0x69, 0x6E, 0x73, 0x70, 0x65, 0x63, 0x74, 0x73,
    0x20, 0x74, 0x68, 0x65, 0x20, 0x73, 0x70, 0x61, 0x6D, 0x6D, 0x69, 0x73, 0x68, 0x20, 0x72,
    0x65, 0x70, 0x65, 0x74, 0x69, 0x74, 0x69, 0x6F, 0x6E] =
      0xFBCEA83C8A378BF1 := by decide +kernel

end XXHash
end Foundation
end OptimumGateway
