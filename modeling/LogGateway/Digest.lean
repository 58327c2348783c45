/-
The 64-bit XXH3 digest of a byte string, with seed zero and the standard secret. Inputs are treated
by length: one multiplication chain for each class up to 240 bytes, and eight lanes fed by 64-byte
stripes above it. All arithmetic wraps at `2^64`.
-/
namespace LogGateway

namespace Digest

/-! ## Constants -/

def prime32First : UInt64 := 0x9E3779B1
def prime32Second : UInt64 := 0x85EBCA77
def prime32Third : UInt64 := 0xC2B2AE3D
def primeFirst : UInt64 := 0x9E3779B185EBCA87
def primeSecond : UInt64 := 0xC2B2AE3D27D4EB4F
def primeThird : UInt64 := 0x165667B19E3779F9
def primeFourth : UInt64 := 0x85EBCA77C2B2AE63
def primeFifth : UInt64 := 0x27D4EB2F165667C5
def mixFirst : UInt64 := 0x165667919E3779F9
def mixSecond : UInt64 := 0x9FB21C651E98DF25

/-- The 192-byte secret as little-endian words. -/
def secret : Array UInt64 :=
  #[0xbe4ba423396cfeb8, 0x1cad21f72c81017c, 0xdb979083e96dd4de, 0x1f67b3b7a4a44072,
    0x78e5c0cc4ee679cb, 0x2172ffcc7dd05a82, 0x8e2443f7744608b8, 0x4c263a81e69035e0,
    0xcb00c391bb52283c, 0xa32e531b8b65d088, 0x4ef90da297486471, 0xd8acdea946ef1938,
    0x3f349ce33f76faa8, 0x1d4f0bc7c7bbdcf9, 0x3159b4cd4be0518a, 0x647378d9c97e9fc8,
    0xc3ebd33483acc5ea, 0xeb6313faffa081c5, 0x49daf0b751dd0d17, 0x9e68d429265516d3,
    0xfca1477d58be162b, 0xce31d07ad1b8f88f, 0x280416958f3acb45, 0x7e404bbbcafbd7af]

/-- The secret's eight bytes from byte `i` on, read little-endian. -/
def secretWord (i : Nat) : UInt64 :=
  let low := secret.getD (i / 8) 0
  let shift := 8 * (i % 8)
  if shift = 0 then low
  else low >>> shift.toUInt64 ||| secret.getD (i / 8 + 1) 0 <<< (64 - shift).toUInt64

/-! ## Reading the input -/

/-- The byte at `i`, zero past the end. -/
def byteAt (b : ByteArray) (i : Nat) : UInt64 :=
  if h : i < b.size then b[i].toUInt64 else 0

/-- Four bytes from `i` on, read little-endian. -/
def word32 (b : ByteArray) (i : Nat) : UInt64 :=
  byteAt b i ||| byteAt b (i + 1) <<< 8 ||| byteAt b (i + 2) <<< 16 ||| byteAt b (i + 3) <<< 24

/-- Eight bytes from `i` on, read little-endian. -/
def word64 (b : ByteArray) (i : Nat) : UInt64 :=
  word32 b i ||| word32 b (i + 4) <<< 32

/-! ## Mixing steps -/

def rotateLeft (x : UInt64) (r : UInt64) : UInt64 := x <<< r ||| x >>> (64 - r)

def swapBytes (x : UInt64) : UInt64 :=
  (List.range 8).foldl (fun acc i => acc <<< 8 ||| (x >>> (8 * i).toUInt64 &&& 0xff)) 0

/-- Low and high half of the full 128-bit product, combined by exclusive or. -/
def foldProduct (x y : UInt64) : UInt64 :=
  let p := x.toNat * y.toNat
  p.toUInt64 ^^^ (p >>> 64).toUInt64

/-- The closing scramble of the shortest inputs. -/
def scrambleShort (h : UInt64) : UInt64 :=
  let h := (h ^^^ h >>> 33) * primeSecond
  let h := (h ^^^ h >>> 29) * primeThird
  h ^^^ h >>> 32

/-- The closing scramble of all inputs of nine bytes or more. -/
def scramble (h : UInt64) : UInt64 :=
  let h := (h ^^^ h >>> 37) * mixFirst
  h ^^^ h >>> 32

/-- Sixteen input bytes at `i` against sixteen secret bytes at `j`. -/
def mixPair (b : ByteArray) (i j : Nat) : UInt64 :=
  foldProduct (word64 b i ^^^ secretWord j) (word64 b (i + 8) ^^^ secretWord (j + 8))

/-! ## Length classes -/

def upTo3 (b : ByteArray) : UInt64 :=
  let n := b.size
  let joined := byteAt b 0 <<< 16 ||| byteAt b (n / 2) <<< 24 ||| byteAt b (n - 1) ||| n.toUInt64 <<< 8
  let flip := (secretWord 0 ^^^ secretWord 4) &&& 0xffffffff
  scrambleShort (joined ^^^ flip)

def upTo8 (b : ByteArray) : UInt64 :=
  let n := b.size
  let joined := word32 b (n - 4) + word32 b 0 <<< 32
  let k := joined ^^^ (secretWord 8 ^^^ secretWord 16)
  let k := (k ^^^ (rotateLeft k 49 ^^^ rotateLeft k 24)) * mixSecond
  let k := (k ^^^ (k >>> 35 + n.toUInt64)) * mixSecond
  k ^^^ k >>> 28

def upTo16 (b : ByteArray) : UInt64 :=
  let n := b.size
  let low := word64 b 0 ^^^ (secretWord 24 ^^^ secretWord 32)
  let high := word64 b (n - 8) ^^^ (secretWord 40 ^^^ secretWord 48)
  scramble (n.toUInt64 + swapBytes low + high + foldProduct low high)

/-- Pairs are taken from both ends towards the middle, one more from each end per 32 bytes. -/
def upTo128 (b : ByteArray) : UInt64 :=
  let n := b.size
  let start := n.toUInt64 * primeFirst
  scramble <| (List.range ((n - 1) / 32 + 1)).foldl
    (fun acc i =>
      acc + mixPair b (16 * i) (32 * i) + mixPair b (n - 16 * (i + 1)) (32 * i + 16))
    start

def upTo240 (b : ByteArray) : UInt64 :=
  let n := b.size
  let start := n.toUInt64 * primeFirst
  let head := (List.range 8).foldl (fun acc i => acc + mixPair b (16 * i) (16 * i)) start
  let body := (List.range (n / 16 - 8)).foldl
    (fun acc i => acc + mixPair b (16 * (i + 8)) (16 * i + 3)) (scramble head)
  scramble (body + mixPair b (n - 16) 119)

/-! ## Long inputs -/

abbrev Lanes := Vector UInt64 8

def initialLanes : Lanes :=
  #v[prime32Third, primeFirst, primeSecond, primeThird, primeFourth, prime32Second, primeFifth,
    prime32First]

/-- One 64-byte stripe at `i` against the secret at `j`: each lane takes its neighbour's word and the
product of the two halves of its own keyed word. -/
def stripe (b : ByteArray) (lanes : Lanes) (i j : Nat) : Lanes :=
  Vector.ofFn fun k =>
    let keyed : UInt64 := word64 b (i + 8 * k) ^^^ secretWord (j + 8 * k)
    let neighbour := word64 b (i + 8 * (k.val ^^^ 1))
    lanes[k.val] + neighbour + (keyed &&& (0xffffffff : UInt64)) * (keyed >>> (32 : UInt64))

/-- After each full block of sixteen stripes the lanes are scrambled with the secret's end. -/
def scrambleLanes (lanes : Lanes) : Lanes :=
  Vector.ofFn fun k =>
    (lanes[k.val] ^^^ lanes[k.val] >>> 47 ^^^ secretWord (128 + 8 * k)) * prime32First

def block (b : ByteArray) (lanes : Lanes) (i : Nat) : Lanes :=
  scrambleLanes <| Nat.fold 16 (fun s _ acc => stripe b acc (i + 64 * s) (8 * s)) lanes

def mergeLanes (lanes : Lanes) (start : UInt64) : UInt64 :=
  scramble <| start
    + foldProduct (lanes[0] ^^^ secretWord 11) (lanes[1] ^^^ secretWord 19)
    + foldProduct (lanes[2] ^^^ secretWord 27) (lanes[3] ^^^ secretWord 35)
    + foldProduct (lanes[4] ^^^ secretWord 43) (lanes[5] ^^^ secretWord 51)
    + foldProduct (lanes[6] ^^^ secretWord 59) (lanes[7] ^^^ secretWord 67)

/-- Full blocks, then the stripes left over, then the input's last 64 bytes once more. -/
def long (b : ByteArray) : UInt64 :=
  let n := b.size
  let blocks := (n - 1) / 1024
  let lanes := Nat.fold blocks (fun i _ acc => block b acc (1024 * i)) initialLanes
  let left := (n - 1 - 1024 * blocks) / 64
  let lanes := Nat.fold left
    (fun s _ acc => stripe b acc (1024 * blocks + 64 * s) (8 * s)) lanes
  mergeLanes (stripe b lanes (n - 64) 121) (n.toUInt64 * primeFirst)

end Digest

/-- The 64-bit XXH3 digest of a byte string. -/
def digest (b : ByteArray) : UInt64 :=
  if b.size = 0 then Digest.scrambleShort (Digest.secretWord 56 ^^^ Digest.secretWord 64)
  else if b.size ≤ 3 then Digest.upTo3 b
  else if b.size ≤ 8 then Digest.upTo8 b
  else if b.size ≤ 16 then Digest.upTo16 b
  else if b.size ≤ 128 then Digest.upTo128 b
  else if b.size ≤ 240 then Digest.upTo240 b
  else Digest.long b

end LogGateway
