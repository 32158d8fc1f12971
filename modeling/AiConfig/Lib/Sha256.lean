import Mathlib.Data.List.Basic

/-! # SHA-256

An executable SHA-256 over 32-bit words, and its digest as the lowercase
hexadecimal text that stores and shippers compare. -/

namespace AiConfig.Lib.Sha256

abbrev Word := BitVec 32

def roundConstants : List Word :=
  [0x428a2f98, 0x71374491, 0xb5c0fbcf, 0xe9b5dba5, 0x3956c25b, 0x59f111f1, 0x923f82a4, 0xab1c5ed5,
   0xd807aa98, 0x12835b01, 0x243185be, 0x550c7dc3, 0x72be5d74, 0x80deb1fe, 0x9bdc06a7, 0xc19bf174,
   0xe49b69c1, 0xefbe4786, 0x0fc19dc6, 0x240ca1cc, 0x2de92c6f, 0x4a7484aa, 0x5cb0a9dc, 0x76f988da,
   0x983e5152, 0xa831c66d, 0xb00327c8, 0xbf597fc7, 0xc6e00bf3, 0xd5a79147, 0x06ca6351, 0x14292967,
   0x27b70a85, 0x2e1b2138, 0x4d2c6dfc, 0x53380d13, 0x650a7354, 0x766a0abb, 0x81c2c92e, 0x92722c85,
   0xa2bfe8a1, 0xa81a664b, 0xc24b8b70, 0xc76c51a3, 0xd192e819, 0xd6990624, 0xf40e3585, 0x106aa070,
   0x19a4c116, 0x1e376c08, 0x2748774c, 0x34b0bcb5, 0x391c0cb3, 0x4ed8aa4a, 0x5b9cca4f, 0x682e6ff3,
   0x748f82ee, 0x78a5636f, 0x84c87814, 0x8cc70208, 0x90befffa, 0xa4506ceb, 0xbef9a3f7, 0xc67178f2]

structure Registers where
  a : Word
  b : Word
  c : Word
  d : Word
  e : Word
  f : Word
  g : Word
  h : Word

def initialRegisters : Registers :=
  ⟨0x6a09e667, 0xbb67ae85, 0x3c6ef372, 0xa54ff53a, 0x510e527f, 0x9b05688c, 0x1f83d9ab, 0x5be0cd19⟩

/-- Extend a message schedule by `count` words; the schedule is kept newest first. -/
def extendSchedule : Nat → List Word → List Word
  | 0, schedule => schedule
  | count + 1, schedule =>
    let w15 := schedule.getD 14 0
    let w2 := schedule.getD 1 0
    let s0 := w15.rotateRight 7 ^^^ w15.rotateRight 18 ^^^ (w15 >>> 3)
    let s1 := w2.rotateRight 17 ^^^ w2.rotateRight 19 ^^^ (w2 >>> 10)
    extendSchedule count ((schedule.getD 15 0 + s0 + schedule.getD 6 0 + s1) :: schedule)

def round (r : Registers) (input : Word × Word) : Registers :=
  let s1 := r.e.rotateRight 6 ^^^ r.e.rotateRight 11 ^^^ r.e.rotateRight 25
  let ch := (r.e &&& r.f) ^^^ (~~~r.e &&& r.g)
  let t1 := r.h + s1 + ch + input.1 + input.2
  let s0 := r.a.rotateRight 2 ^^^ r.a.rotateRight 13 ^^^ r.a.rotateRight 22
  let maj := (r.a &&& r.b) ^^^ (r.a &&& r.c) ^^^ (r.b &&& r.c)
  ⟨t1 + (s0 + maj), r.a, r.b, r.c, r.d + t1, r.e, r.f, r.g⟩

def compress (r : Registers) (block : List Word) : Registers :=
  let schedule := (extendSchedule 48 block.reverse).reverse
  let s := (roundConstants.zip schedule).foldl round r
  ⟨r.a + s.a, r.b + s.b, r.c + s.c, r.d + s.d, r.e + s.e, r.f + s.f, r.g + s.g, r.h + s.h⟩

def bigEndian (bytes : List UInt8) : Word :=
  bytes.foldl (fun word byte => (word <<< 8) ||| BitVec.ofNat 32 byte.toNat) 0

def chunks {α : Type} (size : Nat) : Nat → List α → List (List α)
  | 0, _ => []
  | count + 1, items => items.take size :: chunks size count (items.drop size)

/-- The message, the bit `1`, zeros up to 56 modulo 64 bytes, and the bit length. -/
def pad (message : List UInt8) : List UInt8 :=
  let bits := message.length * 8
  let zeros := (119 - message.length % 64) % 64
  message ++ (0x80 : UInt8) :: (List.replicate zeros (0 : UInt8) ++
    (List.range 8).map (fun i => UInt8.ofNat (bits >>> (8 * (7 - i)))))

def hexDigit (n : Nat) : Char := if n < 10 then Char.ofNat (48 + n) else Char.ofNat (87 + n)

def wordHex (word : Word) : List Char :=
  (List.range 8).map (fun i => hexDigit ((word.toNat >>> (4 * (7 - i))) % 16))

/-- `hex.EncodeToString` of the SHA-256 sum. -/
def sum256Hex (message : List UInt8) : String :=
  let padded := pad message
  let blocks := (chunks 64 (padded.length / 64) padded).map fun block =>
    (chunks 4 16 block).map bigEndian
  let r := blocks.foldl compress initialRegisters
  String.ofList ([r.a, r.b, r.c, r.d, r.e, r.f, r.g, r.h].flatMap wordHex)

theorem sum256Hex_length (message : List UInt8) : (sum256Hex message).toList.length = 64 := by
  simp [sum256Hex, wordHex]

example : sum256Hex [] = "e3b0c44298fc1c149afbf4c8996fb92427ae41e4649b934ca495991b7852b855" := by
  decide +kernel

end AiConfig.Lib.Sha256
