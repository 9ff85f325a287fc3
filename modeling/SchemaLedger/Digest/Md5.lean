import SchemaLedger.Text.Utf8

namespace SchemaLedger
namespace Md5

structure Digest where
  a : UInt32
  b : UInt32
  c : UInt32
  d : UInt32
deriving DecidableEq

def initial : Digest :=
  ⟨0x67452301, 0xEFCDAB89, 0x98BADCFE, 0x10325476⟩

def rotations : List UInt32 :=
  let row (a b c d : UInt32) : List UInt32 := [a, b, c, d, a, b, c, d, a, b, c, d, a, b, c, d]
  row 7 12 17 22 ++ row 5 9 14 20 ++ row 4 11 16 23 ++ row 6 10 15 21

/-- The round constants: the whole part of `2 ^ 32 * |sin (i + 1)|` for round
`i`. -/
def constants : List UInt32 :=
  [0xD76AA478, 0xE8C7B756, 0x242070DB, 0xC1BDCEEE, 0xF57C0FAF, 0x4787C62A, 0xA8304613, 0xFD469501,
   0x698098D8, 0x8B44F7AF, 0xFFFF5BB1, 0x895CD7BE, 0x6B901122, 0xFD987193, 0xA679438E, 0x49B40821,
   0xF61E2562, 0xC040B340, 0x265E5A51, 0xE9B6C7AA, 0xD62F105D, 0x02441453, 0xD8A1E681, 0xE7D3FBC8,
   0x21E1CDE6, 0xC33707D6, 0xF4D50D87, 0x455A14ED, 0xA9E3E905, 0xFCEFA3F8, 0x676F02D9, 0x8D2A4C8A,
   0xFFFA3942, 0x8771F681, 0x6D9D6122, 0xFDE5380C, 0xA4BEEA44, 0x4BDECFA9, 0xF6BB4B60, 0xBEBFBC70,
   0x289B7EC6, 0xEAA127FA, 0xD4EF3085, 0x04881D05, 0xD9D4D039, 0xE6DB99E5, 0x1FA27CF8, 0xC4AC5665,
   0xF4292244, 0x432AFF97, 0xAB9423A7, 0xFC93A039, 0x655B59C3, 0x8F0CCC92, 0xFFEFF47D, 0x85845DD1,
   0x6FA87E4F, 0xFE2CE6E0, 0xA3014314, 0x4E0811A1, 0xF7537E82, 0xBD3AF235, 0x2AD7D2BB, 0xEB86D391]

def rotateLeft (x n : UInt32) : UInt32 :=
  (x <<< n) ||| (x >>> (32 - n))

/-- The mixing function of round `i` and the word of the block that the round
takes in. -/
def mix (i : Nat) (s : Digest) : UInt32 × Nat :=
  if i < 16 then ((s.b &&& s.c) ||| (~~~s.b &&& s.d), i)
  else if i < 32 then ((s.d &&& s.b) ||| (~~~s.d &&& s.c), (5 * i + 1) % 16)
  else if i < 48 then (s.b ^^^ s.c ^^^ s.d, (3 * i + 5) % 16)
  else (s.c ^^^ (s.b ||| ~~~s.d), (7 * i) % 16)

def round (words : Array UInt32) (s : Digest) (i : Nat) (constant rotation : UInt32) : Digest :=
  let (mixed, k) := mix i s
  let sum := mixed + s.a + constant + words.getD k 0
  ⟨s.d, s.b + rotateLeft sum rotation, s.b, s.c⟩

def word (b₀ b₁ b₂ b₃ : UInt8) : UInt32 :=
  b₀.toUInt32 ||| (b₁.toUInt32 <<< 8) ||| (b₂.toUInt32 <<< 16) ||| (b₃.toUInt32 <<< 24)

/-- Bytes grouped by four; a remainder shorter than that is dropped. -/
def wordsOf : Bytes → List UInt32
  | b₀ :: b₁ :: b₂ :: b₃ :: rest => word b₀ b₁ b₂ b₃ :: wordsOf rest
  | _ => []

def absorb (s : Digest) (block : List UInt32) : Digest :=
  let words := block.toArray
  let steps := (List.range 64).zip (constants.zip rotations)
  let t := steps.foldl (fun t (i, constant, rotation) => round words t i constant rotation) s
  ⟨s.a + t.a, s.b + t.b, s.c + t.c, s.d + t.d⟩

def littleEndian : Nat → Nat → Bytes
  | 0, _ => []
  | count + 1, n => UInt8.ofNat (n % 256) :: littleEndian count (n / 256)

/-- The message with a one bit, zeros and its length in bits behind it, a
multiple of 64 bytes long. -/
def padded (bytes : Bytes) : Bytes :=
  let zeros := (119 - bytes.length % 64) % 64
  bytes ++ 0x80 :: List.replicate zeros 0 ++ littleEndian 8 (8 * bytes.length)

/-- The words in blocks of sixteen; `fuel` bounds the number of blocks. -/
def blocks : (fuel : Nat) → List UInt32 → List (List UInt32)
  | 0, _ => []
  | fuel + 1, words => words.take 16 :: blocks fuel (words.drop 16)

def digest (bytes : Bytes) : Digest :=
  let words := wordsOf (padded bytes)
  (blocks (words.length / 16) words).foldl absorb initial

/-- The digest as text: each word's bytes from the least significant on, two
hexadecimal digits a byte. -/
def hexDigest (bytes : Bytes) : Text :=
  let s := digest bytes
  [s.a, s.b, s.c, s.d].flatMap fun w =>
    (littleEndian 4 w.toNat).flatMap fun b => Text.hex 2 b.toNat

end Md5
end SchemaLedger
