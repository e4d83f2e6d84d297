/-!
# `LinearProgram.Fingerprint`: the digest of a stream of bytes

Cached results are filed under a digest of the model's text. The digest
spreads the FNV-1a multiplication over four lanes: byte `i` of the
stream goes to lane `i % 4`, and at the end the lanes and the length
are folded into one word.

* `absorb` takes one byte, `absorbAll` a stream byte by byte.
* `update` takes a chunk: it catches up with lane 0, takes blocks of
  four bytes, one for each lane, and then what is left.
* `digest` folds, `hex` writes sixteen digits, and `ofText` is the
  digest of a text in UTF-8.
-/

set_option autoImplicit false

namespace LinearProgram

/-- The state after some bytes: four lanes and how many bytes there were. -/
structure Fingerprint where
  lane0 : UInt64
  lane1 : UInt64
  lane2 : UInt64
  lane3 : UInt64
  position : Nat
deriving DecidableEq, Repr

namespace Fingerprint

/-- The FNV-1a offset basis, where every lane and the fold begin. -/
def basis : UInt64 := 0xcbf29ce484222325

/-- The FNV-1a prime. -/
def prime : UInt64 := 0x100000001b3

/-- One FNV-1a step. -/
def mix (word : UInt64) (byte : UInt8) : UInt64 := (word ^^^ byte.toUInt64) * prime

/-- The state before the first byte. -/
def start : Fingerprint := ⟨basis, basis, basis, basis, 0⟩

/-- Takes one byte into the lane whose turn it is. -/
def absorb (h : Fingerprint) (byte : UInt8) : Fingerprint :=
  match h.position % 4 with
  | 0 => { h with lane0 := mix h.lane0 byte, position := h.position + 1 }
  | 1 => { h with lane1 := mix h.lane1 byte, position := h.position + 1 }
  | 2 => { h with lane2 := mix h.lane2 byte, position := h.position + 1 }
  | _ => { h with lane3 := mix h.lane3 byte, position := h.position + 1 }

/-- Takes a stream byte by byte. -/
def absorbAll (h : Fingerprint) (bytes : List UInt8) : Fingerprint := bytes.foldl absorb h

/-- Takes four bytes at a time, one for each lane, and then the rest
byte by byte. Right where lane 0 is next. -/
def absorbBlocks (h : Fingerprint) : List UInt8 → Fingerprint
  | b0 :: b1 :: b2 :: b3 :: rest =>
    absorbBlocks
      ⟨mix h.lane0 b0, mix h.lane1 b1, mix h.lane2 b2, mix h.lane3 b3, h.position + 4⟩ rest
  | rest => h.absorbAll rest

/-- Takes a chunk of the stream: single bytes until lane 0 is next,
then blocks. -/
def update (h : Fingerprint) (bytes : List UInt8) : Fingerprint :=
  let lead := (4 - h.position % 4) % 4
  (h.absorbAll (bytes.take lead)).absorbBlocks (bytes.drop lead)

/-- The eight bytes of a word, lowest first. -/
def wordBytes (word : UInt64) : List UInt8 :=
  (List.range 8).map fun i => (word >>> (8 * i).toUInt64).toUInt8

/-- The lanes and the position folded into one word. -/
def digest (h : Fingerprint) : UInt64 :=
  ([h.lane0, h.lane1, h.lane2, h.lane3, UInt64.ofNat h.position].flatMap wordBytes).foldl mix basis

/-- The digest as sixteen hexadecimal digits in lower case. -/
def hex (h : Fingerprint) : String :=
  let digits := Nat.toDigits 16 h.digest.toNat
  String.ofList (List.replicate (16 - digits.length) '0' ++ digits)

/-- The bytes of a text in UTF-8. -/
def bytesOf (text : String) : List UInt8 := text.toUTF8.data.toList

/-- The digest of a text. -/
def ofText (text : String) : String := (start.update (bytesOf text)).hex

end Fingerprint

end LinearProgram
