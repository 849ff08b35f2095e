/-!
# The XXH64 hash with seed zero

XXH64 reads its input in stripes of four little-endian 64-bit lanes, each lane feeding an
accumulator of its own. Inputs shorter than one stripe skip the accumulators. What is left after the
last whole stripe is mixed in lane by lane, then as a 32-bit word if four bytes remain, then byte by
byte, and a final avalanche spreads every input bit over the result. All arithmetic is modulo
`2 ^ 64`.

The input is split first (`lanes`) and hashed after, so that every step is a recursion on a list.
-/

namespace ScriptBytecode.XXH64

/-! ### Constants and rounds -/

def prime1 : UInt64 := 0x9E3779B185EBCA87
def prime2 : UInt64 := 0xC2B2AE3D27D4EB4F
def prime3 : UInt64 := 0x165667B19E3779F9
def prime4 : UInt64 := 0x85EBCA77C2B2AE63
def prime5 : UInt64 := 0x27D4EB2F165667C5

/-- Rotation to the left by `n` bits, for `0 < n < 64`. -/
def rotl (x n : UInt64) : UInt64 := (x <<< n) ||| (x >>> (64 - n))

/-- Feeds one lane to an accumulator. -/
def round (acc lane : UInt64) : UInt64 := rotl (acc + lane * prime2) 31 * prime1

/-- Folds an accumulator into the result. -/
def mergeRound (h acc : UInt64) : UInt64 := (h ^^^ round 0 acc) * prime1 + prime4

/-! ### Reading the input -/

/-- The number whose bytes are `bytes`, least significant first. -/
def littleEndian (bytes : List UInt8) : UInt64 :=
  bytes.foldr (fun b n ↦ (n <<< 8) ||| b.toUInt64) 0

/-- The whole 64-bit lanes at the front of the input, and the bytes after them. -/
def lanes : List UInt8 → List UInt64 × List UInt8
  | a :: b :: c :: d :: e :: f :: g :: h :: rest =>
    let (ls, tail) := lanes rest
    (littleEndian [a, b, c, d, e, f, g, h] :: ls, tail)
  | tail => ([], tail)

/-! ### Mixing -/

/-- The four accumulators. -/
structure Accumulators where
  v1 : UInt64
  v2 : UInt64
  v3 : UInt64
  v4 : UInt64

/-- The accumulators before the first stripe. -/
def Accumulators.start : Accumulators := ⟨prime1 + prime2, prime2, 0, 0 - prime1⟩

/-- Feeds every whole stripe of four lanes to the accumulators and returns the lanes left over. -/
def stripes (acc : Accumulators) : List UInt64 → Accumulators × List UInt64
  | a :: b :: c :: d :: rest =>
    stripes ⟨round acc.v1 a, round acc.v2 b, round acc.v3 c, round acc.v4 d⟩ rest
  | rest => (acc, rest)

/-- The state that the accumulators leave. -/
def Accumulators.merge (acc : Accumulators) : UInt64 :=
  let h := rotl acc.v1 1 + rotl acc.v2 7 + rotl acc.v3 12 + rotl acc.v4 18
  [acc.v1, acc.v2, acc.v3, acc.v4].foldl mergeRound h

/-- Mixes in a lane that filled no stripe. -/
def mixLane (h lane : UInt64) : UInt64 := rotl (h ^^^ round 0 lane) 27 * prime1 + prime4

/-- Mixes in one byte. -/
def mixByte (h : UInt64) (b : UInt8) : UInt64 := rotl (h ^^^ (b.toUInt64 * prime5)) 11 * prime1

/-- Mixes in the fewer than eight bytes after the last lane. -/
def mixTail (h : UInt64) : List UInt8 → UInt64
  | a :: b :: c :: d :: rest =>
    rest.foldl mixByte
      (rotl (h ^^^ (littleEndian [a, b, c, d] * prime1)) 23 * prime2 + prime3)
  | rest => rest.foldl mixByte h

/-- The final avalanche. -/
def avalanche (h : UInt64) : UInt64 :=
  let h := (h ^^^ (h >>> 33)) * prime2
  let h := (h ^^^ (h >>> 29)) * prime3
  h ^^^ (h >>> 32)

/-- The hash of a list of bytes. -/
def hashBytes (bytes : List UInt8) : UInt64 :=
  let (ls, tail) := lanes bytes
  let (h, rest) :=
    if ls.length < 4 then (prime5, ls)
    else
      let (acc, rest) := stripes .start ls
      (acc.merge, rest)
  avalanche (mixTail (rest.foldl mixLane (h + UInt64.ofNat bytes.length)) tail)

/-- The hash of a text, read as UTF-8. -/
def hash (text : String) : UInt64 := hashBytes text.toUTF8.data.toList

end ScriptBytecode.XXH64
