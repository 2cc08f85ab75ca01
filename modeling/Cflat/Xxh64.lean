import Cflat.Golden.Digest
import Cflat.Text.Quoted

/-!
# The XXH64 hash

A 64-bit hash of a byte string, with seed zero.  Whole stripes of 32 bytes go
into four lanes, one word each; the words, half words and bytes that are left are
mixed in one by one, and a last mix spreads every bit over the result.
-/

namespace Cflat.Xxh64

/-- The first of five odd multipliers. -/
def prime1 : UInt64 := 11400714785074694791

/-- The second multiplier. -/
def prime2 : UInt64 := 14029467366897019727

/-- The third multiplier. -/
def prime3 : UInt64 := 1609587929392839161

/-- The fourth multiplier. -/
def prime4 : UInt64 := 9650029242287828579

/-- The fifth multiplier. -/
def prime5 : UInt64 := 2870177450012600261

/-- Rotate a word by `n` bits, where `n` is not zero. -/
def rotateLeft (x : UInt64) (n : UInt64) : UInt64 :=
  (x <<< n) ||| (x >>> (64 - n))

/-- The number that bytes denote, the lowest byte first. -/
def littleEndian (bs : List UInt8) : UInt64 :=
  bs.foldr (fun b n => (n <<< 8) ||| b.toUInt64) 0

/-- Cut `count` pieces of `size` bytes from the front. -/
def pieces (size : Nat) : Nat → List UInt8 → List (List UInt8) × List UInt8
  | 0, bs => ([], bs)
  | count + 1, bs =>
    let (ps, rest) := pieces size count (bs.drop size)
    (bs.take size :: ps, rest)

/-- Cut as many pieces as there are. -/
def allPieces (size : Nat) (bs : List UInt8) : List (List UInt8) × List UInt8 :=
  pieces size (bs.length / size) bs

/-- Take a word into a lane. -/
def round (acc word : UInt64) : UInt64 :=
  rotateLeft (acc + word * prime2) 31 * prime1

/-- The four running words. -/
structure Lanes where
  a : UInt64
  b : UInt64
  c : UInt64
  d : UInt64
  deriving DecidableEq, Repr

namespace Lanes

/-- The lanes before the first stripe. -/
def start : Lanes := ⟨prime1 + prime2, prime2, 0, 0 - prime1⟩

/-- One of the four words of a stripe. -/
def word (stripe : List UInt8) (i : Nat) : UInt64 :=
  littleEndian ((stripe.drop (8 * i)).take 8)

/-- Take a stripe, one word into each lane. -/
def take (l : Lanes) (stripe : List UInt8) : Lanes :=
  ⟨round l.a (word stripe 0), round l.b (word stripe 1), round l.c (word stripe 2),
    round l.d (word stripe 3)⟩

/-- Mix a lane into the hash. -/
def mergeLane (h lane : UInt64) : UInt64 :=
  (h ^^^ round 0 lane) * prime1 + prime4

/-- One word from the four lanes. -/
def merge (l : Lanes) : UInt64 :=
  let h := rotateLeft l.a 1 + rotateLeft l.b 7 + rotateLeft l.c 12 + rotateLeft l.d 18
  mergeLane (mergeLane (mergeLane (mergeLane h l.a) l.b) l.c) l.d

end Lanes

/-- Mix in a word that is left over. -/
def mixWord (h : UInt64) (bs : List UInt8) : UInt64 :=
  rotateLeft (h ^^^ round 0 (littleEndian bs)) 27 * prime1 + prime4

/-- Mix in a half word that is left over. -/
def mixHalf (h : UInt64) (bs : List UInt8) : UInt64 :=
  rotateLeft (h ^^^ (littleEndian bs * prime1)) 23 * prime2 + prime3

/-- Mix in a byte that is left over. -/
def mixByte (h : UInt64) (b : UInt8) : UInt64 :=
  rotateLeft (h ^^^ (b.toUInt64 * prime5)) 11 * prime1

/-- The last mix. -/
def avalanche (h : UInt64) : UInt64 :=
  let h := (h ^^^ (h >>> 33)) * prime2
  let h := (h ^^^ (h >>> 29)) * prime3
  h ^^^ (h >>> 32)

/-- The hash of a byte string. -/
def hash (bs : List UInt8) : UInt64 :=
  let (stripes, rest) := allPieces 32 bs
  let h := if stripes.isEmpty then prime5 else (stripes.foldl Lanes.take Lanes.start).merge
  let (words, rest) := allPieces 8 rest
  let (halves, rest) := allPieces 4 rest
  let h := words.foldl mixWord (h + bs.length.toUInt64)
  avalanche (rest.foldl mixByte (halves.foldl mixHalf h))

/-- The hash of a text as sixteen hexadecimal digits. -/
def hexHash (text : String) : String :=
  String.ofList (Text.hexDigits 16 (hash text.toUTF8.toList).toNat)

theorem exists_digit_of_mem_toDigits {c : Char} (n : Nat) (h : c ∈ Nat.toDigits 16 n) :
    ∃ d < 16, c = Nat.digitChar d := by
  induction n using Nat.strongRecOn with
  | _ n ih =>
    rw [Nat.toDigits_eq_if (by decide)] at h
    by_cases hn : n < 16
    · rw [if_pos hn, List.mem_singleton] at h
      exact ⟨n, hn, h⟩
    · rw [if_neg hn, List.mem_append, List.mem_singleton] at h
      rcases h with h | h
      · exact ih (n / 16) (Nat.div_lt_self (by omega) (by decide)) h
      · exact ⟨n % 16, Nat.mod_lt n (by decide), h⟩

/-- The hash as a digest. -/
def digest : Golden.Digest where
  hash := hexHash
  hash_ne_empty text := by
    simp [hexHash, Text.hexDigits, Nat.toDigits_ne_nil]
  exists_digit text c hc := by
    rw [hexHash, String.toList_ofList, Text.hexDigits, List.mem_append] at hc
    rcases hc with hc | hc
    · exact ⟨0, by decide, List.eq_of_mem_replicate hc⟩
    · exact exists_digit_of_mem_toDigits _ hc

end Cflat.Xxh64
