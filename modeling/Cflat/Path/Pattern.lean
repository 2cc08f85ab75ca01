/-!
# File name patterns

A pattern is matched against the bytes of a file name.  `*` stands for any bytes
but the slash, `?` for one character that is no slash, `[a-z]` for a character of
a class, `[^a-z]` for one outside it, and a backslash takes the special meaning
from the character after it.

Stars cut a pattern into chunks.  A star takes as few bytes as it can, and once the
chunk after it has matched it is not tried again.  It may stop in the middle of a
character; the bytes left over then count as characters of their own.

A chunk may be malformed.  That is noticed when matching comes to the chunk, so a
name that fails before it is simply not matched.
-/

namespace Cflat.Path

/-- What a pattern wants at one position. -/
inductive Atom
  | literal (c : Char)
  | anyChar
  | oneOf (negated : Bool) (ranges : List (Char × Char))
  deriving DecidableEq, Repr

/-- A stretch of a pattern without a star, and whether a star stands before it. -/
structure Chunk where
  star : Bool
  /-- What the stretch wants; nothing if it is malformed. -/
  atoms : Option (List Atom)
  deriving DecidableEq, Repr

/-- A pattern as its chunks in order. -/
abbrev Pattern := List Chunk

/-! ## Reading a chunk -/

namespace Chunk

/-- A class whose closing bracket has not come yet, the last range first. -/
structure OpenClass where
  negated : Bool
  ranges : List (Char × Char) := []
  deriving DecidableEq, Repr

namespace OpenClass

/-- Add a range to an open class. -/
def add (k : OpenClass) (lo hi : Char) : OpenClass :=
  { k with ranges := (lo, hi) :: k.ranges }

/-- The class as an atom. -/
def close (k : OpenClass) : Atom :=
  .oneOf k.negated k.ranges.reverse

end OpenClass

/-- Where the reader stands. -/
inductive Mode
  | outside
  | escape
  /-- Right after an opening bracket. -/
  | opened
  /-- A range begins here. -/
  | low (k : OpenClass)
  | lowEscape (k : OpenClass)
  /-- After the first character of a range. -/
  | afterLow (k : OpenClass) (lo : Char)
  | high (k : OpenClass) (lo : Char)
  | highEscape (k : OpenClass) (lo : Char)
  deriving DecidableEq, Repr

namespace Mode

/-- A range begins with any character but a dash or a closing bracket. -/
def beginRange (k : OpenClass) (c : Char) : Option (Mode × List Atom) :=
  if c = '-' || c = ']' then none
  else if c = '\\' then some (lowEscape k, [])
  else some (afterLow k c, [])

/-- A closing bracket ends a class that has a range. -/
def endOrBegin (k : OpenClass) (c : Char) : Option (Mode × List Atom) :=
  if c = ']' && !k.ranges.isEmpty then some (outside, [k.close]) else beginRange k c

/-- Take one character; nothing if it cannot stand here. -/
def step : Mode → Char → Option (Mode × List Atom)
  | outside, c =>
    if c = '?' then some (outside, [.anyChar])
    else if c = '[' then some (opened, [])
    else if c = '\\' then some (escape, [])
    else some (outside, [.literal c])
  | escape, c => some (outside, [.literal c])
  | opened, c =>
    if c = '^' then some (low { negated := true }, []) else beginRange { negated := false } c
  | low k, c => endOrBegin k c
  | lowEscape k, c => some (afterLow k c, [])
  | afterLow k lo, c => if c = '-' then some (high k lo, []) else endOrBegin (k.add lo lo) c
  | high k lo, c =>
    if c = '-' || c = ']' then none
    else if c = '\\' then some (highEscape k lo, [])
    else some (low (k.add lo c), [])
  | highEscape k lo, c => some (low (k.add lo c), [])

/-- The atoms of the rest of a chunk.  It must not end inside a class or after a
backslash. -/
def atoms? : Mode → List Char → Option (List Atom)
  | outside, [] => some []
  | _, [] => none
  | mode, c :: cs =>
    (mode.step c).bind fun (mode, as) => (mode.atoms? cs).map (as ++ ·)

/-- Whether a chunk is well formed, and also what stands before each slash in it. -/
def soundAtSlashes : Mode → List Char → Bool
  | mode, [] => mode = outside
  | mode, c :: cs =>
    (c ≠ '/' || mode = outside) &&
      match mode.step c with
      | some (mode, _) => mode.soundAtSlashes cs
      | none => false

end Mode

/-- The chunk with the given text. -/
def read (star : Bool) (text : List Char) : Chunk :=
  ⟨star, Mode.outside.atoms? text⟩

end Chunk

/-! ## Reading a pattern -/

namespace Pattern

/-- Cut a text at its stars: what stands before the first one, and what follows
each.  In brackets and after a backslash a star stands for itself. -/
def cutStars (inClass escaped : Bool) : List Char → List Char × List (List Char)
  | [] => ([], [])
  | c :: cs =>
    if c = '*' && !inClass && !escaped then
      let (text, texts) := cutStars false false cs
      ([], text :: texts)
    else
      let inClass := if escaped then inClass else c = '[' || (inClass && c ≠ ']')
      let (text, texts) := cutStars inClass (c = '\\' && !escaped) cs
      (c :: text, texts)

/-- The chunks that follow stars.  Stars next to each other are one. -/
def starChunks : List (List Char) → Pattern
  | [] => []
  | [text] => [.read true text]
  | text :: texts => if text.isEmpty then starChunks texts else .read true text :: starChunks texts

/-- The pattern that characters spell. -/
def ofChars (text : List Char) : Pattern :=
  let (first, texts) := cutStars false false text
  (if first.isEmpty then [] else [.read false first]) ++ starChunks texts

/-- The pattern that a text spells. -/
def ofString (text : String) : Pattern := ofChars text.toList

/-- The text of the first chunk: what stands before the first star, or else what
follows the stars at the beginning. -/
def headText (text : List Char) : List Char :=
  let (first, texts) := cutStars false false text
  if first.isEmpty then (texts.find? (!·.isEmpty)).getD [] else first

/-- Whether the empty name, which fails at the first chunk, shows that the pattern
is malformed, or that a part of it up to a slash is. -/
def isRefused (text : String) : Bool :=
  !Chunk.Mode.outside.soundAtSlashes (headText text.toList)

/-- Whether a text has a character that is special in patterns. -/
def hasSpecial (text : String) : Bool :=
  text.toList.any fun c => c = '*' || c = '?' || c = '[' || c = '\\'

end Pattern

/-! ## Matching -/

/-- What stands for bytes that begin no character. -/
def replacement : Char := '�'

/-- Six bits of a character. -/
def sixBits (b : UInt8) : Nat := b.toNat % 64

/-- The first character and the bytes after it.  A byte that begins no character
counts as one by itself. -/
def firstChar? : List UInt8 → Option (Char × List UInt8)
  | [] => none
  | b :: rest =>
    let n := b.toNat
    if n < 0x80 then some (Char.ofNat n, rest)
    else if n < 0xc0 then some (replacement, rest)
    else match rest with
      | b₁ :: rest₁ =>
        if n < 0xe0 then some (Char.ofNat (n % 32 * 64 + sixBits b₁), rest₁)
        else match rest₁ with
          | b₂ :: rest₂ =>
            if n < 0xf0 then
              some (Char.ofNat ((n % 16 * 64 + sixBits b₁) * 64 + sixBits b₂), rest₂)
            else match rest₂ with
              | b₃ :: rest₃ =>
                some (Char.ofNat
                  (((n % 8 * 64 + sixBits b₁) * 64 + sixBits b₂) * 64 + sixBits b₃), rest₃)
              | [] => some (replacement, rest)
          | [] => some (replacement, rest)
      | [] => some (replacement, rest)

/-- The byte of a slash. -/
def slash : UInt8 := '/'.toUInt8

/-- Drop `lead` from the front of some bytes, if it is there. -/
def dropBytes? : List UInt8 → List UInt8 → Option (List UInt8)
  | [], bs => some bs
  | l :: lead, b :: bs => if l = b then dropBytes? lead bs else none
  | _ :: _, [] => none

namespace Atom

/-- Whether a character lies in one of the ranges, ends included. -/
def inRanges (c : Char) (ranges : List (Char × Char)) : Bool :=
  ranges.any fun r => r.1 ≤ c && c ≤ r.2

/-- The bytes left after the atom has taken its share. -/
def consume? : Atom → List UInt8 → Option (List UInt8)
  | literal c, bs => dropBytes? c.toString.toUTF8.toList bs
  | anyChar, bs =>
    if bs.head? = some slash then none else (firstChar? bs).map (·.2)
  | oneOf negated ranges, bs =>
    match firstChar? bs with
    | some (c, rest) => if inRanges c ranges == negated then none else some rest
    | none => none

/-- The bytes left after all atoms have taken their share in turn. -/
def consumeAll? : List Atom → List UInt8 → Option (List UInt8)
  | [], bs => some bs
  | a :: as, bs => (a.consume? bs).bind (consumeAll? as)

end Atom

namespace Chunk

/-- The places where a star can stop, the first one first. -/
def starStops : List UInt8 → List (List UInt8)
  | [] => [[]]
  | b :: bs => (b :: bs) :: if b = slash then [] else starStops bs

/-- Where the atoms of a chunk may begin to match. -/
def starts (k : Chunk) (bs : List UInt8) : List (List UInt8) :=
  if k.star then starStops bs else [bs]

/-- The bytes left after the first place where the atoms of a chunk match.  The
last chunk leaves nothing. -/
def consume? (k : Chunk) (atoms : List Atom) (isLast : Bool) (bs : List UInt8) :
    Option (List UInt8) :=
  (k.starts bs).findSome? fun start =>
    (Atom.consumeAll? atoms start).filter fun rest => !isLast || rest.isEmpty

end Chunk

namespace Pattern

/-- Whether the pattern matches all the bytes; nothing if the matching comes to a
malformed chunk. -/
def matchesBytes? : Pattern → List UInt8 → Option Bool
  | [], bs => some bs.isEmpty
  | k :: ks, bs =>
    k.atoms.bind fun atoms =>
      match k.consume? atoms ks.isEmpty bs with
      | some rest => matchesBytes? ks rest
      | none => some false

/-- Whether the pattern matches the whole name. -/
def matchesName? (p : Pattern) (name : String) : Option Bool :=
  p.matchesBytes? name.toUTF8.toList

end Pattern

end Cflat.Path
