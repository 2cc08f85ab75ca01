/-!
# White space and words

Type spellings, help texts and file patterns are split at white space.  This
file fixes which characters count as white space and gives the two operations
built on them: `trim` drops white space at both ends, and `words` cuts a text
into its maximal runs of other characters.

The `Chars` versions work on lists of characters, where the recursion is
visible; the versions on `String` are for callers.
-/

namespace Cflat.Text

/-- The Unicode property `White_Space`. -/
def isBlank (c : Char) : Bool :=
  let n := c.toNat
  (0x09 ≤ n && n ≤ 0x0d) || n == 0x20 || n == 0x85 || n == 0xa0 || n == 0x1680 ||
    (0x2000 ≤ n && n ≤ 0x200a) || n == 0x2028 || n == 0x2029 || n == 0x202f ||
    n == 0x205f || n == 0x3000

/-- Drop white space at the end. -/
def trimEndChars (cs : List Char) : List Char :=
  (cs.reverse.dropWhile isBlank).reverse

/-- Drop white space at both ends. -/
def trimChars (cs : List Char) : List Char :=
  trimEndChars (cs.dropWhile isBlank)

/-- The maximal runs of characters that are not white space, in order.  A
character joins the first word of the rest unless white space follows it. -/
def wordsChars : List Char → List (List Char)
  | [] => []
  | c :: cs =>
    if isBlank c then wordsChars cs
    else match cs with
      | [] => [[c]]
      | d :: _ =>
        if isBlank d then [c] :: wordsChars cs
        else match wordsChars cs with
          | [] => [[c]]
          | w :: ws => (c :: w) :: ws

/-- Drop white space at both ends of a text. -/
def trim (s : String) : String :=
  String.ofList (trimChars s.toList)

/-- The words of a text. -/
def words (s : String) : List String :=
  (wordsChars s.toList).map String.ofList

end Cflat.Text
