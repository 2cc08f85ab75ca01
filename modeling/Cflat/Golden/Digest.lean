/-!
# Digests

A digest gives each text a word that stands for it.  Which one is used does not matter to
the test runner, as long as its words can be part of a file name.
-/

namespace Cflat.Golden

/-- A hash of texts.  Hashes are words of hexadecimal digits. -/
structure Digest where
  hash : String → String
  hash_ne_empty : ∀ text, hash text ≠ ""
  exists_digit : ∀ text, ∀ c ∈ (hash text).toList, ∃ d < 16, c = Nat.digitChar d

end Cflat.Golden
