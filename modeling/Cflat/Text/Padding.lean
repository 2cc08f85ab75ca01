/-!
# Columns

Left-justified columns.  A column counts characters, not bytes.
-/

namespace Cflat.Text

/-- A number of blanks. -/
def spaces (n : Nat) : String :=
  String.ofList (List.replicate n ' ')

/-- Fill a text up to a width with blanks. -/
def padRight (width : Nat) (s : String) : String :=
  s ++ spaces (width - s.length)

end Cflat.Text
