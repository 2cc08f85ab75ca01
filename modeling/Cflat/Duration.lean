/-!
# Durations

Durations are counted in nanoseconds.  They are shown rounded to milliseconds,
in the largest units that apply.
-/

namespace Cflat.Duration

/-- A millisecond in nanoseconds. -/
def millisecond : Nat := 1000000

/-- A second in nanoseconds. -/
def second : Nat := 1000 * millisecond

/-- The nearest multiple of a millisecond, a half away from zero.  What would
leave the range of 64-bit words becomes its end. -/
def roundToMillisecond (d : Int64) : Int :=
  let n := d.toInt
  let rounded := (n.natAbs + millisecond / 2) / millisecond * millisecond
  if n < 0 then max Int64.minValue.toInt (-(rounded : Int))
  else min Int64.maxValue.toInt (rounded : Int)

/-- The nine digits of a fraction of a second without the zeros at the end, after
a point; nothing for no fraction. -/
def fraction (nanoseconds : Nat) : String :=
  if nanoseconds = 0 then ""
  else
    let ds := Nat.toDigits 10 nanoseconds
    let padded := List.replicate (9 - ds.length) '0' ++ ds
    "." ++ String.ofList (padded.reverse.dropWhile (· = '0')).reverse

/-- A number of nanoseconds that is below one second only in whole
milliseconds. -/
def magnitude (n : Nat) : String :=
  if n = 0 then "0s"
  else if n < second then toString (n / millisecond) ++ "ms"
  else
    let minutes := n / second / 60
    let hours := minutes / 60
    (if hours = 0 then "" else toString hours ++ "h") ++
      (if minutes = 0 then "" else toString (minutes % 60) ++ "m") ++
      toString (n / second % 60) ++ fraction (n % second) ++ "s"

/-- The text of a duration. -/
def render (d : Int64) : String :=
  let n := roundToMillisecond d
  (if n < 0 then "-" else "") ++ magnitude n.natAbs

end Cflat.Duration
