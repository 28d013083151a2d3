/-
  BuildTargets/Duration.lean
  ==========================
  **Spans of time and their text.**

  A timed-out wait names the time it was given.  The text uses the largest unit
  that the span fills at least once (`s`, `ms`, `µs` or `ns`), with as many
  decimal places as the span needs and no more, and no point when it needs
  none.
-/

namespace BuildTargets

/-- A span of time, to the nanosecond. -/
structure Duration where
  nanos : Nat
deriving DecidableEq, Repr, Inhabited

namespace Duration

def ofSeconds (seconds : Nat) : Duration := ⟨seconds * 1000000000⟩

/-- The decimal digits of `n`, with zeros in front so that there are at least
    `width` of them. -/
def padDigits (width n : Nat) : List Char :=
  let digits := Nat.toDigits 10 n
  List.replicate (width - digits.length) '0' ++ digits

/-- The decimal places that `part / 10 ^ places` needs, with the point before
    them; nothing if it is zero. -/
def fraction (places part : Nat) : List Char :=
  if part = 0 then []
  else '.' :: ((padDigits places part).reverse.dropWhile (· = '0')).reverse

/-- `n / 10 ^ places` in decimal, followed by a unit. -/
def decimal (n places : Nat) (unit : String) : String :=
  let whole := Nat.pow 10 places
  String.ofList (Nat.toDigits 10 (n / whole) ++ fraction places (n % whole)) ++ unit

def text (d : Duration) : String :=
  if 1000000000 ≤ d.nanos then decimal d.nanos 9 "s"
  else if 1000000 ≤ d.nanos then decimal d.nanos 6 "ms"
  else if 1000 ≤ d.nanos then decimal d.nanos 3 "µs"
  else decimal d.nanos 0 "ns"

end Duration

end BuildTargets
