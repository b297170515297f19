import MarketReplay.Civil.Date

/-!
# Easter Sunday

The month and day of Easter by chained divisions. Division and remainder go toward zero, which
matters only for years before year 0.
-/

namespace MarketReplay.Calendar

/-- The term of the Easter computation that fixes the moon: days from March 21 to the full moon,
before its two corrections. -/
def paschalOffset (y : Int) : Int :=
  let a := y.tmod 19
  let b := y.tdiv 100
  let d := b.tdiv 4
  let f := (b + 8).tdiv 25
  let g := (b - f + 1).tdiv 3
  (19 * a + b - d - g + 15).tmod 30

/-- Easter Sunday counted so that month and day of month are its quotient and remainder by 31. -/
def easterNumber (y : Int) : Int :=
  let a := y.tmod 19
  let b := y.tdiv 100
  let c := y.tmod 100
  let e := b.tmod 4
  let h := paschalOffset y
  let i := c.tdiv 4
  let k := c.tmod 4
  let l := (32 + 2 * e + 2 * i - h - k).tmod 7
  let m := (a + 11 * h + 22 * l).tdiv 451
  h + l - 7 * m + 114

/-- Easter Sunday of a year. -/
def easterSunday? (y : Int) : Option Date :=
  let n := easterNumber y
  Date.ofCivil? y (n.tdiv 31).toNat (n.tmod 31 + 1).toNat

end MarketReplay.Calendar
