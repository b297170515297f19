import MarketReplay.Civil.Time

/-!
# Exchange time

The exchange keeps the time of New York. Its distance from universal time follows a table of spans
of daylight time through 2006; from 2007 through 2099 daylight time runs from the second Sunday of
March to the first Sunday of November, and after that standard time stays.
-/

namespace MarketReplay.NewYork

/-- Local mean time, kept before the first change. -/
def meanTimeOffset : Int := -17762

/-- Standard time. -/
def standardOffset : Int := -18000

/-- Daylight time. -/
def daylightOffset : Int := -14400

/-- The second of the epoch at which standard time began. -/
def standardStart : Int := -2717650800

/-- The spans of daylight time through 1966, in hours since standard time began. -/
def earlySpans : List (Nat × Nat) :=
  [(301214, 306253), (309950, 314989), (318686, 323893), (328094, 331789), (336998, 340525),
   (345734, 349429), (354470, 358165), (363206, 366901), (371942, 375637), (380678, 384373),
   (389582, 393277), (398318, 402013), (407054, 410749), (415790, 419485), (424526, 428221),
   (433430, 436957), (442166, 445861), (450902, 454597), (459638, 463333), (468374, 472069),
   (477110, 480805), (486014, 489541), (494750, 498445), (503486, 507181), (510398, 542293),
   (547334, 551029), (556070, 559765), (564806, 568501), (573542, 577237), (582446, 585973),
   (591182, 594877), (599918, 603613), (608654, 612349), (617390, 621085), (626126, 630661),
   (635030, 639397), (643766, 648133), (652502, 656869), (661238, 665605), (669974, 674509),
   (678878, 683245), (687614, 691981), (696350, 700717), (705086, 709453), (713822, 718357),
   (722558, 727093)]

/-- The spans of daylight time from 1967 through 2006, in hours since standard time began. -/
def lateSpans : List (Nat × Nat) :=
  [(731462, 735829), (740198, 744565), (748934, 753301), (757670, 762037), (766406, 770941),
   (775310, 779677), (784046, 788413), (790094, 797149), (800006, 805885), (810254, 814789),
   (818990, 823525), (827894, 832261), (836630, 840997), (845366, 849733), (854102, 858469),
   (862838, 867373), (871574, 876109), (880478, 884845), (889214, 893581), (897950, 902317),
   (906182, 911053), (914918, 919957), (923654, 928693), (932390, 937429), (941294, 946165),
   (950030, 954901), (958766, 963805), (967502, 972541), (976238, 981277), (985142, 990013),
   (993878, 998749), (1002614, 1007485), (1011350, 1016389), (1020086, 1025125), (1028822, 1033861),
   (1037726, 1042597), (1046462, 1051333), (1055198, 1060237), (1063934, 1068973),
   (1072670, 1077709)]

/-- The second of the epoch from which the rule of 2007 holds. -/
def ruleStart : Int := 1173596400

/-- The last year in which the rule is applied. -/
def ruleLastYear : Int := 2099

/-- The day number of 1970-01-01. -/
def epochDay : Int := 719162

/-- The offset by the spans through 2006, from the beginning of standard time on. -/
def spanOffset (second : Int) : Int :=
  let hour := (second - standardStart) / 3600
  if (earlySpans ++ lateSpans).any fun span => span.1 ≤ hour && hour < span.2 then daylightOffset
  else standardOffset

/-- The second of the epoch at an hour of universal time on the `n`-th Sunday of a month. -/
def sundayAt? (year : Int) (month n hour : Nat) : Option Int :=
  (Date.nthWeekday? year month .sunday n).map fun d => (d.day - epochDay) * 86400 + hour * 3600

/-- The offset by the rule of 2007: changes are at two in the morning of the time kept before. -/
def ruleOffset (second : Int) : Int :=
  let year := Civil.yearOfDay (second / 86400 + epochDay)
  if ruleLastYear < year then standardOffset
  else
    match sundayAt? year 3 2 7, sundayAt? year 11 1 6 with
    | some summer, some winter =>
      if summer ≤ second && second < winter then daylightOffset else standardOffset
    | _, _ => standardOffset

/-- The offset from universal time at a second of the epoch. -/
def offsetAt (second : Int) : Int :=
  if second < standardStart then meanTimeOffset
  else if second < ruleStart then spanOffset second
  else ruleOffset second

/-- The moment of a second of the epoch in universal time. -/
def universal? (second : Int) : Option DateTime :=
  match Date.ofDay? (second / 86400 + epochDay) with
  | none => none
  | some date =>
    some ⟨date, (second % 86400).toNat, 0, DateTime.toNat_emod_day_lt second,
      TimeOfDay.midnight.nanos_lt⟩

/-- The moment of a second of the epoch in exchange time. -/
def local? (second : Int) : Option DateTime := universal? (second + offsetAt second)

end MarketReplay.NewYork
