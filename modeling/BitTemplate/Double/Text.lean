import BitTemplate.Double.Basic

/-!
Numbers of double precision as text. A number is written with the fewest digits that read back
as it, and of several such decimals as the nearest. Infinities and the number without a value
are words.
-/
namespace BitTemplate.Double

/-- The exact value of a multiple of the least positive number. -/
def exactly (units : Nat) : Decimal := ⟨units * Nat.pow 5 1074, -1074⟩

/-- The decimals on either side of `x` that lack its last `dropped` digits. The nearer one comes
first, or the even one if they are equally near. -/
def neighbours (x : Decimal) (dropped : Nat) : List Decimal :=
  let size := Decimal.shiftOf dropped
  let below : Decimal := ⟨x.coefficient / size, x.exponent + dropped⟩
  let above : Decimal := ⟨x.coefficient / size + 1, x.exponent + dropped⟩
  if nearest x.coefficient size = below.coefficient then [below, above] else [above, below]

/-- The decimal with the fewest digits that reads back as a multiple of the least positive
number. Seventeen digits are enough. -/
def shortest (units : Nat) : Decimal :=
  let x := exactly units
  let length := x.length
  let ofDigits? (count : Nat) : Option Decimal :=
    (neighbours x (length - count)).find? fun y => ofDecimal false y = .finite false units
  ((List.range 17).findSome? fun i => ofDigits? (i + 1)).getD x

def withSign (negative : Bool) (s : String) : String := if negative then "-" ++ s else s

def text : Double → String
  | .finite negative units => withSign negative (shortest units).text
  | .infinite negative => withSign negative "inf"
  | .undefined => "nan"

def ofChars? (negative : Bool) (cs : List Char) : Option Double :=
  if cs = "inf".toList ∨ cs = "infinity".toList then some (.infinite negative)
  else if cs = "nan".toList then some .undefined
  else (Decimal.ofChars? cs).map (ofDecimal negative)

/-- The number that a text writes, in letters of either case. -/
def ofText? (s : String) : Option Double :=
  match s.toList.map Char.toLower with
  | '-' :: cs => ofChars? true cs
  | '+' :: cs => ofChars? false cs
  | cs => ofChars? false cs

end BitTemplate.Double
