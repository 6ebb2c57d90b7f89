import FlatSchema.Binary64.Shortest

/-!
# Written doubles

A `Style` fixes what the digits leave open: which exponents are written positionally, whether a
whole number keeps `.0`, the sign of a positive exponent, the choice at a tie and the words for
what is not finite.
-/

namespace FlatSchema.Binary64

structure Style where
  /-- Whether a leading digit at this power of ten is written without exponent. -/
  positional : Int → Bool
  keepPoint : Bool
  plus : Bool
  tie : Tie
  nan : String
  infinity : String
  negativeInfinity : String

/-! ## Algorithm -/

def zeros (n : Int) : List Char :=
  List.replicate n.toNat '0'

def positionalText (keepPoint : Bool) (ds : List Char) (e : Int) : List Char :=
  let whole : Int := ds.length + e
  if 0 ≤ e then ds ++ zeros e ++ (if keepPoint then ['.', '0'] else [])
  else if 0 < whole then ds.take whole.toNat ++ '.' :: ds.drop whole.toNat
  else ['0', '.'] ++ zeros (-whole) ++ ds

def exponentText (plus : Bool) (ds : List Char) (e : Int) : List Char :=
  let power : Int := ds.length + e - 1
  let mark := if plus ∧ 0 ≤ power then ['e', '+'] else ['e']
  let mantissa := match ds with
    | d :: r :: rs => d :: '.' :: r :: rs
    | ds => ds
  mantissa ++ mark ++ (toString power).toList

def Style.digits (style : Style) (d : Decimal) : List Char :=
  let ds := Nat.toDigits 10 d.digits
  if style.positional (ds.length + d.exponent - 1) then
    positionalText style.keepPoint ds d.exponent
  else exponentText style.plus ds d.exponent

def Style.write (style : Style) (x : Binary64) : String :=
  match x.magnitude with
  | .nan => style.nan
  | .infinite => if x.negative then style.negativeInfinity else style.infinity
  | .finite m q =>
    let sign := if x.negative then ['-'] else []
    let body :=
      if m = 0 then positionalText style.keepPoint ['0'] 0
      else style.digits (shortest style.tie m q)
    String.ofList (sign ++ body)

end FlatSchema.Binary64
