import ExactLinear.Text
import ExactLinear.Text.Letter
import Mathlib.Algebra.Order.Ring.Rat
import Mathlib.Data.Nat.Digits.Defs

/-! The grammar of equations, as syntax trees with the tokens they stand for and what they mean.

    statement := side '=' side
    side      := ['+' | '-'] summand (('+' | '-') summand)*
    summand   := name | number | number ['*'] name
    number    := natural | natural '.' natural | natural '/' natural
    name      := letter (letter | digit | '_')*

A decimal is one token. Blanks may stand in front of every token and behind the last. -/
namespace ExactLinear.Grammar

open Text (isBlank isLetter skipBlanks)

/-- One decimal digit or more. -/
structure Natural where
  digits : List Char
  nonempty : digits ≠ []
  isDigit : ∀ c ∈ digits, c.isDigit

def Natural.value (n : Natural) : Nat :=
  Nat.ofDigits 10 (n.digits.reverse.map fun c => c.toNat - '0'.toNat)

structure Name where
  first : Char
  others : List Char
  letter : isLetter first
  nameChar : ∀ c ∈ others, isLetter c ∨ c.isDigit ∨ c = '_'

def Name.token (n : Name) : List Char := n.first :: n.others

def Name.text (n : Name) : String := String.ofList n.token

/-- A denominator is part of the tree only if it is not zero. -/
inductive Number where
  | natural (n : Natural)
  | decimal (whole places : Natural)
  | fraction (num den : Natural) (nonzero : den.value ≠ 0)

namespace Number

def tokens : Number → List (List Char)
  | .natural n => [n.digits]
  | .decimal whole places => [whole.digits ++ '.' :: places.digits]
  | .fraction num den _ => [num.digits, ['/'], den.digits]

def value : Number → Rat
  | .natural n => n.value
  | .decimal whole places => whole.value + places.value / 10 ^ places.digits.length
  | .fraction num den _ => num.value / den.value

def naturals : Number → List Natural
  | .natural n => [n]
  | .decimal whole places => [whole, places]
  | .fraction num den _ => [num, den]

end Number

/-- A term without its sign; `star` tells whether the multiplication is written out. -/
inductive Summand where
  | name (n : Name)
  | number (v : Number)
  | multiple (v : Number) (star : Bool) (n : Name)

namespace Summand

def tokens : Summand → List (List Char)
  | .name n => [n.token]
  | .number v => v.tokens
  | .multiple v star n => v.tokens ++ ((if star then [['*']] else []) ++ [n.token])

/-- How often the summand has the name. -/
def coefficient (name : String) : Summand → Rat
  | .name n => if name = n.text then 1 else 0
  | .number _ => 0
  | .multiple v _ n => if name = n.text then v.value else 0

def constant : Summand → Rat
  | .number v => v.value
  | .name _ | .multiple .. => 0

def value (values : String → Rat) : Summand → Rat
  | .name n => values n.text
  | .number v => v.value
  | .multiple v _ n => v.value * values n.text

def naturals : Summand → List Natural
  | .name _ => []
  | .number v | .multiple v _ _ => v.naturals

end Summand

inductive Sign where
  | plus
  | minus

namespace Sign

def token : Sign → List Char
  | .plus => ['+']
  | .minus => ['-']

def apply : Sign → Rat → Rat
  | .plus, r => r
  | .minus, r => -r

end Sign

structure Side where
  sign : Option Sign
  first : Summand
  others : List (Sign × Summand)

namespace Side

def otherTokens (others : List (Sign × Summand)) : List (List Char) :=
  others.flatMap fun (sign, summand) => sign.token :: summand.tokens

def tokens (side : Side) : List (List Char) :=
  (side.sign.map Sign.token).toList ++ (side.first.tokens ++ otherTokens side.others)

/-- The summands with their signs; the first has a plus where none is written. -/
def signed (side : Side) : List (Sign × Summand) :=
  (side.sign.getD .plus, side.first) :: side.others

def total (part : Summand → Rat) (side : Side) : Rat :=
  (side.signed.map fun (sign, summand) => sign.apply (part summand)).sum

def coefficient (name : String) (side : Side) : Rat := side.total (Summand.coefficient name)

def constant (side : Side) : Rat := side.total Summand.constant

def value (values : String → Rat) (side : Side) : Rat := side.total (Summand.value values)

def otherNaturals (others : List (Sign × Summand)) : List Natural :=
  others.flatMap fun (_, summand) => summand.naturals

def naturals (side : Side) : List Natural := side.first.naturals ++ otherNaturals side.others

end Side

structure Statement where
  lhs : Side
  rhs : Side

def Statement.tokens (statement : Statement) : List (List Char) :=
  statement.lhs.tokens ++ ['='] :: statement.rhs.tokens

def Statement.naturals (statement : Statement) : List Natural :=
  statement.lhs.naturals ++ statement.rhs.naturals

/-- The tokens in their order, with any blanks in front of each and behind the last. -/
inductive Layout : List (List Char) → List Char → Prop
  | last {gap : List Char} (blank : ∀ c ∈ gap, isBlank c) : Layout [] gap
  | next {gap token rest : List Char} {tokens : List (List Char)} (blank : ∀ c ∈ gap, isBlank c)
      (later : Layout tokens rest) : Layout (token :: tokens) (gap ++ (token ++ rest))

/-- The text is derived by the statement. -/
def Statement.Derives (statement : Statement) (text : String) : Prop :=
  Layout statement.tokens text.toList

end ExactLinear.Grammar
