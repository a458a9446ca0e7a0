import ExactLinear.Equation
import ExactLinear.Number
import ExactLinear.Text
import ExactLinear.Text.Letter

/-!
# Equations from text

What can be wrong with a text, the grammar, and the readers for it.
-/

/-!
## Errors in the text of an equation

An error names the place, what was found there, and what would have been accepted in its
stead.
-/

namespace ExactLinear

namespace ParseError

inductive Context where
  /-- At the first digit of a number. -/
  | natural
  /-- At the first letter of a name. -/
  | name
  /-- Between the two sides of an equation, or after them. -/
  | equation
  deriving DecidableEq, Repr

inductive Expected where
  | digit
  | letter
  | equalsSign
  | endOfInput
  deriving DecidableEq, Repr

def Context.describe : Context → String
  | .natural => "at the start of a natural number"
  | .name => "at the start of a name"
  | .equation => "in equation"

def Expected.describe : Expected → String
  | .digit => "a digit"
  | .letter => "a letter"
  | .equalsSign => "`=`"
  | .endOfInput => "EOF"

def describeFound : Option Char → String
  | some c => "`" ++ c.toString ++ "`"
  | none => "EOF"

end ParseError

/-- Why a text is not an equation. Positions are offsets in bytes of its UTF-8 form. -/
inductive ParseError where
  /-- A character, or the end of the text, that does not fit the grammar. -/
  | unexpected (found : Option Char) (position : Nat) (context : ParseError.Context)
      (expected : ParseError.Expected)
  /-- A fraction over zero; the position is that of the denominator. -/
  | zeroDenominator (position : Nat)
  | fault (cause : Fault)
  deriving DecidableEq, Repr

def ParseError.message : ParseError → String
  | .unexpected found position context expected =>
    "unexpected " ++ describeFound found ++ s!" at offset {position} " ++ context.describe ++
      ", expecting " ++ expected.describe
  | .zeroDenominator position => s!"zero denominator at offset {position}"
  | .fault cause => cause.message?.getD ""

/-!
## Reading an equation

The grammar, with blanks allowed between tokens but not around the decimal point:

    equation := sum '=' sum
    sum      := ['+' | '-'] term (('+' | '-') term)*
    term     := name | number | number ['*'] name
    number   := natural | natural '.' natural | natural '/' natural
    name     := letter (letter | digit | '_')*

Every reader takes the characters ahead and gives back what it read with the characters that
remain. One that fails gives back the characters from the offending one on; only the whole
text turns that into a position.
-/

open Text (isLetter skipBlanks)

inductive Stop where
  | unexpected (ahead : List Char) (context : ParseError.Context) (expected : ParseError.Expected)
  | zeroDenominator (ahead : List Char)
  | fault (cause : Fault)
  deriving DecidableEq, Repr

def byteLength (cs : List Char) : Nat := cs.foldr (fun c n => c.utf8Size + n) 0

def Stop.locate (text : List Char) : Stop → ParseError
  | .unexpected ahead context expected =>
    .unexpected ahead.head? (byteLength text - byteLength ahead) context expected
  | .zeroDenominator ahead => .zeroDenominator (byteLength text - byteLength ahead)
  | .fault cause => .fault cause

namespace Reader

def isNameChar (c : Char) : Bool := isLetter c || c.isDigit || c == '_'

def startsName : List Char → Bool
  | [] => false
  | c :: _ => isLetter c

/-- Digits are counted in a word of 32 bits. -/
def mostDigits : Nat := 4294967295

/-- One digit or more, as many as can be counted. -/
def natural (cs : List Char) : Except Stop (List Char × List Char) :=
  let digits := cs.takeWhile Char.isDigit
  if mostDigits < digits.length then .error (.fault .tooManyDigits)
  else if digits = [] then .error (.unexpected cs .natural .digit)
  else .ok (digits, cs.dropWhile Char.isDigit)

def decimalValue (whole places : List Char) : Rat :=
  (Integer.ofDigits whole : Rat) +
    (Integer.ofDigits places : Rat) / (Nat.pow 10 places.length : Nat)

def decimalPlaces (whole cs : List Char) : Except Stop (Rat × List Char) := do
  let (places, rest) ← natural cs
  return (decimalValue whole places, rest)

def denominator (whole cs : List Char) : Except Stop (Rat × List Char) := do
  let (den, rest) ← natural cs
  if Integer.ofDigits den = 0 then .error (.zeroDenominator cs)
  else return (mkRat (Integer.ofDigits whole) (Integer.ofDigits den), rest)

/-- What follows the first digits of a number. Unless that is a decimal point, blanks are
skipped. -/
def numberTail (whole : List Char) : List Char → Except Stop (Rat × List Char)
  | '.' :: rest => decimalPlaces whole rest
  | cs =>
    match skipBlanks cs with
    | '/' :: rest => denominator whole (skipBlanks rest)
    | rest => .ok (Integer.ofDigits whole, rest)

def number (cs : List Char) : Except Stop (Rat × List Char) := do
  let (whole, rest) ← natural cs
  numberTail whole rest

def name (cs : List Char) : Except Stop (String × List Char) :=
  if startsName cs then .ok (String.ofList (cs.takeWhile isNameChar), cs.dropWhile isNameChar)
  else .error (.unexpected cs .name .letter)

def multiple (coefficient : Rat) (cs : List Char) : Except Stop (Term × List Char) := do
  let (name, rest) ← name cs
  return (.multiple coefficient name, rest)

/-- What follows the number of a term, blanks already skipped. -/
def termTail (value : Rat) : List Char → Except Stop (Term × List Char)
  | '*' :: rest => multiple value (skipBlanks rest)
  | rest => if startsName rest then multiple value rest else .ok (.constant value, rest)

def signed (negative : Bool) (value : Rat) : Rat := if negative then -value else value

/-- A term behind its sign, blanks already skipped. -/
def term (negative : Bool) (cs : List Char) : Except Stop (Term × List Char) :=
  if startsName cs then multiple (signed negative 1) cs
  else do
    let (value, rest) ← number cs
    termTail (signed negative value) (skipBlanks rest)

theorem length_skipBlanks_le (cs : List Char) : (skipBlanks cs).length ≤ cs.length :=
  (List.dropWhile_suffix _).length_le

theorem length_lt_of_natural {cs ds rest : List Char} (h : natural cs = .ok (ds, rest)) :
    rest.length < cs.length := by
  simp only [natural] at h
  split at h
  · simp at h
  · split at h
    · simp at h
    · rename_i nonempty
      have split :=
        congrArg List.length (List.takeWhile_append_dropWhile (p := Char.isDigit) (l := cs))
      have := List.length_pos_iff.2 nonempty
      simp only [Except.ok.injEq, Prod.mk.injEq] at h
      rw [← h.2]
      simp only [List.length_append] at split
      omega

theorem length_lt_of_name {cs rest : List Char} {n : String} (h : name cs = .ok (n, rest)) :
    rest.length < cs.length := by
  unfold name at h
  split at h
  · cases cs with
    | nil => simp [startsName] at *
    | cons c cs =>
      rename_i letter
      have : isNameChar c := by simp_all [startsName, isNameChar]
      simp only [List.dropWhile_cons, this, Except.ok.injEq, Prod.mk.injEq] at h
      have := (List.dropWhile_suffix isNameChar (l := cs)).length_le
      rw [← h.2]
      simp only [List.length_cons]
      simp only [if_true]
      omega
  · simp at h

theorem length_le_of_numberTail {whole cs rest : List Char} {value : Rat}
    (h : numberTail whole cs = .ok (value, rest)) : rest.length ≤ cs.length := by
  unfold numberTail at h
  split at h
  · rename_i places
    unfold decimalPlaces at h
    cases read : natural places with
    | error stop => simp [read, bind, Except.bind] at h
    | ok result =>
      simp only [read, bind, Except.bind, pure, Except.pure, Except.ok.injEq, Prod.mk.injEq] at h
      have := length_lt_of_natural read
      rw [← h.2]
      simp only [List.length_cons]
      omega
  · have blanks := length_skipBlanks_le cs
    split at h
    · rename_i den skipped
      have inner := length_skipBlanks_le den
      simp only [skipped, List.length_cons] at blanks
      unfold denominator at h
      cases read : natural (skipBlanks den) with
      | error stop => simp [read, bind, Except.bind] at h
      | ok result =>
        simp only [read, bind, Except.bind] at h
        split at h
        · simp at h
        · simp only [pure, Except.pure, Except.ok.injEq, Prod.mk.injEq] at h
          have := length_lt_of_natural read
          rw [← h.2]
          omega
    · simp only [Except.ok.injEq, Prod.mk.injEq] at h
      rw [← h.2]
      exact blanks

theorem length_lt_of_number {cs rest : List Char} {value : Rat}
    (h : number cs = .ok (value, rest)) : rest.length < cs.length := by
  unfold number at h
  cases read : natural cs with
  | error stop => simp [read, bind, Except.bind] at h
  | ok result =>
    simp only [read, bind, Except.bind] at h
    exact Nat.lt_of_le_of_lt (length_le_of_numberTail h) (length_lt_of_natural read)

theorem length_lt_of_multiple {coefficient : Rat} {cs rest : List Char} {t : Term}
    (h : multiple coefficient cs = .ok (t, rest)) : rest.length < cs.length := by
  unfold multiple at h
  cases read : name cs with
  | error stop => simp [read, bind, Except.bind] at h
  | ok result =>
    simp only [read, bind, Except.bind, pure, Except.pure, Except.ok.injEq, Prod.mk.injEq] at h
    exact h.2 ▸ length_lt_of_name read

theorem length_le_of_termTail {value : Rat} {cs rest : List Char} {t : Term}
    (h : termTail value cs = .ok (t, rest)) : rest.length ≤ cs.length := by
  unfold termTail at h
  split at h
  · rename_i ahead
    have := length_lt_of_multiple h
    have := length_skipBlanks_le ahead
    simp only [List.length_cons]
    omega
  · split at h
    · exact Nat.le_of_lt (length_lt_of_multiple h)
    · simp only [Except.ok.injEq, Prod.mk.injEq] at h
      exact h.2 ▸ Nat.le_refl _

/-- A term takes at least one character. -/
theorem length_lt_of_term {negative : Bool} {cs rest : List Char} {t : Term}
    (h : term negative cs = .ok (t, rest)) : rest.length < cs.length := by
  unfold term at h
  split at h
  · exact length_lt_of_multiple h
  · cases read : number cs with
    | error stop => simp [read, bind, Except.bind] at h
    | ok result =>
      simp only [read, bind, Except.bind] at h
      exact Nat.lt_of_le_of_lt
        (Nat.le_trans (length_le_of_termTail h) (length_skipBlanks_le _))
        (length_lt_of_number read)

/-- So do a term and the sign behind it. -/
theorem length_lt_of_sign {negative : Bool} {cs rest ahead : List Char} {t : Term} {sign : Char}
    (read : term negative (skipBlanks cs) = .ok (t, rest))
    (blanks : skipBlanks rest = sign :: ahead) : ahead.length < cs.length := by
  have := length_lt_of_term read
  have := length_skipBlanks_le cs
  have := length_skipBlanks_le rest
  simp only [blanks, List.length_cons] at this
  omega

/-- Terms up to the first one that no sign follows, each behind its sign. Those read before are
in `done`, last first. -/
def terms (negative : Bool) (done : List Term) (cs : List Char) :
    Except Stop (List Term × List Char) :=
  match read : term negative (skipBlanks cs) with
  | .error stop => .error stop
  | .ok (t, rest) =>
    match blanks : skipBlanks rest with
    | '+' :: ahead =>
      have := length_lt_of_sign read blanks
      terms false (t :: done) ahead
    | '-' :: ahead =>
      have := length_lt_of_sign read blanks
      terms true (t :: done) ahead
    | ahead => .ok ((t :: done).reverse, ahead)
termination_by cs.length

def sum (cs : List Char) : Except Stop (List Term × List Char) :=
  match skipBlanks cs with
  | '+' :: ahead => terms false [] ahead
  | '-' :: ahead => terms true [] ahead
  | ahead => terms false [] ahead

def sides (cs : List Char) : Except Stop (List Term × List Term) := do
  let (lhs, rest) ← sum cs
  match rest with
  | '=' :: rest =>
    let (rhs, rest) ← sum rest
    if rest = [] then return (lhs, rhs) else .error (.unexpected rest .equation .endOfInput)
  | rest => .error (.unexpected rest .equation .equalsSign)

end Reader

/-- Reads an equation such as `3x - 1/2 y = 2.5`. -/
def Equation.parse (text : String) : Except ParseError Equation :=
  match Reader.sides text.toList with
  | .ok (lhs, rhs) => .ok (ofSides lhs rhs)
  | .error stop => .error (stop.locate text.toList)

end ExactLinear
