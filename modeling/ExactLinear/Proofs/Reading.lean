import ExactLinear.Proofs.Layout
import Mathlib.Algebra.Order.Field.Rat

/-! What the readers have read, when they succeed, is a tree of the grammar: its tokens are laid out
in front of the rest, and what is given back is what the tree means. -/
namespace ExactLinear

open Grammar
open Text (isBlank isLetter skipBlanks)

section Counting

/-- None of the runs of digits is too long to be counted. -/
def Countable (ns : List Natural) : Prop := ∀ n ∈ ns, n.digits.length ≤ Reader.mostDigits

instance (ns : List Natural) : Decidable (Countable ns) :=
  inferInstanceAs (Decidable (∀ n ∈ ns, _))

/-- More digits stand in a row than can be counted. -/
def LongRun (text : List Char) : Prop :=
  ∃ run, run <:+: text ∧ (∀ c ∈ run, c.isDigit) ∧ Reader.mostDigits < run.length

variable {text whole front behind : List Char}

theorem countable_append {ns more : List Natural} :
    Countable (ns ++ more) ↔ Countable ns ∧ Countable more := List.forall_mem_append

theorem LongRun.mono (long : LongRun text) (inside : text <:+: whole) : LongRun whole := by
  obtain ⟨run, within, digits, length⟩ := long
  exact ⟨run, within.trans inside, digits, length⟩

theorem not_longRun_of_length_le (few : text.length ≤ Reader.mostDigits) : ¬ LongRun text := by
  rintro ⟨run, within, -, length⟩
  exact absurd (length.trans_le within.length_le) (not_lt.mpr few)

/-- A run of digits ends where another character stands. -/
theorem infix_append_cons {run : List Char} {c : Char} (absent : c ∉ run)
    (within : run <:+: front ++ c :: behind) : run <:+: front ∨ run <:+: behind := by
  have empty {part : List Char} (inside : c ∉ part) (begins : part <+: c :: behind) :
      part = [] := by
    rcases List.prefix_cons_iff.mp begins with nothing | ⟨tail, rfl, -⟩
    · exact nothing
    · exact absurd List.mem_cons_self inside
  rcases List.infix_append_iff.mp within with left | right | ⟨first, second, rfl, ends, begins⟩
  · exact .inl left
  · rcases List.infix_cons_iff.mp right with begins | right
    · exact .inl (empty absent begins ▸ List.nil_infix)
    · exact .inr right
  · rw [List.mem_append, not_or] at absent
    obtain rfl := empty absent.2 begins
    exact .inl (by simpa using ends.isInfix)

theorem longRun_append_cons_iff {c : Char} (mark : c.isDigit = false) :
    LongRun (front ++ c :: behind) ↔ LongRun front ∨ LongRun behind := by
  constructor
  · rintro ⟨run, within, digits, length⟩
    have absent : c ∉ run := by
      intro member
      rw [digits c member] at mark
      contradiction
    rcases infix_append_cons absent within with left | right
    · exact .inl ⟨run, left, digits, length⟩
    · exact .inr ⟨run, right, digits, length⟩
  · rintro (long | long)
    · exact long.mono ⟨[], c :: behind, by simp⟩
    · exact long.mono ⟨front ++ [c], [], by simp⟩

theorem longRun_cons_iff {c : Char} (mark : c.isDigit = false) :
    LongRun (c :: text) ↔ LongRun text := by
  have apart : LongRun ([] ++ c :: text) ↔ LongRun [] ∨ LongRun text :=
    longRun_append_cons_iff mark
  rwa [List.nil_append, or_iff_right (not_longRun_of_length_le (Nat.zero_le _))] at apart

theorem Grammar.Natural.longRun_iff (n : Natural) : LongRun n.digits ↔ ¬ Countable [n] := by
  rw [Countable, List.forall_mem_singleton, not_le]
  constructor
  · rintro ⟨run, within, -, length⟩
    exact length.trans_le within.length_le
  · intro length
    exact ⟨n.digits, List.infix_rfl, n.isDigit, length⟩

theorem Grammar.Number.longRun_iff (v : Number) :
    LongRun v.tokens.flatten ↔ ¬ Countable v.naturals := by
  have both (first second : Natural) {c : Char} (mark : c.isDigit = false) :
      LongRun (first.digits ++ c :: second.digits) ↔ ¬ Countable [first, second] := by
    rw [longRun_append_cons_iff mark, first.longRun_iff, second.longRun_iff, ← not_and_or,
      ← countable_append]
    rfl
  cases v with
  | natural n => simpa [Number.tokens, Number.naturals] using n.longRun_iff
  | decimal whole places =>
    simpa [Number.tokens, Number.naturals] using both whole places (c := '.') rfl
  | fraction num den nonzero =>
    simpa [Number.tokens, Number.naturals] using both num den (c := '/') rfl

end Counting

namespace Grammar

theorem Natural.ofDigits_eq_value (n : Natural) : Integer.ofDigits n.digits = n.value := by
  have grow (cs : List Char) : Nat.ofDigitChars 10 cs 0 =
      Nat.ofDigits 10 (cs.reverse.map fun c => c.toNat - '0'.toNat) := by
    induction cs with
    | nil => rfl
    | cons c cs ih =>
      rw [Nat.ofDigitChars_cons, Nat.ofDigitChars_eq_ofDigitChars_zero, ih, List.reverse_cons,
        List.map_append, Nat.ofDigits_append]
      simp [add_comm]
  exact grow n.digits

def Sign.negative : Sign → Bool
  | .plus => false
  | .minus => true

theorem Sign.signed_negative (sign : Sign) (r : Rat) :
    Reader.signed sign.negative r = sign.apply r := by
  cases sign <;> rfl

def Summand.term (sign : Sign) : Summand → Term
  | .name n => .multiple (sign.apply 1) n.text
  | .number v => .constant (sign.apply v.value)
  | .multiple v _ n => .multiple (sign.apply v.value) n.text

def Side.signedTerms (signed : List (Sign × Summand)) : List Term :=
  signed.map fun (sign, summand) => summand.term sign

theorem Side.signedTerms_cons (sign : Sign) (summand : Summand) (others : List (Sign × Summand)) :
    signedTerms ((sign, summand) :: others) = summand.term sign :: signedTerms others := rfl

theorem Side.signedTerms_append (signed others : List (Sign × Summand)) :
    signedTerms (signed ++ others) = signedTerms signed ++ signedTerms others :=
  List.map_append

def Side.terms (side : Side) : List Term := signedTerms side.signed

/-- The tokens stand in the text in front of whatever tokens are laid out in the rest. -/
def Covers (text : List Char) (tokens : List (List Char)) (rest : List Char) : Prop :=
  ∀ more, Layout more rest → Layout (tokens ++ more) text

namespace Covers

variable {text middle rest : List Char} {tokens more : List (List Char)}

theorem blanks (text : List Char) : Covers text [] (skipBlanks text) :=
  fun _ laid => laid.of_skipBlanks

theorem token (token rest : List Char) : Covers (token ++ rest) [token] rest :=
  fun _ laid => Layout.next (List.forall_mem_nil _) laid

theorem trans (first : Covers text tokens middle) (second : Covers middle more rest) :
    Covers text (tokens ++ more) rest := by
  intro later laid
  rw [List.append_assoc]
  exact first _ (second later laid)

/-- Blanks in front of the tokens. -/
theorem of_skipBlanks (covers : Covers (skipBlanks text) tokens rest) : Covers text tokens rest :=
  (blanks text).trans covers

/-- Blanks behind the tokens. -/
theorem skipBlanks (covers : Covers text tokens rest) : Covers text tokens (skipBlanks rest) := by
  have all := covers.trans (blanks rest)
  rwa [List.append_nil] at all

end Covers

end Grammar

section Soundness

variable {cs rest : List Char}

theorem natural_sound {digits : List Char} (read : Reader.natural cs = .ok (digits, rest)) :
    ∃ n : Natural, digits = n.digits ∧ cs = n.digits ++ rest := by
  simp only [Reader.natural] at read
  split at read
  · contradiction
  · split at read
    · contradiction
    · rename_i nonempty
      simp only [Except.ok.injEq, Prod.mk.injEq] at read
      obtain ⟨rfl, rfl⟩ := read
      exact ⟨⟨_, nonempty, fun c => List.mem_takeWhile_imp⟩, rfl,
        List.takeWhile_append_dropWhile.symm⟩

theorem decimalValue_eq (whole places : Natural) :
    Reader.decimalValue whole.digits places.digits = (Number.decimal whole places).value := by
  simp [Reader.decimalValue, Natural.ofDigits_eq_value, Number.value]

theorem numberTail_sound {whole : Natural} {r : Rat}
    (read : Reader.numberTail whole.digits cs = .ok (r, rest)) :
    ∃ v : Number, r = v.value ∧ Covers (whole.digits ++ cs) v.tokens rest := by
  unfold Reader.numberTail at read
  split at read
  · obtain ⟨⟨digits, behind⟩, readPlaces, equal⟩ := bind_eq_ok_iff.mp read
    obtain ⟨places, rfl, rfl⟩ := natural_sound readPlaces
    obtain ⟨rfl, rfl⟩ := Prod.mk.inj (Except.ok.inj equal)
    refine ⟨.decimal whole places, decimalValue_eq whole places, ?_⟩
    have covers := Covers.token (whole.digits ++ '.' :: places.digits) behind
    rwa [List.append_assoc] at covers
  · have first := (Covers.token whole.digits cs).skipBlanks
    split at read
    · rename_i behindBar bar
      obtain ⟨⟨digits, behind⟩, readDen, equal⟩ := bind_eq_ok_iff.mp read
      obtain ⟨den, rfl, shape⟩ := natural_sound readDen
      simp only [Natural.ofDigits_eq_value] at equal
      split at equal
      · contradiction
      · rename_i nonzero
        obtain ⟨rfl, rfl⟩ := Prod.mk.inj (Except.ok.inj equal)
        refine ⟨.fraction whole den nonzero, by simp [Number.value, Rat.mkRat_eq_div], ?_⟩
        have last : Covers behindBar [den.digits] behind :=
          Covers.of_skipBlanks (shape ▸ Covers.token den.digits behind)
        rw [bar] at first
        exact first.trans ((Covers.token ['/'] behindBar).trans last)
    · obtain ⟨rfl, rfl⟩ := Prod.mk.inj (Except.ok.inj read)
      exact ⟨.natural whole, by simp [Number.value, Natural.ofDigits_eq_value], first⟩

theorem number_sound {r : Rat} (read : Reader.number cs = .ok (r, rest)) :
    ∃ v : Number, r = v.value ∧ Covers cs v.tokens rest := by
  obtain ⟨⟨digits, behind⟩, readWhole, readTail⟩ := bind_eq_ok_iff.mp read
  obtain ⟨whole, rfl, rfl⟩ := natural_sound readWhole
  exact numberTail_sound readTail

theorem name_sound {text : String} (read : Reader.name cs = .ok (text, rest)) :
    ∃ n : Name, text = n.text ∧ cs = n.token ++ rest := by
  unfold Reader.name at read
  split at read
  · rename_i starts
    obtain ⟨rfl, rfl⟩ := Prod.mk.inj (Except.ok.inj read)
    cases cs with
    | nil => contradiction
    | cons c cs =>
      have letter : isLetter c := starts
      have kept : Reader.isNameChar c := by simp [Reader.isNameChar, letter]
      have others : ∀ d ∈ cs.takeWhile Reader.isNameChar, isLetter d ∨ d.isDigit ∨ d = '_' := by
        intro d member
        have inside := List.mem_takeWhile_imp member
        simpa [Reader.isNameChar, or_assoc] using inside
      refine ⟨⟨c, cs.takeWhile Reader.isNameChar, letter, others⟩, ?_, ?_⟩
      · simp [Name.text, Name.token, kept]
      · simp [Name.token, kept]
  · contradiction

theorem multiple_sound {r : Rat} {t : Term} (read : Reader.multiple r cs = .ok (t, rest)) :
    ∃ n : Name, t = .multiple r n.text ∧ Covers cs [n.token] rest := by
  obtain ⟨⟨text, behind⟩, readName, equal⟩ := bind_eq_ok_iff.mp read
  obtain ⟨n, rfl, rfl⟩ := name_sound readName
  obtain ⟨rfl, rfl⟩ := Prod.mk.inj (Except.ok.inj equal)
  exact ⟨n, rfl, Covers.token n.token behind⟩

theorem termTail_sound {sign : Sign} {v : Number} {t : Term} {text : List Char}
    (read : Reader.termTail (sign.apply v.value) cs = .ok (t, rest))
    (front : Covers text v.tokens cs) :
    ∃ summand : Summand, t = summand.term sign ∧ Covers text summand.tokens rest := by
  unfold Reader.termTail at read
  split at read
  · rename_i behindStar
    obtain ⟨n, rfl, named⟩ := multiple_sound read
    exact ⟨.multiple v true n, rfl,
      front.trans ((Covers.token ['*'] behindStar).trans named.of_skipBlanks)⟩
  · split at read
    · obtain ⟨n, rfl, named⟩ := multiple_sound read
      exact ⟨.multiple v false n, rfl, front.trans named⟩
    · obtain ⟨rfl, rfl⟩ := Prod.mk.inj (Except.ok.inj read)
      exact ⟨.number v, rfl, front⟩

theorem term_sound {sign : Sign} {t : Term} (read : Reader.term sign.negative cs = .ok (t, rest)) :
    ∃ summand : Summand, t = summand.term sign ∧ Covers cs summand.tokens rest := by
  unfold Reader.term at read
  split at read
  · obtain ⟨n, rfl, named⟩ := multiple_sound read
    exact ⟨.name n, by rw [Summand.term, Sign.signed_negative], named⟩
  · obtain ⟨⟨r, behind⟩, readNumber, readTail⟩ := bind_eq_ok_iff.mp read
    obtain ⟨v, rfl, covers⟩ := number_sound readNumber
    simp only [Sign.signed_negative] at readTail
    exact termTail_sound readTail covers.skipBlanks

/-- A sign leads from one summand to the next. -/
theorem covers_next_summand {first second : Summand} {others : List (Sign × Summand)}
    {behind ahead : List Char} (sign : Sign) (front : Covers cs first.tokens behind)
    (signed : skipBlanks behind = sign.token ++ ahead)
    (later : Covers ahead (second.tokens ++ Side.otherTokens others) rest) :
    Covers cs (first.tokens ++ Side.otherTokens ((sign, second) :: others)) rest := by
  have toSign := front.skipBlanks
  rw [signed] at toSign
  exact toSign.trans ((Covers.token sign.token ahead).trans later)

/-- Each round of the loop reads one summand, and the sign behind it for the next round. -/
theorem terms_sound {negative : Bool} {done ts : List Term} (sign : Sign)
    (same : negative = sign.negative) (read : Reader.terms negative done cs = .ok (ts, rest)) :
    ∃ (first : Summand) (others : List (Sign × Summand)),
      ts = done.reverse ++ Side.signedTerms ((sign, first) :: others) ∧
        Covers cs (first.tokens ++ Side.otherTokens others) rest := by
  fun_induction Reader.terms negative done cs generalizing sign with
  | case1 => contradiction
  | case2 negative done cs t behind readTerm ahead plus _ ih =>
    subst same
    obtain ⟨first, rfl, covers⟩ := term_sound readTerm
    obtain ⟨second, others, rfl, later⟩ := ih .plus rfl read
    refine ⟨first, (.plus, second) :: others, by simp [Side.signedTerms], ?_⟩
    exact covers_next_summand .plus covers.of_skipBlanks plus later
  | case3 negative done cs t behind readTerm ahead minus _ ih =>
    subst same
    obtain ⟨first, rfl, covers⟩ := term_sound readTerm
    obtain ⟨second, others, rfl, later⟩ := ih .minus rfl read
    refine ⟨first, (.minus, second) :: others, by simp [Side.signedTerms], ?_⟩
    exact covers_next_summand .minus covers.of_skipBlanks minus later
  | case4 negative done cs t behind readTerm =>
    subst same
    obtain ⟨first, rfl, covers⟩ := term_sound readTerm
    obtain ⟨rfl, rfl⟩ := Prod.mk.inj (Except.ok.inj read)
    refine ⟨first, [], by simp [Side.signedTerms], ?_⟩
    have last := covers.of_skipBlanks.skipBlanks
    rwa [← List.append_nil first.tokens] at last

theorem sum_sound {ts : List Term} (read : Reader.sum cs = .ok (ts, rest)) :
    ∃ side : Side, ts = side.terms ∧ Covers cs side.tokens rest := by
  unfold Reader.sum at read
  split at read
  · rename_i ahead plus
    obtain ⟨first, others, rfl, covers⟩ := terms_sound .plus rfl read
    refine ⟨⟨some .plus, first, others⟩, rfl, Covers.of_skipBlanks ?_⟩
    rw [plus]
    exact (Covers.token ['+'] ahead).trans covers
  · rename_i ahead minus
    obtain ⟨first, others, rfl, covers⟩ := terms_sound .minus rfl read
    refine ⟨⟨some .minus, first, others⟩, rfl, Covers.of_skipBlanks ?_⟩
    rw [minus]
    exact (Covers.token ['-'] ahead).trans covers
  · obtain ⟨first, others, rfl, covers⟩ := terms_sound .plus rfl read
    exact ⟨⟨none, first, others⟩, rfl, covers.of_skipBlanks⟩

theorem sides_sound {lhs rhs : List Term} (read : Reader.sides cs = .ok (lhs, rhs)) :
    ∃ tree : Statement, lhs = tree.lhs.terms ∧ rhs = tree.rhs.terms ∧ Layout tree.tokens cs := by
  obtain ⟨⟨left, behind⟩, readLeft, readRest⟩ := bind_eq_ok_iff.mp read
  obtain ⟨leftSide, rfl, leftCovers⟩ := sum_sound readLeft
  simp only at readRest
  split at readRest
  · rename_i behindEquals
    obtain ⟨⟨right, last⟩, readRight, finish⟩ := bind_eq_ok_iff.mp readRest
    obtain ⟨rightSide, rfl, rightCovers⟩ := sum_sound readRight
    simp only at finish
    split at finish
    · rename_i empty
      obtain ⟨rfl, rfl⟩ := Prod.mk.inj (Except.ok.inj finish)
      refine ⟨⟨leftSide, rightSide⟩, rfl, rfl, ?_⟩
      have whole := leftCovers.trans ((Covers.token ['='] behindEquals).trans rightCovers)
      have laid := whole [] (layout_nil_iff.mpr (by rw [empty]; rfl))
      rwa [List.append_nil] at laid
    · contradiction
  · contradiction

end Soundness

end ExactLinear
