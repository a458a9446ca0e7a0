import ExactLinear.Proofs.Reading

/-! What the readers recognize. Where the tokens of a tree are laid out in front of something that
cannot continue them, the readers take exactly these tokens: they look ahead by one character, and
that tells where each part of a tree ends. -/
namespace ExactLinear

open Grammar
open Text (isBlank isLetter skipBlanks)

/-- What may go on a number that has been read up to here. -/
def continuesNumber (c : Char) : Bool := c.isDigit || c == '.' || c == '/'

def continuesSummand (c : Char) : Bool := Reader.isNameChar c || continuesNumber c || c == '*'

def continuesSide (c : Char) : Bool := continuesSummand c || c == '+' || c == '-'

section Classes

variable {c : Char}

theorem not_continuesNumber (outside : continuesSummand c = false) : continuesNumber c = false := by
  simp only [continuesSummand, Bool.or_eq_false_iff] at outside
  exact outside.1.2

theorem not_continuesSummand (outside : continuesSide c = false) : continuesSummand c = false := by
  simp only [continuesSide, Bool.or_eq_false_iff] at outside
  exact outside.1.1

theorem not_isDigit (outside : continuesNumber c = false) : c.isDigit = false := by
  simp only [continuesNumber, Bool.or_eq_false_iff] at outside
  exact outside.1.1

theorem not_isNameChar (outside : continuesSummand c = false) : Reader.isNameChar c = false := by
  simp only [continuesSummand, Bool.or_eq_false_iff] at outside
  exact outside.1.1

theorem not_isLetter (outside : continuesSummand c = false) : isLetter c = false := by
  have name := not_isNameChar outside
  simp only [Reader.isNameChar, Bool.or_eq_false_iff] at name
  exact name.1.1

/-- A blank ends every token. -/
theorem not_continuesSummand_of_isBlank (blank : isBlank c) : continuesSummand c = false := by
  have differs {d : Char} (solid : isBlank d = false) : c ≠ d := by
    rintro rfl
    simp [solid] at blank
  have underscore : c ≠ '_' := differs rfl
  have point : c ≠ '.' := differs rfl
  have bar : c ≠ '/' := differs rfl
  have star : c ≠ '*' := differs rfl
  simp [continuesSummand, continuesNumber, Reader.isNameChar, not_isLetter_of_isBlank blank,
    not_isDigit_of_isBlank blank, underscore, point, bar, star]

theorem not_isNameChar_equals : Reader.isNameChar '=' = false := by
  simp [Reader.isNameChar, not_isLetter_of_lt]

theorem not_continuesSide_equals : continuesSide '=' = false := by
  simp [continuesSide, continuesSummand, continuesNumber, not_isNameChar_equals]

theorem ne_of_isLetter {d : Char} (letter : isLetter c) (low : d.toNat < 0x41) : c ≠ d := by
  rintro rfl
  simp [not_isLetter_of_lt low] at letter

theorem not_continuesNumber_of_isLetter (letter : isLetter c) : continuesNumber c = false := by
  have point : c ≠ '.' := ne_of_isLetter letter (by decide)
  have bar : c ≠ '/' := ne_of_isLetter letter (by decide)
  simp [continuesNumber, not_isDigit_of_isLetter letter, point, bar]

end Classes

theorem Stops.mono {kind narrow : Char → Bool} {cs : List Char} (stops : Stops kind cs)
    (narrower : ∀ c, kind c = false → narrow c = false) : Stops narrow cs :=
  fun c first => narrower c (stops c first)

theorem Stops.ne_cons {kind : Char → Bool} {c : Char} {tail cs : List Char} (stops : Stops kind cs)
    (member : kind c = true) : cs ≠ c :: tail := by
  rintro rfl
  simp [stops c rfl] at member

namespace Grammar

variable {kind : Char → Bool} {more : List (List Char)}

theorem Avoids.mono {narrow : Char → Bool} (avoids : Avoids kind more)
    (narrower : ∀ c, kind c = false → narrow c = false) : Avoids narrow more := by
  intro token first
  obtain ⟨solid, stops⟩ := avoids token first
  exact ⟨solid, stops.mono narrower⟩

theorem avoids_nil : Avoids kind [] := by simp [Avoids]

theorem avoids_cons {c : Char} {tail : List Char} (solid : isBlank c = false)
    (outside : kind c = false) : Avoids kind ((c :: tail) :: more) := by
  simp [Avoids, Solid, Stops, solid, outside]

theorem Natural.exists_cons (n : Natural) : ∃ c tail, n.digits = c :: tail ∧ c.isDigit := by
  obtain ⟨c, tail, equal⟩ := List.exists_cons_of_ne_nil n.nonempty
  exact ⟨c, tail, equal, n.isDigit c (by simp [equal])⟩

theorem Natural.solid_append (n : Natural) (others : List Char) : Solid (n.digits ++ others) := by
  obtain ⟨c, tail, equal, digit⟩ := n.exists_cons
  simp [Solid, Stops, equal, not_isBlank_of_isDigit digit]

theorem Natural.solid (n : Natural) : Solid n.digits := by
  have solid := n.solid_append []
  rwa [List.append_nil] at solid

theorem Name.not_isBlank (n : Name) : isBlank n.first = false := by
  cases blank : isBlank n.first with
  | false => rfl
  | true =>
    have letter := n.letter
    rw [not_isLetter_of_isBlank blank] at letter
    contradiction

theorem Name.solid (n : Name) : Solid n.token := by
  simp [Solid, Stops, Name.token, n.not_isBlank]

theorem Number.avoids (v : Number) (outside : ∀ c, c.isDigit → kind c = false) :
    Avoids kind (v.tokens ++ more) := by
  have natural (n : Natural) (others : List Char) (more : List (List Char)) :
      Avoids kind ((n.digits ++ others) :: more) := by
    obtain ⟨c, tail, equal, digit⟩ := n.exists_cons
    rw [equal]
    exact avoids_cons (not_isBlank_of_isDigit digit) (outside c digit)
  cases v with
  | natural n => simpa [Number.tokens] using natural n [] more
  | decimal whole places => exact natural whole _ more
  | fraction num den nonzero =>
    simpa [Number.tokens] using natural num [] (['/'] :: den.digits :: more)

theorem Summand.avoids (summand : Summand)
    (outside : ∀ c, isLetter c ∨ c.isDigit → kind c = false) :
    Avoids kind (summand.tokens ++ more) := by
  have digit : ∀ c, c.isDigit → kind c = false := fun c isDigit => outside c (.inr isDigit)
  cases summand with
  | name n => exact avoids_cons n.not_isBlank (outside _ (.inl n.letter))
  | number v => exact v.avoids digit
  | multiple v star n =>
    rw [Summand.tokens, List.append_assoc]
    exact v.avoids digit

end Grammar

section Completeness

variable {α β : Type} {cs rest : List Char} {more : List (List Char)} {ns : List Natural}

/-- What reading a part of a tree comes to: its result, if all digits in it can be counted. -/
def counted (ns : List Natural) (result : α) : Except Stop α :=
  if Countable ns then .ok result else .error (.fault .tooManyDigits)

theorem counted_of_countable (all : Countable ns) (result : α) : counted ns result = .ok result :=
  if_pos all

theorem counted_of_not_countable (some : ¬ Countable ns) (result : α) :
    counted ns result = .error (.fault .tooManyDigits) :=
  if_neg some

theorem counted_nil (result : α) : counted [] result = .ok result :=
  counted_of_countable (List.forall_mem_nil _) result

theorem counted_bind_ok {result : α} {next : α → Except Stop β} {final : β}
    (goes : next result = .ok final) : (counted ns result >>= next) = counted ns final := by
  by_cases all : Countable ns
  · simp only [counted, if_pos all]
    exact goes
  · simp only [counted, if_neg all]
    rfl

/-- One part behind another. -/
theorem counted_bind {later : List Natural} {result : α} {next : α → Except Stop β} {final : β}
    (goes : next result = counted later final) :
    (counted ns result >>= next) = counted (ns ++ later) final := by
  by_cases all : Countable ns
  · simp only [counted, countable_append, all, true_and, if_true] at goes ⊢
    exact goes
  · simp only [counted, countable_append, all, false_and, if_false]
    rfl

theorem natural_complete (n : Natural) (stops : Stops Char.isDigit rest) :
    Reader.natural (n.digits ++ rest) = counted [n] (n.digits, rest) := by
  have taken := takeWhile_append_of_stops n.isDigit stops
  have left := dropWhile_append_of_stops n.isDigit stops
  simp only [Reader.natural, taken, left, if_neg n.nonempty, counted, Countable,
    List.forall_mem_singleton, ← not_le, ite_not]

theorem number_append (n : Natural) (stops : Stops Char.isDigit rest) :
    Reader.number (n.digits ++ rest) =
      counted [n] (n.digits, rest) >>= fun result => Reader.numberTail result.1 result.2 := by
  rw [Reader.number, natural_complete n stops]

theorem numberTail_whole (whole : List Char) (noPoint : Stops (· == '.') cs)
    (noBar : Stops (· == '/') (skipBlanks cs)) :
    Reader.numberTail whole cs = .ok ((Integer.ofDigits whole : Rat), skipBlanks cs) := by
  unfold Reader.numberTail
  split
  · exact absurd rfl (noPoint.ne_cons (c := '.') rfl)
  · split
    · rename_i bar
      exact absurd bar (noBar.ne_cons (c := '/') rfl)
    · rfl

/-- Behind a number that is not continued, neither a point nor, after blanks, a bar comes. -/
theorem numberTail_complete (whole : Natural) (laid : Layout more rest)
    (avoids : Avoids continuesNumber more) :
    Reader.numberTail whole.digits rest = .ok ((whole.value : Rat), skipBlanks rest) := by
  have noPoint := avoids.stops laid fun c blank =>
    not_continuesNumber (not_continuesSummand_of_isBlank blank)
  have noBar := avoids.stops_skipBlanks laid
  rw [← whole.ofDigits_eq_value]
  apply numberTail_whole
  · exact noPoint.mono fun c outside => by simp_all [continuesNumber]
  · exact noBar.mono fun c outside => by simp_all [continuesNumber]

theorem decimalPlaces_complete (whole places : Natural) (stops : Stops Char.isDigit rest) :
    Reader.numberTail whole.digits ('.' :: (places.digits ++ rest)) =
      counted [places] ((Number.decimal whole places).value, rest) := by
  simp only [Reader.numberTail, Reader.decimalPlaces, natural_complete places stops]
  exact counted_bind_ok (by rw [decimalValue_eq]; rfl)

theorem denominator_complete (num den : Natural) (nonzero : den.value ≠ 0)
    (stops : Stops Char.isDigit rest) :
    Reader.denominator num.digits (den.digits ++ rest) =
      counted [den] ((Number.fraction num den nonzero).value, rest) := by
  rw [Reader.denominator, natural_complete den stops]
  apply counted_bind_ok
  simp [Natural.ofDigits_eq_value, nonzero, Number.value, Rat.mkRat_eq_div, pure, Except.pure]

theorem numberTail_bar (num : Natural) {behind : List Char}
    (bar : skipBlanks rest = ['/'] ++ behind) :
    Reader.numberTail num.digits rest = Reader.denominator num.digits (skipBlanks behind) := by
  unfold Reader.numberTail
  split
  · simp [skipBlanks, isBlank] at bar
  · simp only [bar, List.singleton_append]

theorem number_complete (v : Number) (laid : Layout (v.tokens ++ more) cs)
    (avoids : Avoids continuesNumber more) :
    ∃ rest, Reader.number (skipBlanks cs) = counted v.naturals (v.value, rest) ∧
      Layout more rest := by
  have ends {rest : List Char} (later : Layout more rest) : Stops Char.isDigit rest :=
    (avoids.mono fun _ => not_isDigit).stops later fun _ => not_isDigit_of_isBlank
  cases v with
  | natural n =>
    obtain ⟨rest, front, later⟩ := (layout_cons_iff n.solid).mp laid
    refine ⟨skipBlanks rest, ?_, avoids.layout_skipBlanks later⟩
    rw [front, number_append n (ends later)]
    exact counted_bind_ok (numberTail_complete n later avoids)
  | decimal whole places =>
    obtain ⟨rest, front, later⟩ := (layout_cons_iff (whole.solid_append _)).mp laid
    refine ⟨rest, ?_, later⟩
    rw [front, List.append_assoc, number_append whole (by simp [Stops])]
    exact counted_bind (decimalPlaces_complete whole places (ends later))
  | fraction num den nonzero =>
    have barAvoids : Avoids Char.isDigit (['/'] :: den.digits :: more) := avoids_cons rfl rfl
    obtain ⟨behindNum, front, laidBar⟩ := (layout_cons_iff num.solid).mp laid
    obtain ⟨behindBar, bar, laidDen⟩ := (layout_cons_iff (barAvoids _ rfl).1).mp laidBar
    obtain ⟨rest, last, later⟩ := (layout_cons_iff den.solid).mp laidDen
    have numEnds := barAvoids.stops laidBar fun _ => not_isDigit_of_isBlank
    have readDen := denominator_complete num den nonzero (ends later)
    refine ⟨rest, ?_, later⟩
    rw [front, number_append num numEnds]
    exact counted_bind ((numberTail_bar num bar).trans (last ▸ readDen))

theorem name_complete (n : Name) (stops : Stops Reader.isNameChar rest) :
    Reader.name (n.token ++ rest) = .ok (n.text, rest) := by
  have inside : ∀ c ∈ n.token, Reader.isNameChar c := by
    intro c member
    rcases List.mem_cons.mp member with rfl | other
    · simp [Reader.isNameChar, n.letter]
    · simpa [Reader.isNameChar, or_assoc] using n.nameChar c other
  have starts : Reader.startsName (n.token ++ rest) := n.letter
  have taken := takeWhile_append_of_stops inside stops
  have left := dropWhile_append_of_stops inside stops
  rw [Reader.name, if_pos starts, taken, left, Name.text]

theorem multiple_complete (r : Rat) (n : Name) (laid : Layout (n.token :: more) cs)
    (avoids : Avoids continuesSummand more) :
    ∃ rest, Reader.multiple r (skipBlanks cs) = .ok (.multiple r n.text, rest) ∧
      Layout more rest := by
  obtain ⟨rest, front, later⟩ := (layout_cons_iff n.solid).mp laid
  have stops := avoids.stops later fun _ => not_continuesSummand_of_isBlank
  refine ⟨rest, ?_, later⟩
  simp [front, Reader.multiple, name_complete n (stops.mono fun _ => not_isNameChar), bind,
    Except.bind, pure, Except.pure]

theorem startsName_of_stops (stops : Stops isLetter cs) : Reader.startsName cs = false := by
  cases cs with
  | nil => rfl
  | cons c tail => exact stops c rfl

theorem termTail_constant (r : Rat) (noStar : Stops (· == '*') cs) (noName : Stops isLetter cs) :
    Reader.termTail r cs = .ok (.constant r, cs) := by
  unfold Reader.termTail
  split
  · exact absurd rfl (noStar.ne_cons (c := '*') rfl)
  · simp [startsName_of_stops noName]

/-- Behind a number that is all of a summand, neither a star nor a name comes. -/
theorem termTail_complete (r : Rat) (laid : Layout more rest)
    (avoids : Avoids continuesSummand more) :
    Reader.termTail r (skipBlanks rest) = .ok (.constant r, skipBlanks rest) := by
  have stops := avoids.stops_skipBlanks laid
  apply termTail_constant
  · exact stops.mono fun c outside => by simp_all [continuesSummand]
  · exact stops.mono fun _ => not_isLetter

theorem termTail_of_startsName (r : Rat) (starts : Reader.startsName cs) :
    Reader.termTail r cs = Reader.multiple r cs := by
  unfold Reader.termTail
  split
  · exact absurd starts (by simp [Reader.startsName, not_isLetter_of_lt])
  · rw [if_pos starts]

theorem term_number (sign : Sign) (v : Number) (laid : Layout (v.tokens ++ more) cs)
    (avoids : Avoids continuesNumber more) :
    ∃ rest, (∀ result, Reader.termTail (sign.apply v.value) (skipBlanks rest) = .ok result →
      Reader.term sign.negative (skipBlanks cs) = counted v.naturals result) ∧
      Layout more rest := by
  have noLetter : Avoids isLetter (v.tokens ++ more) := v.avoids fun _ => not_isLetter_of_isDigit
  have noName := startsName_of_stops (noLetter.stops_skipBlanks laid)
  obtain ⟨rest, read, later⟩ := number_complete v laid avoids
  refine ⟨rest, fun result tail => ?_, later⟩
  rw [Reader.term, noName, if_neg Bool.false_ne_true, read]
  apply counted_bind_ok
  simpa only [Sign.signed_negative] using tail

theorem term_complete (sign : Sign) (summand : Summand)
    (laid : Layout (summand.tokens ++ more) cs) (avoids : Avoids continuesSummand more) :
    ∃ rest, Reader.term sign.negative (skipBlanks cs) =
        counted summand.naturals (summand.term sign, rest) ∧ Layout more rest := by
  cases summand with
  | name n =>
    obtain ⟨behind, front, -⟩ := (layout_cons_iff n.solid).mp laid
    have starts : Reader.startsName (skipBlanks cs) := front ▸ n.letter
    obtain ⟨rest, named, later⟩ := multiple_complete (sign.apply 1) n laid avoids
    refine ⟨rest, ?_, later⟩
    rw [Reader.term, if_pos starts, Sign.signed_negative, named]
    exact (counted_nil _).symm
  | number v =>
    obtain ⟨rest, read, later⟩ := term_number sign v laid (avoids.mono fun _ => not_continuesNumber)
    exact ⟨skipBlanks rest, read _ (termTail_complete _ later avoids),
      avoids.layout_skipBlanks later⟩
  | multiple v star n =>
    rw [Summand.tokens, List.append_assoc, List.append_assoc] at laid
    cases star with
    | true =>
      have starAvoids : Avoids continuesNumber (['*'] :: n.token :: more) := avoids_cons rfl rfl
      obtain ⟨behind, read, laidStar⟩ := term_number sign v laid starAvoids
      obtain ⟨behindStar, star, laidName⟩ := (layout_cons_iff (starAvoids _ rfl).1).mp laidStar
      obtain ⟨rest, named, later⟩ := multiple_complete (sign.apply v.value) n laidName avoids
      exact ⟨rest, read _ (by rw [star]; exact named), later⟩
    | false =>
      have nameAvoids : Avoids continuesNumber (n.token :: more) :=
        avoids_cons n.not_isBlank (not_continuesNumber_of_isLetter n.letter)
      obtain ⟨behind, read, laidName⟩ := term_number sign v laid nameAvoids
      obtain ⟨rest, front, -⟩ := (layout_cons_iff n.solid).mp laidName
      have starts : Reader.startsName (skipBlanks behind) := front ▸ n.letter
      obtain ⟨rest, named, later⟩ := multiple_complete (sign.apply v.value) n laidName avoids
      exact ⟨rest, read _ ((termTail_of_startsName _ starts).trans named), later⟩

/-- One round of the loop, in terms of the summand that it reads. -/
theorem terms_round {negative : Bool} {done : List Term} {t : Term} {behind : List Char}
    (read : Reader.term negative (skipBlanks cs) = .ok (t, behind)) :
    Reader.terms negative done cs =
      match skipBlanks behind with
      | '+' :: ahead => Reader.terms false (t :: done) ahead
      | '-' :: ahead => Reader.terms true (t :: done) ahead
      | ahead => .ok ((t :: done).reverse, ahead) := by
  rw [Reader.terms]
  split
  · rename_i stop failed
    rw [read] at failed
    contradiction
  · rename_i other rest again
    obtain ⟨rfl, rfl⟩ := Prod.mk.inj (Except.ok.inj (again.symm.trans read))
    split
    · rename_i plus
      simp only [plus]
    · rename_i minus
      simp only [minus]
    · rename_i noPlus noMinus
      split
      · rename_i plus
        exact (noPlus _ plus).elim
      · rename_i minus
        exact (noMinus _ minus).elim
      · rfl

/-- What follows a term: a sign and more terms, or the end of the sum. -/
def termsTail (done : List Term) (t : Term) (cs : List Char) :
    Except Stop (List Term × List Char) :=
  match skipBlanks cs with
  | '+' :: ahead => Reader.terms false (t :: done) ahead
  | '-' :: ahead => Reader.terms true (t :: done) ahead
  | ahead => .ok ((t :: done).reverse, ahead)

theorem terms_eq (negative : Bool) (done : List Term) :
    Reader.terms negative done = fun cs =>
      Reader.term negative (skipBlanks cs) >>= fun result => termsTail done result.1 result.2 := by
  funext cs
  cases read : Reader.term negative (skipBlanks cs) with
  | ok result => exact terms_round read
  | error stop =>
    rw [Reader.terms]
    split
    · rename_i failed
      exact congrArg _ (Except.error.inj (failed.symm.trans read))
    · rename_i failed
      rw [read] at failed
      contradiction

theorem termsTail_signed {done : List Term} {t : Term} (sign : Sign)
    (signed : skipBlanks cs = sign.token ++ rest) :
    termsTail done t cs = Reader.terms sign.negative (t :: done) rest := by
  rw [termsTail, signed]
  cases sign <;> rfl

theorem termsTail_unsigned {done : List Term} {t : Term}
    (noPlus : Stops (· == '+') (skipBlanks cs)) (noMinus : Stops (· == '-') (skipBlanks cs)) :
    termsTail done t cs = .ok ((t :: done).reverse, skipBlanks cs) := by
  unfold termsTail
  split
  · rename_i plus
    exact absurd plus (noPlus.ne_cons (c := '+') rfl)
  · rename_i minus
    exact absurd minus (noMinus.ne_cons (c := '-') rfl)
  · rfl

theorem Grammar.Sign.avoids (sign : Sign) : Avoids continuesSummand (sign.token :: more) := by
  cases sign <;> exact avoids_cons rfl rfl

/-- The loop reads all summands of a side, one in each round. -/
theorem terms_complete (sign : Sign) (first : Summand) (others : List (Sign × Summand))
    (done : List Term)
    (laid : Layout (first.tokens ++ (Side.otherTokens others ++ more)) cs)
    (avoids : Avoids continuesSide more) :
    ∃ rest, Reader.terms sign.negative done cs =
        counted (first.naturals ++ Side.otherNaturals others)
          (done.reverse ++ Side.signedTerms ((sign, first) :: others), rest) ∧
      skipBlanks rest = rest ∧ Layout more rest := by
  induction others generalizing sign first done cs with
  | nil =>
    obtain ⟨behind, read, later⟩ :=
      term_complete sign first laid (avoids.mono fun _ => not_continuesSummand)
    have stops := avoids.stops_skipBlanks later
    refine ⟨skipBlanks behind, ?_, skipBlanks_skipBlanks _, avoids.layout_skipBlanks later⟩
    simp only [terms_eq, read]
    apply counted_bind
    rw [termsTail_unsigned (stops.mono fun c outside => by simp_all [continuesSide])
      (stops.mono fun c outside => by simp_all [continuesSide])]
    simp [Side.signedTerms, Side.otherNaturals, counted_nil]
  | cons other others ih =>
    obtain ⟨next, second⟩ := other
    have signAvoids : Avoids continuesSummand
        (next.token :: (second.tokens ++ (Side.otherTokens others ++ more))) := next.avoids
    have shape : Side.otherTokens ((next, second) :: others) ++ more =
        next.token :: (second.tokens ++ (Side.otherTokens others ++ more)) := by
      simp [Side.otherTokens]
    rw [shape] at laid
    obtain ⟨behind, read, laidSign⟩ := term_complete sign first laid signAvoids
    obtain ⟨ahead, signed, laidSecond⟩ := (layout_cons_iff (signAvoids _ rfl).1).mp laidSign
    obtain ⟨rest, readOthers, skipped, later⟩ := ih next second (first.term sign :: done) laidSecond
    refine ⟨rest, ?_, skipped, later⟩
    simp only [terms_eq, read]
    apply counted_bind
    rw [termsTail_signed next signed, readOthers]
    simp [Side.signedTerms, Side.otherNaturals]

theorem sum_signed {behind : List Char} (sign : Sign)
    (signed : skipBlanks cs = sign.token ++ behind) :
    Reader.sum cs = Reader.terms sign.negative [] behind := by
  rw [Reader.sum, signed]
  cases sign <;> rfl

theorem sum_unsigned (stops : Stops (fun c => c == '+' || c == '-') (skipBlanks cs)) :
    Reader.sum cs = Reader.terms Sign.plus.negative [] (skipBlanks cs) := by
  unfold Reader.sum
  split
  · rename_i plus
    exact absurd plus (stops.ne_cons (c := '+') (by decide))
  · rename_i minus
    exact absurd minus (stops.ne_cons (c := '-') (by decide))
  · rfl

theorem not_sign {c : Char} (begins : isLetter c ∨ c.isDigit) : (c == '+' || c == '-') = false := by
  have differs {d : Char} (low : d.toNat < 0x41) (digit : d.isDigit = false) : c ≠ d := by
    rintro rfl
    simp [not_isLetter_of_lt low, digit] at begins
  have plus : c ≠ '+' := differs (by decide) rfl
  have minus : c ≠ '-' := differs (by decide) rfl
  simp [plus, minus]

theorem sum_complete (side : Side) (laid : Layout (side.tokens ++ more) cs)
    (avoids : Avoids continuesSide more) :
    ∃ rest, Reader.sum cs = counted side.naturals (side.terms, rest) ∧ skipBlanks rest = rest ∧
      Layout more rest := by
  obtain ⟨sign, first, others⟩ := side
  rw [Side.tokens, List.append_assoc, List.append_assoc] at laid
  cases sign with
  | none =>
    have firstAvoids : Avoids (fun c => c == '+' || c == '-')
        (first.tokens ++ (Side.otherTokens others ++ more)) := first.avoids fun _ => not_sign
    rw [sum_unsigned (firstAvoids.stops_skipBlanks laid)]
    exact terms_complete .plus first others [] (firstAvoids.layout_skipBlanks laid) avoids
  | some sign =>
    have signAvoids : Avoids continuesSummand
        (sign.token :: (first.tokens ++ (Side.otherTokens others ++ more))) := sign.avoids
    obtain ⟨behind, signed, laidFirst⟩ := (layout_cons_iff (signAvoids _ rfl).1).mp laid
    rw [sum_signed sign signed]
    exact terms_complete sign first others [] laidFirst avoids

/-- The whole text: behind the left side comes the equals sign, behind the right side nothing. -/
theorem sides_complete (tree : Statement) (laid : Layout tree.tokens cs) :
    Reader.sides cs = counted tree.naturals (tree.lhs.terms, tree.rhs.terms) := by
  have equalsAvoids : Avoids continuesSide (['='] :: tree.rhs.tokens) :=
    avoids_cons rfl not_continuesSide_equals
  obtain ⟨behind, readLeft, skipped, laidEquals⟩ := sum_complete tree.lhs laid equalsAvoids
  obtain ⟨ahead, equals, laidRight⟩ := (layout_cons_iff (equalsAvoids _ rfl).1).mp laidEquals
  rw [← List.append_nil tree.rhs.tokens] at laidRight
  obtain ⟨last, readRight, skippedLast, laidLast⟩ := sum_complete tree.rhs laidRight avoids_nil
  have empty : last = [] := skippedLast ▸ layout_nil_iff.mp laidLast
  have shape : behind = '=' :: ahead := skipped.symm.trans equals
  rw [Reader.sides, readLeft]
  apply counted_bind
  simp only [shape, readRight]
  apply counted_bind_ok
  simp only [empty, if_true, pure, Except.pure]

end Completeness

end ExactLinear
