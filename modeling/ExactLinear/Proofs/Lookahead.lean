import ExactLinear.Proofs.Recognition

/-! What a reader does is decided by the characters it takes and one more. So a failure comes as
early as it can: texts that agree with the failing one up to the character where it stopped fail
alike, while a character of the class that was expected there lets the reader come to its end. -/
namespace ExactLinear

open Grammar
open Text (isBlank isLetter skipBlanks)

/-- The characters of the class. The end of the text is not a character. -/
def ParseError.Expected.admits : ParseError.Expected → Char → Bool
  | .digit, c => c.isDigit
  | .letter, c => isLetter c
  | .equalsSign, c => c == '='
  | .endOfInput, _ => false

theorem ParseError.Expected.not_isBlank (expected : ParseError.Expected) {c : Char}
    (admitted : expected.admits c) : isBlank c = false := by
  cases blank : isBlank c with
  | false => rfl
  | true =>
    cases expected with
    | digit => simp [admits, not_isDigit_of_isBlank blank] at admitted
    | letter => simp [admits, not_isLetter_of_isBlank blank] at admitted
    | equalsSign =>
      obtain rfl : c = '=' := by simpa [admits] using admitted
      contradiction
    | endOfInput => contradiction

/-- A side of an equation is over: the equals sign follows, or nothing. -/
def Ends (cs : List Char) : Prop := ∀ c ∈ cs.head?, c = '='

/-- To a reader that has come to `rest`, the other text is as good. -/
def Alike (rest other : List Char) : Prop := other.head? = rest.head? ∨ Ends other

section Heads

variable {kind : Char → Bool} {front rest other : List Char}

theorem head?_append_congr (same : other.head? = rest.head?) :
    (front ++ other).head? = (front ++ rest).head? := by
  rw [List.head?_append, List.head?_append, same]

theorem Stops.congr (stops : Stops kind rest) (same : other.head? = rest.head?) :
    Stops kind other := by
  unfold Stops
  rwa [same]

theorem Ends.stops (ends : Ends rest) (outside : kind '=' = false) : Stops kind rest := by
  intro c first
  rw [ends c first]
  exact outside

theorem Stops.alike (stops : Stops kind rest) (alike : Alike rest other)
    (outside : kind '=' = false) : Stops kind other := by
  rcases alike with same | ends
  · exact stops.congr same
  · exact ends.stops outside

theorem Alike.refl (rest : List Char) : Alike rest rest := .inl rfl

theorem Alike.append (alike : Alike rest other) (front : List Char) :
    Alike (front ++ rest) (front ++ other) := by
  cases front with
  | nil => exact alike
  | cons c front => exact .inl rfl

theorem startsName_congr (same : other.head? = rest.head?) :
    Reader.startsName other = Reader.startsName rest := by
  cases other <;> cases rest <;> simp_all [Reader.startsName]

theorem takeWhile_append_skipBlanks (cs : List Char) :
    cs.takeWhile isBlank ++ skipBlanks cs = cs :=
  List.takeWhile_append_dropWhile

/-- The same blanks in front of another text. -/
theorem skipBlanks_takeWhile_append (cs : List Char) (stops : Stops isBlank rest) :
    skipBlanks (cs.takeWhile isBlank ++ rest) = rest :=
  dropWhile_append_of_stops (fun _ => List.mem_takeWhile_imp) stops

end Heads

/-- Behind a bar and blanks comes a run of digits that are all zero. -/
structure OverZero (front ahead : List Char) : Prop where
  bar : ∃ before gap, front = before ++ '/' :: gap ∧ ∀ c ∈ gap, isBlank c
  nonempty : ahead.takeWhile Char.isDigit ≠ []
  zeros : ∀ c ∈ ahead.takeWhile Char.isDigit, c = '0'

theorem OverZero.append {front ahead : List Char} (zero : OverZero front ahead)
    (lead : List Char) : OverZero (lead ++ front) ahead := by
  obtain ⟨before, gap, rfl, blank⟩ := zero.bar
  exact ⟨⟨lead ++ before, gap, by simp, blank⟩, zero.nonempty, zero.zeros⟩

variable {α β : Type}

/-- With one character of the class behind it, `front` is read in front of any end. -/
def Mends (read : List Char → Except Stop (α × List Char)) (front : List Char)
    (expected : ParseError.Expected) : Prop :=
  ∃ c, expected.admits c ∧
    ∀ other, Ends other → ∃ value, read (front ++ c :: other) = .ok (value, other)

/-- What becomes of a text that the reader takes up to `ahead`, and of those that agree with it that
far. -/
inductive Verdict (read : List Char → Except Stop (α × List Char)) (front ahead : List Char) :
    Prop where
  | taken (value : α)
      (takes : ∀ other, Alike ahead other → read (front ++ other) = .ok (value, other))
  | lacking (context : ParseError.Context) (expected : ParseError.Expected)
      (fails : ∀ other, other.head? = ahead.head? →
        read (front ++ other) = .error (.unexpected other context expected))
      (mends : Mends read front expected)
  | overZero (fails : read (front ++ ahead) = .error (.zeroDenominator ahead))
      (zero : OverZero front ahead) (mends : Mends read front .digit)
  | overlong (fails : read (front ++ ahead) = .error (.fault .tooManyDigits))
      (long : LongRun (front ++ ahead))

def Decided (read : List Char → Except Stop (α × List Char)) (cs : List Char) : Prop :=
  ∃ front ahead, front ++ ahead = cs ∧ Verdict read front ahead

/-- A reader for what may stand behind something else fails only after its first character. -/
def Follows (next : List Char → Except Stop (α × List Char)) (cs : List Char) : Prop :=
  ∃ front ahead, front ++ ahead = cs ∧
    (front ≠ [] ∧ Verdict next front ahead ∨
      ∃ value, ∀ other, Alike ahead other → next (front ++ other) = .ok (value, other))

/-- The texts a verdict tells of begin behind `front` as the given one does, or they are read. -/
def Tried (read : List Char → Except Stop (α × List Char)) (front ahead other : List Char) : Prop :=
  other.head? = ahead.head? ∨ Stops isBlank other ∧ ∃ result, read (front ++ other) = .ok result

section Composition

variable {read whole : List Char → Except Stop (α × List Char)} {front ahead cs : List Char}

theorem Mends.transfer {expected : ParseError.Expected} (mends : Mends read front expected)
    (lead : List Char)
    (agree : ∀ other, Tried read front ahead other →
      whole (lead ++ (front ++ other)) = read (front ++ other)) :
    Mends whole (lead ++ front) expected := by
  obtain ⟨c, admitted, reads⟩ := mends
  refine ⟨c, admitted, fun other ends => ?_⟩
  obtain ⟨value, result⟩ := reads other ends
  have solid : Stops isBlank (c :: other) := by
    simpa [Stops] using expected.not_isBlank admitted
  rw [List.append_assoc, agree _ (.inr ⟨solid, _, result⟩)]
  exact ⟨value, result⟩

/-- Another reader that goes on behind `lead` in the same way comes to the same verdict. -/
theorem Verdict.transfer (verdict : Verdict read front ahead) (lead : List Char)
    (agree : ∀ other, Tried read front ahead other →
      whole (lead ++ (front ++ other)) = read (front ++ other)) :
    Verdict whole (lead ++ front) ahead := by
  cases verdict with
  | taken value takes =>
    refine .taken value fun other alike => ?_
    have result := takes other alike
    rw [List.append_assoc, agree, result]
    rcases alike with same | ends
    · exact .inl same
    · exact .inr ⟨ends.stops rfl, _, result⟩
  | lacking context expected fails mends =>
    refine .lacking context expected (fun other same => ?_) (mends.transfer lead agree)
    rw [List.append_assoc, agree other (.inl same), fails other same]
  | overZero fails zero mends =>
    refine .overZero ?_ (zero.append lead) (mends.transfer lead agree)
    rw [List.append_assoc, agree ahead (.inl rfl), fails]
  | overlong fails long =>
    rw [← List.append_nil (front ++ ahead)] at long
    refine .overlong ?_ ?_
    · rw [List.append_assoc, agree ahead (.inl rfl), fails]
    · exact long.mono ⟨lead, [], by simp⟩

/-- Blanks in front of what a reader takes. -/
theorem Decided.skipBlanks (decided : Decided read (skipBlanks cs)) :
    Decided (fun text => read (Text.skipBlanks text)) cs := by
  obtain ⟨front, ahead, shape, verdict⟩ := decided
  have stops : Stops isBlank (front ++ ahead) := shape ▸ stops_dropWhile isBlank cs
  refine ⟨cs.takeWhile isBlank ++ front, ahead, ?_, verdict.transfer _ fun other tried => ?_⟩
  · rw [List.append_assoc, shape, takeWhile_append_skipBlanks]
  · have solid : Stops isBlank (front ++ other) := by
      rcases tried with same | ⟨solid, -⟩
      · exact stops.congr (head?_append_congr same)
      · cases front with
        | nil => exact solid
        | cons c front => exact stops.congr rfl
    rw [skipBlanks_takeWhile_append cs solid]

theorem Mends.bind {expected : ParseError.Expected} (mends : Mends read front expected)
    {next : α → List Char → Except Stop (β × List Char)}
    (ends : ∀ value other, Ends other → ∃ result, next value other = .ok (result, other)) :
    Mends (fun text => read text >>= fun result => next result.1 result.2) front expected := by
  obtain ⟨c, admitted, reads⟩ := mends
  refine ⟨c, admitted, fun other ended => ?_⟩
  obtain ⟨value, taken⟩ := reads other ended
  obtain ⟨result, rests⟩ := ends value other ended
  exact ⟨result, bind_eq_ok_iff.mpr ⟨_, taken, rests⟩⟩

/-- One reader behind another. The second is content with an end, so that what mends the first mends
both. -/
theorem Decided.bind (first : Decided read cs)
    (next : α → List Char → Except Stop (β × List Char))
    (ends : ∀ value other, Ends other → ∃ result, next value other = .ok (result, other))
    (second : ∀ value rest, read cs = .ok (value, rest) → Follows (next value) rest) :
    Decided (fun text => read text >>= fun result => next result.1 result.2) cs := by
  obtain ⟨front, ahead, rfl, verdict⟩ := first
  cases verdict with
  | taken value takes =>
    have step (other : List Char) (alike : Alike ahead other) :
        (read (front ++ other) >>= fun result => next result.1 result.2) = next value other := by
      rw [takes other alike]
      rfl
    obtain ⟨lead, last, rfl, started | ⟨result, rests⟩⟩ :=
      second value ahead (takes ahead (.refl ahead))
    · -- a character taken by the second reader is the one the first looks ahead to
      obtain ⟨nonempty, verdict⟩ := started
      refine ⟨front ++ lead, last, List.append_assoc .., verdict.transfer front fun other _ => ?_⟩
      obtain ⟨c, lead, rfl⟩ := List.exists_cons_of_ne_nil nonempty
      exact step _ (.inl rfl)
    · refine ⟨front ++ lead, last, List.append_assoc .., .taken result fun other alike => ?_⟩
      rw [List.append_assoc, step _ (alike.append lead), rests other alike]
  | lacking context expected fails mends =>
    refine ⟨front, ahead, rfl, .lacking context expected (fun other same => ?_) (mends.bind ends)⟩
    rw [fails other same]
    rfl
  | overZero fails zero mends =>
    refine ⟨front, ahead, rfl, .overZero ?_ zero (mends.bind ends)⟩
    rw [fails]
    rfl
  | overlong fails long =>
    refine ⟨front, ahead, rfl, .overlong ?_ long⟩
    rw [fails]
    rfl

theorem Decided.taken (decided : Decided read cs) {value : α} {rest : List Char}
    (result : read cs = .ok (value, rest)) :
    ∃ front, front ++ rest = cs ∧
      ∀ other, Alike rest other → read (front ++ other) = .ok (value, other) := by
  obtain ⟨front, ahead, rfl, verdict⟩ := decided
  cases verdict with
  | taken other takes =>
    obtain ⟨rfl, rfl⟩ := Prod.mk.inj (Except.ok.inj (result.symm.trans (takes ahead (.refl ahead))))
    exact ⟨front, rfl, takes⟩
  | lacking context expected fails mends =>
    rw [fails ahead rfl] at result
    contradiction
  | overZero fails zero mends =>
    rw [fails] at result
    contradiction
  | overlong fails long =>
    rw [fails] at result
    contradiction

theorem Follows.decided (follows : Follows read cs) : Decided read cs := by
  obtain ⟨front, ahead, shape, ⟨-, verdict⟩ | ⟨value, takes⟩⟩ := follows
  · exact ⟨front, ahead, shape, verdict⟩
  · exact ⟨front, ahead, shape, .taken value takes⟩

/-- Behind blanks comes a mark, and the reader goes on as another does behind the mark. -/
theorem Follows.of_mark {mark : Char} {behind : List Char} (decided : Decided read behind)
    (marked : Text.skipBlanks cs = mark :: behind)
    (agree : ∀ text rest, Text.skipBlanks text = mark :: rest → whole text = read rest) :
    Follows whole cs := by
  obtain ⟨front, ahead, rfl, verdict⟩ := decided
  have solid : isBlank mark = false := by
    have stops := stops_dropWhile isBlank cs
    rw [← Text.skipBlanks, marked] at stops
    exact stops mark rfl
  have step (text : List Char) : whole (cs.takeWhile isBlank ++ [mark] ++ text) = read text := by
    apply agree
    rw [List.append_assoc]
    exact skipBlanks_takeWhile_append cs (by simpa [Stops] using solid)
  refine ⟨cs.takeWhile isBlank ++ [mark] ++ front, ahead, ?_, .inl ⟨by simp, ?_⟩⟩
  · rw [List.append_assoc, List.append_assoc, List.singleton_append, ← marked,
      takeWhile_append_skipBlanks]
  · exact verdict.transfer _ fun other _ => step _

/-- Behind blanks comes nothing that the reader takes. -/
theorem Follows.of_rest {value : α}
    (rests : ∀ text, Alike cs text → Alike (Text.skipBlanks cs) (Text.skipBlanks text) →
      whole text = .ok (value, Text.skipBlanks text)) : Follows whole cs := by
  refine ⟨_, _, takeWhile_append_skipBlanks cs, .inr ⟨value, fun other alike => ?_⟩⟩
  have skipped : Text.skipBlanks (cs.takeWhile isBlank ++ other) = other :=
    skipBlanks_takeWhile_append cs ((stops_dropWhile isBlank cs).alike alike rfl)
  have far := alike.append (cs.takeWhile isBlank)
  rw [takeWhile_append_skipBlanks] at far
  rw [rests _ far (skipped.symm ▸ alike), skipped]

end Composition

section Readers

variable {cs rest : List Char}

theorem stops_or_cons (c : Char) (cs : List Char) : Stops (· == c) cs ∨ ∃ tail, cs = c :: tail := by
  cases cs with
  | nil => exact .inl (by simp [Stops])
  | cons d tail =>
    by_cases same : d = c
    · exact .inr ⟨tail, by rw [same]⟩
    · exact .inl (by simpa [Stops] using same)

theorem stops_or_digits (cs : List Char) :
    Stops Char.isDigit cs ∨
      ∃ (n : Natural) (rest : List Char), cs = n.digits ++ rest ∧ Stops Char.isDigit rest := by
  cases cs with
  | nil => exact .inl (by simp [Stops])
  | cons c tail =>
    cases digit : c.isDigit with
    | false => exact .inl (by simpa [Stops] using digit)
    | true =>
      have nonempty : (c :: tail).takeWhile Char.isDigit ≠ [] := by simp [digit]
      exact .inr ⟨⟨_, nonempty, fun d => List.mem_takeWhile_imp⟩, _,
        List.takeWhile_append_dropWhile.symm, stops_dropWhile Char.isDigit _⟩

def Grammar.Natural.one : Natural := ⟨['1'], by simp, by simp⟩

theorem countable_one : Countable [Natural.one] := by decide

theorem natural_of_stops (stops : Stops Char.isDigit cs) :
    Reader.natural cs = .error (.unexpected cs .natural .digit) := by
  have empty : cs.takeWhile Char.isDigit = [] :=
    takeWhile_append_of_stops (List.forall_mem_nil _) stops
  simp [Reader.natural, empty]

theorem Grammar.Natural.longRun_append (n : Natural) (long : ¬ Countable [n]) (rest : List Char) :
    LongRun (n.digits ++ rest) :=
  (n.longRun_iff.mpr long).mono ⟨[], rest, rfl⟩

theorem natural_decided (cs : List Char) : Decided Reader.natural cs := by
  rcases stops_or_digits cs with stops | ⟨n, rest, rfl, stops⟩
  · refine ⟨[], cs, rfl, .lacking .natural .digit (fun other same => ?_) ⟨'1', rfl, ?_⟩⟩
    · exact natural_of_stops (stops.congr same)
    · exact fun other ends => ⟨_, (natural_complete .one (ends.stops rfl)).trans
        (counted_of_countable countable_one _)⟩
  · by_cases all : Countable [n]
    · refine ⟨n.digits, rest, rfl, .taken n.digits fun other alike => ?_⟩
      exact (natural_complete n (stops.alike alike rfl)).trans (counted_of_countable all _)
    · refine ⟨n.digits, rest, rfl, .overlong ?_ (n.longRun_append all rest)⟩
      exact (natural_complete n stops).trans (counted_of_not_countable all _)

theorem name_decided (cs : List Char) : Decided Reader.name cs := by
  cases starts : Reader.startsName cs with
  | false =>
    refine ⟨[], cs, rfl, .lacking .name .letter (fun other same => ?_) ?_⟩
    · simp [Reader.name, startsName_congr same, starts]
    · let x : Name := ⟨'x', [], by decide, List.forall_mem_nil _⟩
      exact ⟨'x', x.letter, fun other ends =>
        ⟨_, name_complete x (ends.stops not_isNameChar_equals)⟩⟩
  | true =>
    have read : Reader.name cs = _ := if_pos starts
    obtain ⟨n, -, shape⟩ := name_sound read
    refine ⟨n.token, _, shape.symm, .taken n.text fun other alike => ?_⟩
    have stops := (stops_dropWhile Reader.isNameChar cs).alike alike not_isNameChar_equals
    exact name_complete n stops

/-- A reader that only says otherwise what another has read. -/
theorem Decided.map {read : List Char → Except Stop (α × List Char)} (decided : Decided read cs)
    (value : α → β) :
    Decided (fun text => read text >>= fun result => .ok (value result.1, result.2)) cs := by
  refine decided.bind (fun taken rest => .ok (value taken, rest)) ?_ ?_
  · exact fun taken other _ => ⟨_, rfl⟩
  · exact fun taken rest _ => ⟨[], rest, rfl, .inr ⟨_, fun other _ => rfl⟩⟩

theorem decimalPlaces_decided (whole cs : List Char) :
    Decided (Reader.decimalPlaces whole) cs :=
  (natural_decided cs).map (Reader.decimalValue whole)

theorem multiple_decided (coefficient : Rat) (cs : List Char) :
    Decided (Reader.multiple coefficient) cs :=
  (name_decided cs).map (Term.multiple coefficient)

theorem Grammar.Natural.eq_zero_of_value (n : Natural) (zero : n.value = 0) :
    ∀ c ∈ n.digits, c = '0' := by
  intro c member
  have low : c.toNat - '0'.toNat = 0 :=
    Nat.digits_zero_of_eq_zero (by decide) zero _ (by simpa using ⟨c, member, rfl⟩)
  have := toNat_of_isDigit (n.isDigit c member)
  apply Char.toNat_inj.mp
  simp only [Char.reduceToNat] at *
  omega

theorem denominator_one (num : Natural) (ends : Ends rest) :
    ∃ value, Reader.denominator num.digits ('1' :: rest) = .ok (value, rest) :=
  ⟨_, (denominator_complete num .one (by decide) (ends.stops rfl)).trans
    (counted_of_countable countable_one _)⟩

/-- A denominator is read like any natural number, unless it is zero. -/
theorem denominator_decided (num : Natural) (cs : List Char) :
    Decided (Reader.denominator num.digits) cs ∨
      Reader.denominator num.digits cs = .error (.zeroDenominator cs) ∧
        cs.takeWhile Char.isDigit ≠ [] ∧ ∀ c ∈ cs.takeWhile Char.isDigit, c = '0' := by
  rcases stops_or_digits cs with stops | ⟨den, rest, rfl, stops⟩
  · refine .inl ⟨[], cs, rfl, .lacking .natural .digit (fun other same => ?_) ⟨'1', rfl, ?_⟩⟩
    · simp [Reader.denominator, natural_of_stops (stops.congr same), bind, Except.bind]
    · exact fun other => denominator_one num
  · by_cases all : Countable [den]
    · have read := (natural_complete den stops).trans (counted_of_countable all _)
      by_cases zero : den.value = 0
      · rw [takeWhile_append_of_stops den.isDigit stops]
        refine .inr ⟨?_, den.nonempty, den.eq_zero_of_value zero⟩
        simp [Reader.denominator, read, den.ofDigits_eq_value, zero, bind, Except.bind]
      · refine .inl ⟨den.digits, rest, rfl, .taken (Number.fraction num den zero).value ?_⟩
        intro other alike
        exact (denominator_complete num den zero (stops.alike alike rfl)).trans
          (counted_of_countable all _)
    · refine .inl ⟨den.digits, rest, rfl, .overlong ?_ (den.longRun_append all rest)⟩
      rw [Reader.denominator, natural_complete den stops, counted_of_not_countable all]
      rfl

theorem numberTail_ends (whole : List Char) (ends : Ends rest) :
    ∃ value, Reader.numberTail whole rest = .ok (value, rest) := by
  have skipped : skipBlanks rest = rest := skipBlanks_eq_of_stops (ends.stops rfl)
  have read := numberTail_whole whole (ends.stops rfl) (skipped.symm ▸ ends.stops rfl)
  rw [skipped] at read
  exact ⟨_, read⟩

/-- The zero stands behind the bar, which the tail has taken; another denominator would do. -/
theorem numberTail_overZero (num : Natural) {behind : List Char}
    (bar : skipBlanks cs = '/' :: behind)
    (fails : Reader.denominator num.digits (skipBlanks behind) =
      .error (.zeroDenominator (skipBlanks behind)))
    (nonempty : (skipBlanks behind).takeWhile Char.isDigit ≠ [])
    (zeros : ∀ c ∈ (skipBlanks behind).takeWhile Char.isDigit, c = '0') :
    Follows (Reader.numberTail num.digits) cs := by
  have shape : cs.takeWhile isBlank ++ '/' :: behind.takeWhile isBlank ++ skipBlanks behind =
      cs := by
    rw [List.append_assoc, List.cons_append, takeWhile_append_skipBlanks, ← bar,
      takeWhile_append_skipBlanks]
  refine ⟨_, _, shape, .inl ⟨by simp, .overZero ?_ ⟨⟨_, _, rfl, ?_⟩, nonempty, zeros⟩ ?_⟩⟩
  · rw [shape, numberTail_bar num bar, fails]
  · exact fun c => List.mem_takeWhile_imp
  · refine ⟨'1', rfl, fun other ends => ?_⟩
    have toBar : skipBlanks (cs.takeWhile isBlank ++ '/' :: (behind.takeWhile isBlank ++
        '1' :: other)) = ['/'] ++ (behind.takeWhile isBlank ++ '1' :: other) :=
      skipBlanks_takeWhile_append cs (by simp [Stops, isBlank])
    have toDigit : skipBlanks (behind.takeWhile isBlank ++ '1' :: other) = '1' :: other :=
      skipBlanks_takeWhile_append behind (by simp [Stops, isBlank])
    rw [List.append_assoc, List.cons_append, numberTail_bar num toBar, toDigit]
    exact denominator_one num ends

theorem numberTail_follows (num : Natural) (cs : List Char) :
    Follows (Reader.numberTail num.digits) cs := by
  rcases stops_or_cons '.' cs with noPoint | ⟨behind, rfl⟩
  · rcases stops_or_cons '/' (skipBlanks cs) with noBar | ⟨behind, bar⟩
    · exact .of_rest fun text alike skipped =>
        numberTail_whole _ (noPoint.alike alike rfl) (noBar.alike skipped rfl)
    · rcases denominator_decided num (skipBlanks behind) with decided | ⟨fails, nonempty, zeros⟩
      · exact .of_mark decided.skipBlanks bar fun text rest marked => numberTail_bar num marked
      · exact numberTail_overZero num bar fails nonempty zeros
  · obtain ⟨front, ahead, rfl, verdict⟩ := decimalPlaces_decided num.digits behind
    exact ⟨'.' :: front, ahead, rfl, .inl ⟨by simp, verdict.transfer ['.'] fun other _ => rfl⟩⟩

theorem number_decided (cs : List Char) : Decided Reader.number cs := by
  refine (natural_decided cs).bind Reader.numberTail (fun whole _ => numberTail_ends whole) ?_
  intro digits rest read
  obtain ⟨num, rfl, -⟩ := natural_sound read
  exact numberTail_follows num rest

theorem exists_digit_of_number {value : Rat} (read : Reader.number cs = .ok (value, rest)) :
    ∃ c tail, cs = c :: tail ∧ c.isDigit := by
  obtain ⟨⟨digits, behind⟩, readWhole, -⟩ := bind_eq_ok_iff.mp read
  obtain ⟨n, -, rfl⟩ := natural_sound readWhole
  obtain ⟨c, tail, equal, digit⟩ := n.exists_cons
  exact ⟨c, tail ++ behind, by rw [equal, List.cons_append], digit⟩

theorem startsName_of_multiple {coefficient : Rat} {t : Term}
    (read : Reader.multiple coefficient cs = .ok (t, rest)) : Reader.startsName cs := by
  obtain ⟨⟨text, behind⟩, readName, -⟩ := bind_eq_ok_iff.mp read
  obtain ⟨n, -, rfl⟩ := name_sound readName
  exact n.letter

theorem multiple_of_startsName (coefficient : Rat) (starts : Reader.startsName cs) :
    ∃ t rest, Reader.multiple coefficient cs = .ok (t, rest) := by
  simp [Reader.multiple, Reader.name, starts, bind, Except.bind, pure, Except.pure]

theorem stops_of_startsName (starts : Reader.startsName cs) : Stops isBlank cs := by
  cases cs with
  | nil => contradiction
  | cons c tail =>
    have solid : isBlank c = false := ParseError.Expected.letter.not_isBlank starts
    simpa [Stops] using solid

theorem termTail_ends (value : Rat) (ends : Ends rest) :
    ∃ t, Reader.termTail value (skipBlanks rest) = .ok (t, rest) := by
  rw [skipBlanks_eq_of_stops (ends.stops rfl)]
  exact ⟨_, termTail_constant value (ends.stops rfl) (ends.stops (not_isLetter_of_lt (by decide)))⟩

theorem termTail_follows (value : Rat) (cs : List Char) :
    Follows (fun text => Reader.termTail value (skipBlanks text)) cs := by
  rcases stops_or_cons '*' (skipBlanks cs) with noStar | ⟨behind, star⟩
  · cases starts : Reader.startsName (skipBlanks cs) with
    | false =>
      have noName : Stops isLetter (skipBlanks cs) := by
        cases shape : skipBlanks cs with
        | nil => simp [Stops]
        | cons c tail => simpa [shape, Stops, Reader.startsName] using starts
      exact .of_rest fun text _ alike => termTail_constant value (noStar.alike alike rfl)
        (noName.alike alike (not_isLetter_of_lt (by decide)))
    | true =>
      obtain ⟨t, rest, read⟩ := multiple_of_startsName value starts
      obtain ⟨front, shape, takes⟩ := (multiple_decided value _).taken read
      refine ⟨cs.takeWhile isBlank ++ front, rest, ?_, .inr ⟨t, fun other alike => ?_⟩⟩
      · rw [List.append_assoc, shape, takeWhile_append_skipBlanks]
      · have read := takes other alike
        have starts := startsName_of_multiple read
        have skipped : skipBlanks (cs.takeWhile isBlank ++ (front ++ other)) = front ++ other :=
          skipBlanks_takeWhile_append cs (stops_of_startsName starts)
        simp only [List.append_assoc, skipped, termTail_of_startsName value starts, read]
  · refine .of_mark (multiple_decided value _).skipBlanks star fun text rest marked => ?_
    simp only [marked, Reader.termTail]

theorem term_decided (negative : Bool) (cs : List Char) : Decided (Reader.term negative) cs := by
  cases starts : Reader.startsName cs with
  | true =>
    obtain ⟨front, ahead, rfl, verdict⟩ := multiple_decided (Reader.signed negative 1) cs
    refine ⟨front, ahead, rfl, verdict.transfer [] fun other tried => if_pos ?_⟩
    rcases tried with same | ⟨-, result, read⟩
    · exact (startsName_congr (head?_append_congr same)).trans starts
    · exact startsName_of_multiple read
  | false =>
    have decided := (number_decided cs).bind
      (fun value text => Reader.termTail (Reader.signed negative value) (skipBlanks text))
      (fun value _ => termTail_ends _) (fun value rest _ => termTail_follows _ rest)
    obtain ⟨front, ahead, rfl, verdict⟩ := decided
    refine ⟨front, ahead, rfl, verdict.transfer [] fun other tried => ?_⟩
    have noName : Reader.startsName (front ++ other) = false := by
      rcases tried with same | ⟨-, result, read⟩
      · exact (startsName_congr (head?_append_congr same)).trans starts
      · obtain ⟨value, readNumber, -⟩ := bind_eq_ok_iff.mp read
        obtain ⟨c, tail, shape, digit⟩ := exists_digit_of_number readNumber
        rw [shape]
        exact not_isLetter_of_isDigit digit
    simp only [List.nil_append, Reader.term, noName]
    rfl

theorem termsTail_ends (done : List Term) (t : Term) (ends : Ends rest) :
    ∃ ts, termsTail done t rest = .ok (ts, rest) := by
  have skipped : skipBlanks rest = rest := skipBlanks_eq_of_stops (ends.stops rfl)
  have read : termsTail done t rest = _ :=
    termsTail_unsigned (skipped.symm ▸ ends.stops rfl) (skipped.symm ▸ ends.stops rfl)
  rw [skipped] at read
  exact ⟨_, read⟩

/-- By induction on the length: the terms behind a sign are a shorter text. -/
theorem terms_decided (negative : Bool) (done : List Term) (cs : List Char) :
    Decided (Reader.terms negative done) cs := by
  induction size : cs.length using Nat.strong_induction_on generalizing negative done cs with
  | _ n ih =>
    subst size
    rw [terms_eq]
    refine (term_decided negative (skipBlanks cs)).skipBlanks.bind (termsTail done)
      (fun t _ => termsTail_ends done t) fun t rest read => ?_
    rcases stops_or_cons '+' (skipBlanks rest) with noPlus | ⟨ahead, plus⟩
    · rcases stops_or_cons '-' (skipBlanks rest) with noMinus | ⟨ahead, minus⟩
      · exact .of_rest fun text _ alike =>
          termsTail_unsigned (noPlus.alike alike rfl) (noMinus.alike alike rfl)
      · have decided := ih _ (Reader.length_lt_of_sign read minus) true (t :: done) ahead rfl
        exact .of_mark decided minus fun text rest signed => termsTail_signed .minus signed
    · have decided := ih _ (Reader.length_lt_of_sign read plus) false (t :: done) ahead rfl
      exact .of_mark decided plus fun text rest signed => termsTail_signed .plus signed

/-- A term begins with a letter or a digit. -/
theorem not_sign_of_term {negative : Bool} {t : Term}
    (read : Reader.term negative cs = .ok (t, rest)) :
    Stops (fun c => c == '+' || c == '-') cs := by
  unfold Reader.term at read
  split at read
  · rename_i starts
    cases cs with
    | nil => contradiction
    | cons c tail => simpa [Stops] using not_sign (.inl starts)
  · obtain ⟨⟨value, behind⟩, readNumber, -⟩ := bind_eq_ok_iff.mp read
    obtain ⟨c, tail, rfl, digit⟩ := exists_digit_of_number readNumber
    simpa [Stops] using not_sign (.inr digit)

theorem sum_skipBlanks : (fun text => Reader.sum (skipBlanks text)) = Reader.sum := by
  funext text
  simp only [Reader.sum, skipBlanks_skipBlanks]

theorem sum_unsigned_decided (noSign : Stops (fun c => c == '+' || c == '-') (skipBlanks cs)) :
    Decided Reader.sum cs := by
  rw [← sum_skipBlanks]
  apply Decided.skipBlanks
  obtain ⟨front, ahead, shape, verdict⟩ := terms_decided false [] (skipBlanks cs)
  refine ⟨front, ahead, shape, verdict.transfer [] fun other tried => ?_⟩
  have unsigned : Stops (fun c => c == '+' || c == '-') (skipBlanks (front ++ other)) := by
    rcases tried with same | ⟨-, result, read⟩
    · have alike := shape ▸ head?_append_congr same
      rw [skipBlanks_eq_of_stops ((stops_dropWhile isBlank cs).congr alike)]
      exact noSign.congr alike
    · rw [terms_eq] at read
      obtain ⟨term, readTerm, -⟩ := bind_eq_ok_iff.mp read
      exact not_sign_of_term readTerm
  rw [List.nil_append, sum_unsigned unsigned, terms_eq, terms_eq]
  simp only [skipBlanks_skipBlanks, Sign.negative]

theorem sum_decided (cs : List Char) : Decided Reader.sum cs := by
  rcases stops_or_cons '+' (skipBlanks cs) with noPlus | ⟨ahead, plus⟩
  · rcases stops_or_cons '-' (skipBlanks cs) with noMinus | ⟨ahead, minus⟩
    · apply sum_unsigned_decided
      intro c first
      simp [noPlus c first, noMinus c first]
    · exact (Follows.of_mark (terms_decided true [] ahead) minus fun text rest signed =>
        sum_signed .minus signed).decided
  · exact (Follows.of_mark (terms_decided false [] ahead) plus fun text rest signed =>
      sum_signed .plus signed).decided

end Readers

end ExactLinear
