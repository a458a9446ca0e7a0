import ExactLinear.Proofs.Lookahead

/-! Where an error points. The text in front of the position can still become an equation, together
with the character found there it cannot, and what was expected instead does go on. -/
namespace ExactLinear

open Grammar
open Text (isBlank)

/-- Something behind it makes the text an equation. -/
def Viable (front : String) : Prop :=
  ∃ (rest : String) (e : Equation), Equation.parse (front ++ rest) = .ok e

/-- What was expected does stand behind this text in some equation. -/
def ParseError.Expected.Continues (front : String) : ParseError.Expected → Prop
  | .endOfInput => ∃ e, Equation.parse front = .ok e
  | expected => ∃ c, expected.admits c ∧ Viable (front.push c)

/-- The error is at the first character with which the text cannot become an equation, or at the
first digit of a denominator that is zero. Only digits that cannot be counted are an error without
a place. -/
def ParseError.Points (text : String) : ParseError → Prop
  | .unexpected found position _ expected =>
    ∃ front ahead : String, text = front ++ ahead ∧ position = front.utf8ByteSize ∧
      found = ahead.toList.head? ∧ (found = none ↔ front = text) ∧ Viable front ∧
      (∀ c, found = some c → ¬ Viable (front.push c)) ∧ expected.Continues front
  | .zeroDenominator position =>
    ∃ front ahead : String, text = front ++ ahead ∧ position = front.utf8ByteSize ∧
      (∃ before gap : String, front = before ++ "/" ++ gap ∧ ∀ c ∈ gap.toList, isBlank c) ∧
      Viable front ∧ ahead.toList.takeWhile Char.isDigit ≠ [] ∧
      ∀ c ∈ ahead.toList.takeWhile Char.isDigit, c = '0'
  | .fault cause => cause = .tooManyDigits ∧ LongRun text.toList

theorem byteLength_append (cs others : List Char) :
    byteLength (cs ++ others) = byteLength cs + byteLength others := by
  induction cs with
  | nil => simp [byteLength]
  | cons c cs ih =>
    simp only [byteLength, List.cons_append, List.foldr_cons] at ih ⊢
    omega

theorem utf8ByteSize_ofList (cs : List Char) :
    (String.ofList cs).utf8ByteSize = byteLength cs := by
  induction cs with
  | nil => rfl
  | cons c cs ih =>
    rw [String.ofList_cons, String.utf8ByteSize_append, String.utf8ByteSize_singleton, ih]
    rfl

section Texts

variable {front ahead : List Char} {c : Char} {expected : ParseError.Expected}

theorem parse_ofList_iff (cs : List Char) :
    (∃ e, Equation.parse (String.ofList cs) = .ok e) ↔ ∃ result, Reader.sides cs = .ok result := by
  unfold Equation.parse
  rw [String.toList_ofList]
  cases Reader.sides cs <;> simp

theorem viable_ofList_iff :
    Viable (String.ofList front) ↔ ∃ rest result, Reader.sides (front ++ rest) = .ok result := by
  constructor
  · rintro ⟨rest, parsed⟩
    rw [← rest.ofList_toList, ← String.ofList_append] at parsed
    exact ⟨rest.toList, (parse_ofList_iff _).mp parsed⟩
  · rintro ⟨rest, read⟩
    obtain ⟨e, parsed⟩ := (parse_ofList_iff _).mpr read
    exact ⟨String.ofList rest, e, by rw [← String.ofList_append, parsed]⟩

theorem viable_push_iff :
    Viable ((String.ofList front).push c) ↔
      ∃ rest result, Reader.sides (front ++ c :: rest) = .ok result := by
  have pushed : (String.ofList front).push c = String.ofList (front ++ [c]) := by
    rw [← String.toList_inj]
    simp
  rw [pushed, viable_ofList_iff]
  simp only [List.append_assoc, List.singleton_append]

theorem ParseError.Expected.Continues.viable
    (continues : expected.Continues (String.ofList front)) : Viable (String.ofList front) := by
  cases expected with
  | endOfInput =>
    obtain ⟨e, parsed⟩ := continues
    exact ⟨"", e, by rwa [String.append_empty]⟩
  | digit | letter | equalsSign =>
    obtain ⟨c, -, viable⟩ := continues
    obtain ⟨rest, read⟩ := viable_push_iff.mp viable
    exact viable_ofList_iff.mpr ⟨c :: rest, read⟩

theorem continues_of_admits (admitted : expected.admits c) {rest : List Char}
    (read : ∃ result, Reader.sides (front ++ c :: rest) = .ok result) :
    expected.Continues (String.ofList front) := by
  have viable : Viable ((String.ofList front).push c) := viable_push_iff.mpr ⟨rest, read⟩
  cases expected with
  | endOfInput => contradiction
  | digit | letter | equalsSign => exact ⟨c, admitted, viable⟩

theorem position_eq (front ahead : List Char) :
    byteLength (front ++ ahead) - byteLength ahead = (String.ofList front).utf8ByteSize := by
  rw [byteLength_append, utf8ByteSize_ofList, Nat.add_sub_cancel]

/-- If what begins like the text fails like it, the character found cannot stand there. -/
theorem points_of_unexpected {context : ParseError.Context}
    (fails : ∀ other, other.head? = ahead.head? →
      ∃ stop, Reader.sides (front ++ other) = .error stop)
    (continues : expected.Continues (String.ofList front)) :
    ((Stop.unexpected ahead context expected).locate (front ++ ahead)).Points
      (String.ofList (front ++ ahead)) := by
  refine ⟨String.ofList front, String.ofList ahead, String.ofList_append,
    position_eq front ahead, by rw [String.toList_ofList], ?_, continues.viable, ?_, continues⟩
  · rw [← String.toList_inj]
    cases ahead <;> simp
  · intro c found viable
    obtain ⟨rest, result, read⟩ := viable_push_iff.mp viable
    obtain ⟨stop, failed⟩ := fails (c :: rest) found.symm
    rw [failed] at read
    contradiction

theorem points_of_overZero (zero : OverZero front ahead) (viable : Viable (String.ofList front)) :
    ((Stop.zeroDenominator ahead).locate (front ++ ahead)).Points
      (String.ofList (front ++ ahead)) := by
  refine ⟨String.ofList front, String.ofList ahead, String.ofList_append, position_eq front ahead,
    ?_, viable, ?_⟩
  · obtain ⟨before, gap, rfl, blank⟩ := zero.bar
    refine ⟨String.ofList before, String.ofList gap, ?_, by rwa [String.toList_ofList]⟩
    rw [← String.toList_inj]
    simp
  · rw [String.toList_ofList]
    exact ⟨zero.nonempty, zero.zeros⟩

theorem points_of_overlong {text : List Char} (long : LongRun text) :
    ((Stop.fault .tooManyDigits).locate text).Points (String.ofList text) :=
  ⟨rfl, by rwa [String.toList_ofList]⟩

end Texts

section Sides

variable {cs front ahead behind rest : List Char} {lhs rhs : List Term} {stop : Stop}

theorem sides_left_error (left : Reader.sum cs = .error stop) : Reader.sides cs = .error stop := by
  simp [Reader.sides, left, bind, Except.bind]

theorem sides_no_equals (left : Reader.sum cs = .ok (lhs, rest))
    (noEquals : Stops (· == '=') rest) :
    Reader.sides cs = .error (.unexpected rest .equation .equalsSign) := by
  simp only [Reader.sides, left, bind, Except.bind]
  split
  · exact absurd rfl (noEquals.ne_cons (c := '=') rfl)
  · rfl

theorem sides_right_error (left : Reader.sum cs = .ok (lhs, '=' :: behind))
    (right : Reader.sum behind = .error stop) : Reader.sides cs = .error stop := by
  simp [Reader.sides, left, right, bind, Except.bind]

theorem sides_right (left : Reader.sum cs = .ok (lhs, '=' :: behind))
    (right : Reader.sum behind = .ok (rhs, rest)) :
    Reader.sides cs =
      if rest = [] then .ok (lhs, rhs) else .error (.unexpected rest .equation .endOfInput) := by
  simp [Reader.sides, left, right, bind, Except.bind, pure, Except.pure]

/-- The sum `x`, for the right side of an equation of which only the left side is given. -/
theorem exists_sum_name : ∃ ts, Reader.sum ['x'] = .ok (ts, []) := by
  let side : Side := ⟨none, .name ⟨'x', [], by decide, List.forall_mem_nil _⟩, []⟩
  have laid : Layout (side.tokens ++ []) ['x'] := layout_flatMap [([], ['x'])] (by simp)
  obtain ⟨rest, read, skipped, last⟩ := sum_complete side laid avoids_nil
  rw [layout_nil_iff, skipped] at last
  subst last
  exact ⟨side.terms, read.trans (counted_nil _)⟩

/-- A sum fails on the left or, behind `lead`, on the right of the equals sign. -/
theorem points_of_sum (lead : List Char) (verdict : Verdict Reader.sum front ahead)
    (failed : Reader.sum (front ++ ahead) = .error stop)
    (fails : ∀ text stop, Reader.sum text = .error stop → Reader.sides (lead ++ text) = .error stop)
    (reads : ∀ text, (∀ other, Ends other → ∃ ts, Reader.sum (text ++ other) = .ok (ts, other)) →
      ∃ rest result, Reader.sides (lead ++ (text ++ rest)) = .ok result) :
    (stop.locate (lead ++ (front ++ ahead))).Points (String.ofList (lead ++ (front ++ ahead))) := by
  have continues {expected : ParseError.Expected} (mends : Mends Reader.sum front expected) :
      expected.Continues (String.ofList (lead ++ front)) := by
    obtain ⟨c, admitted, mended⟩ := mends
    obtain ⟨rest, read⟩ := reads (front ++ [c]) (by simpa using mended)
    exact continues_of_admits admitted (by simpa using read)
  rw [← List.append_assoc]
  cases verdict with
  | taken ts takes =>
    rw [takes ahead (.refl ahead)] at failed
    contradiction
  | lacking context expected stops mends =>
    obtain rfl := Except.error.inj (failed.symm.trans (stops ahead rfl))
    refine points_of_unexpected (fun other same => ?_) (continues mends)
    rw [List.append_assoc]
    exact ⟨_, fails _ _ (stops other same)⟩
  | overZero stops zero mends =>
    obtain rfl := Except.error.inj (failed.symm.trans stops)
    exact points_of_overZero (zero.append lead) (continues mends).viable
  | overlong stops long =>
    obtain rfl := Except.error.inj (failed.symm.trans stops)
    rw [List.append_assoc]
    exact points_of_overlong (long.mono ⟨lead, [], by simp⟩)

theorem points_no_equals
    (takes : ∀ other, Alike ahead other → Reader.sum (front ++ other) = .ok (lhs, other))
    (noEquals : Stops (· == '=') ahead) :
    ((Stop.unexpected ahead .equation .equalsSign).locate (front ++ ahead)).Points
      (String.ofList (front ++ ahead)) := by
  apply points_of_unexpected
  · intro other same
    exact ⟨_, sides_no_equals (takes other (.inl same)) (noEquals.congr same)⟩
  · obtain ⟨rhs, right⟩ := exists_sum_name
    have left := takes ['=', 'x'] (.inr (by simp [Ends]))
    exact continues_of_admits (c := '=') rfl ⟨_, sides_right left right⟩

theorem points_more {middle : List Char} (nonempty : ahead ≠ [])
    (left : ∀ text, Reader.sum (front ++ ['='] ++ text) = .ok (lhs, '=' :: text))
    (takes : ∀ other, Alike ahead other → Reader.sum (middle ++ other) = .ok (rhs, other)) :
    ((Stop.unexpected ahead .equation .endOfInput).locate
        (front ++ ['='] ++ (middle ++ ahead))).Points
      (String.ofList (front ++ ['='] ++ (middle ++ ahead))) := by
  have whole (other : List Char) (alike : Alike ahead other) :=
    sides_right (left _) (takes other alike)
  simp only [← List.append_assoc _ middle] at whole ⊢
  apply points_of_unexpected
  · intro other same
    have more : other ≠ [] := by
      rintro rfl
      exact nonempty (List.head?_eq_none_iff.mp same.symm)
    exact ⟨_, (whole other (.inl same)).trans (if_neg more)⟩
  · have read := whole [] (.inr (by simp [Ends]))
    rw [List.append_nil] at read
    exact (parse_ofList_iff _).mpr ⟨_, read⟩

theorem points_right
    (left : ∀ text, Reader.sum (front ++ ['='] ++ text) = .ok (lhs, '=' :: text))
    (failed : Reader.sides (front ++ ['='] ++ behind) = .error stop) :
    (stop.locate (front ++ ['='] ++ behind)).Points (String.ofList (front ++ ['='] ++ behind)) := by
  cases right : Reader.sum behind with
  | error first =>
    obtain rfl := Except.error.inj (failed.symm.trans (sides_right_error (left behind) right))
    obtain ⟨middle, ahead, rfl, verdict⟩ := sum_decided behind
    refine points_of_sum _ verdict right (fun text stop => sides_right_error (left text)) ?_
    intro text reads
    obtain ⟨rhs, read⟩ := reads [] (by simp [Ends])
    exact ⟨[], _, sides_right (left _) read⟩
  | ok result =>
    obtain ⟨rhs, ahead⟩ := result
    obtain ⟨middle, rfl, takes⟩ := (sum_decided behind).taken right
    rw [sides_right (left _) right] at failed
    split at failed
    · contradiction
    · rename_i nonempty
      obtain rfl := Except.error.inj failed
      exact points_more nonempty left takes

theorem sides_points (failed : Reader.sides cs = .error stop) :
    (stop.locate cs).Points (String.ofList cs) := by
  cases left : Reader.sum cs with
  | error first =>
    obtain rfl := Except.error.inj (failed.symm.trans (sides_left_error left))
    obtain ⟨front, ahead, rfl, verdict⟩ := sum_decided cs
    refine points_of_sum [] verdict left (fun text stop => sides_left_error) fun text reads => ?_
    obtain ⟨rhs, right⟩ := exists_sum_name
    obtain ⟨lhs, left⟩ := reads ['=', 'x'] (by simp [Ends])
    exact ⟨_, _, sides_right left right⟩
  | ok result =>
    obtain ⟨lhs, ahead⟩ := result
    obtain ⟨front, rfl, takes⟩ := (sum_decided cs).taken left
    rcases stops_or_cons '=' ahead with noEquals | ⟨behind, rfl⟩
    · obtain rfl := Except.error.inj (failed.symm.trans (sides_no_equals left noEquals))
      exact points_no_equals takes noEquals
    · have left (text : List Char) :
          Reader.sum (front ++ ['='] ++ text) = .ok (lhs, '=' :: text) := by
        rw [List.append_assoc]
        exact takes _ (.inl rfl)
      rw [← List.singleton_append, ← List.append_assoc] at failed ⊢
      exact points_right left failed

end Sides

/-- Every error points to the first character that does not fit, and tells what does. -/
theorem parse_error_points {text : String} {error : ParseError}
    (failed : Equation.parse text = .error error) : error.Points text := by
  unfold Equation.parse at failed
  split at failed
  · contradiction
  · rename_i stop read
    obtain rfl := Except.error.inj failed
    have points := sides_points read
    rwa [String.ofList_toList] at points

theorem parse_error_points_star :
    Equation.parse "é = 2*3" = .error (.unexpected (some '3') 7 .name .letter) ∧
      (ParseError.unexpected (some '3') 7 .name .letter).Points "é = 2*3" := by
  have failed : Equation.parse "é = 2*3" = .error (.unexpected (some '3') 7 .name .letter) := by
    have shown : ((Equation.parse "é = 2*3").map fun _ => ()) =
        .error (.unexpected (some '3') 7 .name .letter) := by decide +kernel
    cases parsed : Equation.parse "é = 2*3" with
    | ok e => simp [parsed, Except.map] at shown
    | error e => simpa [parsed, Except.map] using shown
  exact ⟨failed, parse_error_points failed⟩

end ExactLinear
