import ExactLinear.Proofs.LineReading

/-! Blanks behind an equation make no difference to it. No token has a blank in it, so one at the end
of a text belongs to the gap behind the last token, and the text is derived without it too. -/
namespace ExactLinear

open Text (isBlank isLetter skipBlanks)

namespace Grammar

/-- A token as the grammar has them: not empty and without blanks. -/
def Firm (token : List Char) : Prop := token ≠ [] ∧ ∀ c ∈ token, isBlank c = false

theorem Firm.of_singleton {c : Char} (solid : isBlank c = false) : Firm [c] :=
  ⟨List.cons_ne_nil c [], List.forall_mem_singleton.mpr solid⟩

theorem Natural.firm (n : Natural) : Firm n.digits :=
  ⟨n.nonempty, fun c member => not_isBlank_of_isDigit (n.isDigit c member)⟩

theorem Name.firm (n : Name) : Firm n.token := by
  refine ⟨List.cons_ne_nil _ _, List.forall_mem_cons.mpr ⟨n.not_isBlank, fun c member => ?_⟩⟩
  rcases n.nameChar c member with letter | digit | rfl
  · cases blank : isBlank c with
    | false => rfl
    | true => simp [not_isLetter_of_isBlank blank] at letter
  · exact not_isBlank_of_isDigit digit
  · rfl

theorem Number.firm (v : Number) : ∀ token ∈ v.tokens, Firm token := by
  cases v with
  | natural n => exact List.forall_mem_singleton.mpr n.firm
  | decimal whole places =>
    refine List.forall_mem_singleton.mpr ⟨by simp, ?_⟩
    exact List.forall_mem_append.mpr
      ⟨whole.firm.2, List.forall_mem_cons.mpr ⟨rfl, places.firm.2⟩⟩
  | fraction num den nonzero =>
    simpa [Number.tokens] using ⟨num.firm, Firm.of_singleton rfl, den.firm⟩

theorem Summand.firm (summand : Summand) : ∀ token ∈ summand.tokens, Firm token := by
  cases summand with
  | name n => exact List.forall_mem_singleton.mpr n.firm
  | number v => exact v.firm
  | multiple v star n =>
    have starred : ∀ token ∈ (if star then [['*']] else []), Firm token := by
      cases star with
      | true => exact List.forall_mem_singleton.mpr (.of_singleton rfl)
      | false => exact List.forall_mem_nil _
    simp only [Summand.tokens, List.forall_mem_append]
    exact ⟨v.firm, starred, List.forall_mem_singleton.mpr n.firm⟩

theorem Sign.firm (sign : Sign) : Firm sign.token := by
  cases sign <;> exact .of_singleton rfl

theorem Side.firm (side : Side) : ∀ token ∈ side.tokens, Firm token := by
  have leading : ∀ token ∈ (side.sign.map Sign.token).toList, Firm token := by
    cases side.sign with
    | none => exact List.forall_mem_nil _
    | some sign => exact List.forall_mem_singleton.mpr sign.firm
  have others : ∀ token ∈ Side.otherTokens side.others, Firm token := by
    intro token member
    obtain ⟨⟨sign, summand⟩, -, inside⟩ := List.mem_flatMap.mp member
    exact List.forall_mem_cons.mpr ⟨sign.firm, summand.firm⟩ token inside
  simp only [Side.tokens, List.forall_mem_append]
  exact ⟨leading, side.first.firm, others⟩

theorem Statement.firm (tree : Statement) : ∀ token ∈ tree.tokens, Firm token := by
  simp only [Statement.tokens, List.forall_mem_append, List.forall_mem_cons]
  exact ⟨tree.lhs.firm, .of_singleton rfl, tree.rhs.firm⟩

theorem Layout.append_blank {tokens : List (List Char)} {text : List Char} {b : Char}
    (laid : Layout tokens text) (blank : isBlank b) : Layout tokens (text ++ [b]) := by
  induction laid with
  | last gap => exact .last (List.forall_mem_append.mpr ⟨gap, List.forall_mem_singleton.mpr blank⟩)
  | next gap later ih =>
    rw [List.append_assoc, List.append_assoc]
    exact .next gap ih

/-- The induction follows the tokens; behind each but the last something is left that ends in the
blank, and no token can end in it. -/
theorem Layout.of_append_blank {tokens : List (List Char)} {text : List Char} {b : Char}
    (firm : ∀ token ∈ tokens, Firm token) (blank : isBlank b)
    (laid : Layout tokens (text ++ [b])) : Layout tokens text := by
  generalize shape : text ++ [b] = whole at laid
  induction laid generalizing text with
  | last gap =>
    rw [← shape] at gap
    exact .last (List.forall_mem_append.mp gap).1
  | @next gap token rest tokens blanks later ih =>
    obtain ⟨first, others⟩ := List.forall_mem_cons.mp firm
    rcases List.eq_nil_or_concat rest with rfl | ⟨front, last, rfl⟩
    · obtain ⟨body, last, rfl⟩ := (List.eq_nil_or_concat token).resolve_left first.1
      rw [List.append_nil, List.concat_eq_append, ← List.append_assoc] at shape
      obtain ⟨-, same⟩ := List.append_inj' shape rfl
      have solid := first.2 last (by simp)
      simp_all
    · rw [List.concat_eq_append, ← List.append_assoc token, ← List.append_assoc gap] at shape
      obtain ⟨rfl, same⟩ := List.append_inj' shape rfl
      exact .next blanks (ih others (by simp_all))

end Grammar

open Grammar

/-- A blank at the end of a text is not seen by the reader. -/
theorem parse_append_blank (cs : List Char) {b : Char} (blank : isBlank b) (e : Equation) :
    Equation.parse (String.ofList (cs ++ [b])) = .ok e ↔
      Equation.parse (String.ofList cs) = .ok e := by
  have derives (tree : Statement) :
      tree.Derives (String.ofList (cs ++ [b])) ↔ tree.Derives (String.ofList cs) := by
    simp only [Statement.Derives, String.toList_ofList]
    exact ⟨.of_append_blank tree.firm blank, fun laid => laid.append_blank blank⟩
  constructor
  · intro parsed
    obtain ⟨tree, derived, all, rfl⟩ := exists_derives parsed
    exact parse_of_countable tree ((derives tree).mp derived) all
  · intro parsed
    obtain ⟨tree, derived, all, rfl⟩ := exists_derives parsed
    exact parse_of_countable tree ((derives tree).mpr derived) all

theorem isSkipped_append_blank (cs : List Char) {b : Char} (blank : isBlank b) :
    LinearSystem.isSkipped (String.ofList (cs ++ [b])) =
      LinearSystem.isSkipped (String.ofList cs) := by
  cases ahead : skipBlanks cs with
  | nil =>
    have nothing : skipBlanks (cs ++ [b]) = [] := by
      refine List.dropWhile_eq_nil_iff.mpr (List.forall_mem_append.mpr ⟨?_, ?_⟩)
      · exact List.dropWhile_eq_nil_iff.mp ahead
      · exact List.forall_mem_singleton.mpr blank
    simp only [LinearSystem.isSkipped, String.toList_ofList, ahead, nothing]
  | cons c rest =>
    have same : skipBlanks (cs ++ [b]) = c :: (rest ++ [b]) := by
      have solid : cs.dropWhile isBlank = c :: rest := ahead
      rw [skipBlanks, List.dropWhile_append, solid]
      rfl
    simp only [LinearSystem.isSkipped, String.toList_ofList, ahead, same]

end ExactLinear
