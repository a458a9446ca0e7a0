import ExactLinear.Equation.Parser
import ExactLinear.Proofs.Grammar
import Mathlib.Data.List.TakeWhile

/-! Texts and the tokens laid out in them. Character classes that decide what comes next have no
character in common, so a reader that looks at one character sees where a token ends. -/
namespace ExactLinear

open Text (isBlank isLetter skipBlanks)

section Classes

variable {c : Char}

/-- All signs, the point and the digits come before the first letter. -/
theorem not_isLetter_of_lt (low : c.toNat < 0x41) : isLetter c = false := by
  have outside : ∀ n < 0x41, Text.inRanges n Text.letterRanges = false := by decide +kernel
  exact outside c.toNat low

theorem toNat_of_isDigit (digit : c.isDigit) : 0x30 ≤ c.toNat ∧ c.toNat ≤ 0x39 := by
  simp only [Char.isDigit, Bool.and_eq_true, decide_eq_true_eq, ge_iff_le,
    UInt32.le_iff_toNat_le] at digit
  exact digit

theorem not_isLetter_of_isDigit (digit : c.isDigit) : isLetter c = false := by
  apply not_isLetter_of_lt
  have := toNat_of_isDigit digit
  omega

theorem not_isDigit_of_isLetter (letter : isLetter c) : c.isDigit = false := by
  cases digit : c.isDigit with
  | false => rfl
  | true => simp [not_isLetter_of_isDigit digit] at letter

theorem not_isBlank_of_isDigit (digit : c.isDigit) : isBlank c = false := by
  have := toNat_of_isDigit digit
  simp only [isBlank]
  grind

theorem not_isDigit_of_isBlank (blank : isBlank c) : c.isDigit = false := by
  cases digit : c.isDigit with
  | false => rfl
  | true => simp [not_isBlank_of_isDigit digit] at blank

/-- No blank is a letter: a look at each blank in the table. -/
theorem not_isLetter_of_isBlank (blank : isBlank c) : isLetter c = false := by
  have outside : ∀ n ∈ [0x09, 0x0A, 0x0B, 0x0C, 0x0D, 0x20, 0x85, 0xA0, 0x1680, 0x2000, 0x2001,
      0x2002, 0x2003, 0x2004, 0x2005, 0x2006, 0x2007, 0x2008, 0x2009, 0x200A, 0x2028, 0x2029,
      0x202F, 0x205F, 0x3000], Text.inRanges n Text.letterRanges = false := by
    decide +kernel
  apply outside
  simp only [isBlank] at blank
  simp only [List.mem_cons, List.not_mem_nil, or_false]
  grind

end Classes

def Stops (kind : Char → Bool) (cs : List Char) : Prop := ∀ c ∈ cs.head?, kind c = false

section Spans

variable {kind : Char → Bool} {body rest : List Char}

theorem takeWhile_append_of_stops (inside : ∀ c ∈ body, kind c) (stops : Stops kind rest) :
    (body ++ rest).takeWhile kind = body := by
  rw [List.takeWhile_append_of_pos inside]
  cases rest with
  | nil => simp
  | cons c tail => simp [stops c rfl]

theorem dropWhile_append_of_stops (inside : ∀ c ∈ body, kind c) (stops : Stops kind rest) :
    (body ++ rest).dropWhile kind = rest := by
  rw [List.dropWhile_append_of_pos inside]
  cases rest with
  | nil => rfl
  | cons c tail => simp [stops c rfl]

theorem stops_dropWhile (kind : Char → Bool) (cs : List Char) :
    Stops kind (cs.dropWhile kind) := by
  intro c first
  have outside := List.head?_dropWhile_not kind cs
  rw [Option.mem_def.mp first] at outside
  simpa using outside

end Spans

theorem skipBlanks_eq_of_stops {cs : List Char} (stops : Stops isBlank cs) :
    skipBlanks cs = cs :=
  dropWhile_append_of_stops (List.forall_mem_nil _) stops

@[simp] theorem skipBlanks_skipBlanks (cs : List Char) :
    skipBlanks (skipBlanks cs) = skipBlanks cs :=
  skipBlanks_eq_of_stops (stops_dropWhile isBlank cs)

namespace Grammar

variable {token text : List Char} {tokens : List (List Char)} {kind : Char → Bool}

def Solid (token : List Char) : Prop := token ≠ [] ∧ Stops isBlank token

theorem Solid.stops_append {kind : Char → Bool} (solid : Solid token) (stops : Stops kind token)
    (rest : List Char) : Stops kind (token ++ rest) := by
  cases token with
  | nil => exact absurd rfl solid.1
  | cons c tail => exact stops

/-- A text put together from tokens, each with blanks in front of it. -/
theorem layout_flatMap (spaced : List (List Char × List Char))
    (blank : ∀ pair ∈ spaced, ∀ c ∈ pair.1, isBlank c) :
    Layout (spaced.map (·.2)) (spaced.flatMap fun (gap, token) => gap ++ token) := by
  induction spaced with
  | nil => exact .last (List.forall_mem_nil _)
  | cons pair spaced ih =>
    obtain ⟨first, others⟩ := List.forall_mem_cons.mp blank
    rw [List.map_cons, List.flatMap_cons, List.append_assoc]
    exact .next first (ih others)

theorem layout_nil_iff : Layout [] text ↔ skipBlanks text = [] := by
  constructor
  · rintro ⟨blank⟩
    exact List.dropWhile_eq_nil_iff.mpr blank
  · intro empty
    exact .last (List.dropWhile_eq_nil_iff.mp empty)

/-- Skipping blanks brings the first token to the front. -/
theorem layout_cons_iff (solid : Solid token) :
    Layout (token :: tokens) text ↔
      ∃ rest, skipBlanks text = token ++ rest ∧ Layout tokens rest := by
  constructor
  · intro laid
    cases laid with
    | next blank later =>
      exact ⟨_, dropWhile_append_of_stops blank (solid.stops_append solid.2 _), later⟩
  · rintro ⟨rest, equal, later⟩
    rw [← List.takeWhile_append_dropWhile (p := isBlank) (l := text), ← skipBlanks, equal]
    exact .next (fun c member => List.mem_takeWhile_imp member) later

theorem Layout.blanks_append {gap : List Char} (blank : ∀ c ∈ gap, isBlank c)
    (laid : Layout tokens text) : Layout tokens (gap ++ text) := by
  cases laid with
  | last more => exact .last (List.forall_mem_append.mpr ⟨blank, more⟩)
  | next more later =>
    rw [← List.append_assoc]
    exact .next (List.forall_mem_append.mpr ⟨blank, more⟩) later

theorem Layout.of_skipBlanks (laid : Layout tokens (skipBlanks text)) : Layout tokens text := by
  rw [← List.takeWhile_append_dropWhile (p := isBlank) (l := text), ← skipBlanks]
  exact laid.blanks_append fun c => List.mem_takeWhile_imp

/-- No token follows, or one that does not begin with a character of the kind. -/
def Avoids (kind : Char → Bool) (tokens : List (List Char)) : Prop :=
  ∀ token ∈ tokens.head?, Solid token ∧ Stops kind token

namespace Avoids

theorem stops_skipBlanks (avoids : Avoids kind tokens) (laid : Layout tokens text) :
    Stops kind (skipBlanks text) := by
  cases tokens with
  | nil => simp [layout_nil_iff.mp laid, Stops]
  | cons token tokens =>
    obtain ⟨solid, stops⟩ := avoids token rfl
    obtain ⟨rest, equal, -⟩ := (layout_cons_iff solid).mp laid
    rw [equal]
    exact solid.stops_append stops rest

theorem layout_skipBlanks (avoids : Avoids kind tokens) (laid : Layout tokens text) :
    Layout tokens (skipBlanks text) := by
  cases tokens with
  | nil => rw [layout_nil_iff, skipBlanks_skipBlanks, layout_nil_iff.mp laid]
  | cons token tokens =>
    have solid := (avoids token rfl).1
    rw [layout_cons_iff solid, skipBlanks_skipBlanks, ← layout_cons_iff solid]
    exact laid

theorem stops (avoids : Avoids kind tokens) (laid : Layout tokens text)
    (blank : ∀ c, isBlank c → kind c = false) : Stops kind text := by
  intro c first
  cases text with
  | nil => simp at first
  | cons d tail =>
    obtain rfl : d = c := by simpa using first
    cases skipped : isBlank d with
    | true => exact blank d skipped
    | false =>
      have ahead := avoids.stops_skipBlanks laid
      rw [skipBlanks_eq_of_stops (by simpa [Stops] using skipped)] at ahead
      exact ahead d rfl

end Avoids

end Grammar

end ExactLinear
