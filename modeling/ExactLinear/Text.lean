/-!
# Texts

Fields of given width, blanks, lines, and lists in the order of names.
-/

/-!
## Text in a field of given width

A text shorter than the field is filled up at one or both ends. A longer one is never cut. There
are no fields wider than `widestField`.
-/

namespace ExactLinear.Text

inductive Alignment where
  | left
  | right
  | centre
  deriving DecidableEq, Repr

def widestField : Nat := 65535

/-- How many fill characters stand in front when `room` of them are needed in all. Of an odd
number the larger half goes behind a centred text. -/
def Alignment.before (room : Nat) : Alignment → Nat
  | .left => 0
  | .right => room
  | .centre => room / 2

def pad (alignment : Alignment) (fill : Char) (width : Nat) (text : List Char) : List Char :=
  let room := width - text.length
  let before := alignment.before room
  List.replicate before fill ++ text ++ List.replicate (room - before) fill

theorem Alignment.before_le (room : Nat) (alignment : Alignment) :
    alignment.before room ≤ room := by
  cases alignment <;> simp [before]; omega

theorem length_pad (alignment : Alignment) (fill : Char) (width : Nat) (text : List Char) :
    (pad alignment fill width text).length = max width text.length := by
  have := alignment.before_le (width - text.length)
  simp [pad]
  omega

theorem pad_of_width_le {width : Nat} {text : List Char} (h : width ≤ text.length)
    (alignment : Alignment) (fill : Char) : pad alignment fill width text = text := by
  have room : width - text.length = 0 := by omega
  cases alignment <;> simp [pad, room, Alignment.before]

/-!
## Blanks

A blank is a character with the Unicode property White_Space.
-/

def isBlank (c : Char) : Bool :=
  let n := c.toNat
  0x09 ≤ n && n ≤ 0x0D || n == 0x20 || n == 0x85 || n == 0xA0 || n == 0x1680
    || 0x2000 ≤ n && n ≤ 0x200A || n == 0x2028 || n == 0x2029 || n == 0x202F || n == 0x205F
    || n == 0x3000

def skipBlanks (cs : List Char) : List Char := cs.dropWhile isBlank

def trimEnd (line : String) : String :=
  String.ofList (line.toList.reverse.dropWhile isBlank).reverse

/-!
## Lines

A line ends at a line feed; a carriage return directly in front of it belongs to the ending.
What follows the last line feed is a line too, unless it is empty, and keeps a carriage return
at its end.
-/

/-- Drops a carriage return from the end of a line given back to front. -/
def dropReturn : List Char → List Char
  | '\r' :: line => line
  | line => line

/-- The lines of the input, after the characters of `line`, back to front, of the first one. -/
def linesFrom (line : List Char) : List Char → List (List Char)
  | [] => if line.isEmpty then [] else [line.reverse]
  | c :: cs =>
    if c = '\n' then (dropReturn line).reverse :: linesFrom [] cs else linesFrom (c :: line) cs

def lines (text : String) : List String := (linesFrom [] text.toList).map String.ofList

/-!
## Lists in ascending order of names

Strings are compared by code points. A list in strictly ascending order of a key holds each
key once, so an item put into it replaces one of the same key.
-/

variable {α : Type} (key : α → String)

def Ascending (items : List α) : Prop := items.Pairwise (key · < key ·)

/-- Puts an item in its place, where it replaces one of the same key. -/
def insertAscending (item : α) : List α → List α
  | [] => [item]
  | first :: others =>
    if key item < key first then item :: first :: others
    else if key item = key first then item :: others
    else first :: insertAscending item others

/-- The items in ascending order; of several with one key the last counts. -/
def sortAscending (items : List α) : List α :=
  items.foldl (fun sorted item => insertAscending key item sorted) []

variable {key}

theorem mem_of_mem_insertAscending {item other : α} {items : List α}
    (h : other ∈ insertAscending key item items) : other = item ∨ other ∈ items := by
  induction items with
  | nil => simpa [insertAscending] using h
  | cons first others ih =>
    unfold insertAscending at h
    split at h
    · simpa using h
    · split at h
      · exact (List.mem_cons.1 h).imp_right (List.mem_cons_of_mem _)
      · rcases List.mem_cons.1 h with rfl | h
        · exact .inr List.mem_cons_self
        · exact (ih h).imp_right (List.mem_cons_of_mem _)

theorem Ascending.insertAscending {items : List α} (h : Ascending key items) (item : α) :
    Ascending key (Text.insertAscending key item items) := by
  induction items with
  | nil => exact List.pairwise_singleton _ _
  | cons first others ih =>
    have ⟨below, rest⟩ := List.pairwise_cons.1 h
    unfold Text.insertAscending
    split
    · rename_i lower
      refine List.pairwise_cons.2 ⟨fun other mem => ?_, h⟩
      rcases List.mem_cons.1 mem with rfl | mem
      · exact lower
      · exact String.lt_trans lower (below other mem)
    · rename_i notLower
      split
      · rename_i equal
        exact List.pairwise_cons.2 ⟨fun other mem => equal ▸ below other mem, rest⟩
      · rename_i notEqual
        refine List.pairwise_cons.2 ⟨fun other mem => ?_, ih rest⟩
        rcases mem_of_mem_insertAscending mem with rfl | mem
        · apply String.not_le.1
          intro le
          exact notEqual (String.le_antisymm le (String.not_lt.1 notLower))
        · exact below other mem

theorem ascending_foldl_insertAscending (items : List α) {sorted : List α}
    (h : Ascending key sorted) :
    Ascending key (items.foldl (fun sorted item => insertAscending key item sorted) sorted) := by
  induction items generalizing sorted with
  | nil => exact h
  | cons item items ih => exact ih (h.insertAscending item)

theorem ascending_sortAscending (items : List α) : Ascending key (sortAscending key items) :=
  ascending_foldl_insertAscending items List.Pairwise.nil

end ExactLinear.Text
