import ExactLinear.Text
import Mathlib.Data.String.Basic

/-! What sorting by a key keeps: the items, and an order that is there already. -/
namespace ExactLinear.Text

variable {α : Type} {key : α → String}

theorem Ascending.nodup_keys {items : List α} (sorted : Ascending key items) :
    (items.map key).Nodup := by
  apply List.pairwise_map.mpr
  exact sorted.imp fun less => less.ne

/-- There is one way only to put items in order. -/
theorem Ascending.eq_of_perm {items others : List α} (left : Ascending key items)
    (right : Ascending key others) (perm : items.Perm others) : items = others :=
  perm.eq_of_pairwise (fun _ _ _ _ less greater => absurd less greater.asymm) left right

/-- A list in order is determined by its members. -/
theorem Ascending.eq_of_mem_iff {items others : List String} (left : Ascending id items)
    (right : Ascending id others) (same : ∀ x, x ∈ items ↔ x ∈ others) : items = others := by
  have perm : items.Perm others := by
    have nodup {list : List String} (sorted : Ascending id list) : list.Nodup := by
      simpa using sorted.nodup_keys
    exact (List.perm_ext_iff_of_nodup (nodup left) (nodup right)).mpr same
  exact left.eq_of_perm right perm

/-- An inserted item takes the place of one with its key and leaves all others. -/
theorem mem_insertAscending_iff {items : List α} (sorted : Ascending key items)
    (item other : α) : other ∈ insertAscending key item items ↔
      other = item ∨ other ∈ items ∧ key other ≠ key item := by
  induction items with
  | nil => simp [insertAscending]
  | cons first others ih =>
    obtain ⟨below, rest⟩ := List.pairwise_cons.mp sorted
    have apart (x : α) (member : x ∈ others) : key first ≠ key x := (below x member).ne
    unfold insertAscending
    split
    · rename_i lower
      have different (x : α) (member : x ∈ first :: others) : key x ≠ key item := by
        rcases List.mem_cons.mp member with rfl | later
        · exact lower.ne'
        · exact (lower.trans (below x later)).ne'
      rw [List.mem_cons]
      exact or_congr_right ⟨fun member => ⟨member, different other member⟩, fun h => h.1⟩
    · split
      · rename_i equal
        rw [List.mem_cons, List.mem_cons]
        constructor
        · rintro (same | member)
          · exact .inl same
          · exact .inr ⟨.inr member, fun clash => apart other member (equal ▸ clash.symm)⟩
        · rintro (same | ⟨rfl | member, different⟩)
          · exact .inl same
          · exact absurd equal.symm different
          · exact .inr member
      · rename_i notEqual
        rw [List.mem_cons, ih rest, List.mem_cons]
        constructor
        · rintro (rfl | same | ⟨member, different⟩)
          · exact .inr ⟨.inl rfl, Ne.symm notEqual⟩
          · exact .inl same
          · exact .inr ⟨.inr member, different⟩
        · rintro (same | ⟨rfl | member, different⟩)
          · exact .inr (.inl same)
          · exact .inl rfl
          · exact .inr (.inr ⟨member, different⟩)

/-- Sorted names are the names that were there. -/
theorem mem_sortAscending_id (names : List String) (name : String) :
    name ∈ sortAscending id names ↔ name ∈ names := by
  have collected (sorted : List String) (order : Ascending id sorted) :
      name ∈ names.foldl (fun sorted item => insertAscending id item sorted) sorted ↔
        name ∈ sorted ∨ name ∈ names := by
    induction names generalizing sorted with
    | nil => simp
    | cons item names ih =>
      rw [List.foldl_cons, ih _ (order.insertAscending item), mem_insertAscending_iff order,
        List.mem_cons]
      by_cases same : name = item <;> simp [same]
  simpa [sortAscending] using collected [] List.Pairwise.nil

theorem insertAscending_perm {items : List α} {item : α} (fresh : ∀ x ∈ items, key x ≠ key item) :
    (insertAscending key item items).Perm (item :: items) := by
  induction items with
  | nil => exact .refl _
  | cons first others ih =>
    unfold insertAscending
    split
    · exact .refl _
    · split
      · rename_i equal
        exact absurd equal.symm (fresh first List.mem_cons_self)
      · have later := ih fun x member => fresh x (List.mem_cons_of_mem first member)
        exact (later.cons first).trans (.swap item first others)

/-- Where no key comes twice, sorting only moves items. -/
theorem sortAscending_perm {items : List α} (distinct : (items.map key).Nodup) :
    (sortAscending key items).Perm items := by
  have collected (sorted items : List α) (distinct : ((sorted ++ items).map key).Nodup) :
      (items.foldl (fun sorted item => insertAscending key item sorted) sorted).Perm
        (sorted ++ items) := by
    induction items generalizing sorted with
    | nil => simp
    | cons item items ih =>
      have moved : (sorted ++ item :: items).Perm (item :: sorted ++ items) := List.perm_middle
      have keys := (moved.map key).nodup_iff.mp distinct
      have fresh : ∀ x ∈ sorted, key x ≠ key item := by
        intro x member clash
        apply (List.nodup_cons.mp keys).1
        rw [← clash]
        exact List.mem_map_of_mem (List.mem_append_left items member)
      have inserted := (insertAscending_perm fresh).append_right items
      exact (ih _ ((inserted.map key).nodup_iff.mpr keys)).trans (inserted.trans moved.symm)
  exact collected [] items distinct

theorem insertAscending_of_greatest {items : List α} {item : α}
    (greatest : ∀ x ∈ items, key x < key item) :
    insertAscending key item items = items ++ [item] := by
  induction items with
  | nil => rfl
  | cons first others ih =>
    have less := greatest first List.mem_cons_self
    rw [insertAscending, if_neg less.asymm, if_neg less.ne',
      ih fun x member => greatest x (List.mem_cons_of_mem first member)]
    rfl

/-- What is in order stays as it is. -/
theorem sortAscending_of_ascending {items : List α} (sorted : Ascending key items) :
    sortAscending key items = items := by
  have continued (done rest : List α) (order : Ascending key (done ++ rest)) :
      rest.foldl (fun sorted item => insertAscending key item sorted) done = done ++ rest := by
    induction rest generalizing done with
    | nil => simp
    | cons item rest ih =>
      have greatest (x : α) (member : x ∈ done) : key x < key item :=
        (List.pairwise_append.mp order).2.2 x member item List.mem_cons_self
      rw [List.foldl_cons, insertAscending_of_greatest greatest, ih _ (by simpa using order)]
      simp
  exact continued [] items sorted

end ExactLinear.Text
