import Onboarding.Proofs.Json.Grammar

/-!
# Onboarding — the part of a value that a cut text holds

The first characters of a written value hold a part of it. A container is held
as soon as its opening bracket is, a name or a string only as a whole, and a
numeral as long as the characters of it that are there are a numeral themselves.
Of an array and an object the items and the members whose values are held stay,
in their order, each with its own key and blanks; the closing bracket is put
where they end.

## Results

* `Written.held?_of_length_le` — a whole text holds the whole value.
* `Written.depth_le_of_held?` — a held value nests no deeper.
-/

namespace Onboarding.Json

mutual

/-- What the first `n` characters of its text hold of a value. -/
def Written.held? (n : Nat) : Written → Option Written
  | .name m => if m.text.length ≤ n then some (.name m) else none
  | .numeral t => (NumeralText.ofText? (t.text.take n)).map .numeral
  | .string t => if t.text.length ≤ n then some (.string t) else none
  | .array items gap =>
    if n = 0 then none
    -- without the closing bracket the blanks before it are not held either
    else some (.array (items.held true (n - 1))
      (if (items.text true ++ gap.1).length + 2 ≤ n then gap else Gap.none))
  | .object members gap =>
    if n = 0 then none
    else some (.object (members.held true (n - 1))
      (if (members.text true ++ gap.1).length + 2 ≤ n then gap else Gap.none))

/-- The items that are held, the last of them perhaps in part. -/
def WrittenItems.held (first : Bool) (n : Nat) : WrittenItems → WrittenItems
  | .nil => .nil
  | .cons outer inner value rest =>
    let n := n - (itemLead first outer inner).length
    match value.held? n with
    | some part => .cons outer inner part (rest.held false (n - value.text.length))
    | none => .nil

/-- The members that are held, the value of the last one perhaps in part. -/
def WrittenMembers.held (first : Bool) (n : Nat) : WrittenMembers → WrittenMembers
  | .nil => .nil
  | .cons outer inner key before after value rest =>
    let n := n - (memberLead first outer inner key before after).length
    match value.held? n with
    | some part =>
      .cons outer inner key before after part (rest.held false (n - value.text.length))
    | none => .nil

end

/-! ## Whole texts -/

/-- Of nothing there is nothing held. -/
theorem Written.held?_zero (w : Written) : w.held? 0 = none := by
  cases w with
  | name m => cases m <;> rfl
  | numeral t => rfl
  | string t => rfl
  | array items gap => rfl
  | object members gap => rfl

theorem WrittenItems.held_zero (items : WrittenItems) (first : Bool) :
    items.held first 0 = .nil := by
  cases items with
  | nil => rfl
  | cons outer inner value rest =>
    rw [WrittenItems.held]
    simp only [Nat.zero_sub, value.held?_zero]

theorem WrittenMembers.held_zero (members : WrittenMembers) (first : Bool) :
    members.held first 0 = .nil := by
  cases members with
  | nil => rfl
  | cons outer inner key before after value rest =>
    rw [WrittenMembers.held]
    simp only [Nat.zero_sub, value.held?_zero]

mutual

/-- A whole text holds the whole value. -/
theorem Written.held?_of_length_le : ∀ (w : Written) {n : Nat}, w.text.length ≤ n →
    w.held? n = some w
  | .name _, _, h => if_pos h
  | .numeral t, n, h => by
    have hTake : t.text.take n = t.text := List.take_of_length_le h
    rw [Written.held?, hTake, t.ofText?_text, Option.map_some]
  | .string _, _, h => if_pos h
  | .array items gap, n, h => by
    simp only [Written.text, List.length_cons, List.length_append, List.length_nil] at h
    -- the opening bracket is not part of the items
    have hItems : (items.text true).length ≤ n - 1 := by omega
    have hClosed : (items.text true ++ gap.1).length + 2 ≤ n := by
      rw [List.length_append]
      omega
    rw [Written.held?, if_neg (by omega), if_pos hClosed, items.held_of_length_le true hItems]
  | .object members gap, n, h => by
    simp only [Written.text, List.length_cons, List.length_append, List.length_nil] at h
    have hMembers : (members.text true).length ≤ n - 1 := by omega
    have hClosed : (members.text true ++ gap.1).length + 2 ≤ n := by
      rw [List.length_append]
      omega
    rw [Written.held?, if_neg (by omega), if_pos hClosed, members.held_of_length_le true hMembers]

/-- A whole text holds all items. -/
theorem WrittenItems.held_of_length_le : ∀ (items : WrittenItems) (first : Bool) {n : Nat},
    (items.text first).length ≤ n → items.held first n = items
  | .nil, _, _, _ => rfl
  | .cons outer inner value rest, first, n, h => by
    simp only [WrittenItems.text, List.length_append] at h
    have hValue : value.text.length ≤ n - (itemLead first outer inner).length := by omega
    have hRest : (rest.text false).length ≤
        n - (itemLead first outer inner).length - value.text.length := by omega
    rw [WrittenItems.held]
    simp only [value.held?_of_length_le hValue, rest.held_of_length_le false hRest]

/-- A whole text holds all members. -/
theorem WrittenMembers.held_of_length_le : ∀ (members : WrittenMembers) (first : Bool) {n : Nat},
    (members.text first).length ≤ n → members.held first n = members
  | .nil, _, _, _ => rfl
  | .cons outer inner key before after value rest, first, n, h => by
    simp only [WrittenMembers.text, List.length_append] at h
    have hValue : value.text.length ≤
        n - (memberLead first outer inner key before after).length := by omega
    have hRest : (rest.text false).length ≤
        n - (memberLead first outer inner key before after).length - value.text.length := by omega
    rw [WrittenMembers.held]
    simp only [value.held?_of_length_le hValue, rest.held_of_length_le false hRest]

end

mutual

/-- A held value nests no deeper. -/
theorem Written.depth_le_of_held? : ∀ (w : Written) {n : Nat} {part : Written},
    w.held? n = some part → part.depth ≤ w.depth
  | .name _, n, part, h => by
    simp only [Written.held?, Option.ite_none_right_eq_some, Option.some.injEq] at h
    exact h.2 ▸ Nat.le_refl _
  | .numeral t, n, part, h => by
    obtain ⟨t', -, rfl⟩ := Option.map_eq_some_iff.mp h
    exact Nat.le_refl _
  | .string _, n, part, h => by
    simp only [Written.held?, Option.ite_none_right_eq_some, Option.some.injEq] at h
    exact h.2 ▸ Nat.le_refl _
  | .array items gap, n, part, h => by
    simp only [Written.held?, Option.ite_none_left_eq_some, Option.some.injEq] at h
    rw [← h.2, Written.depth, Written.depth]
    exact Nat.succ_le_succ (items.depth_held_le true (n - 1))
  | .object members gap, n, part, h => by
    simp only [Written.held?, Option.ite_none_left_eq_some, Option.some.injEq] at h
    rw [← h.2, Written.depth, Written.depth]
    exact Nat.succ_le_succ (members.depth_held_le true (n - 1))

/-- The items that are held nest no deeper. -/
theorem WrittenItems.depth_held_le : ∀ (items : WrittenItems) (first : Bool) (n : Nat),
    (items.held first n).depth ≤ items.depth
  | .nil, _, _ => Nat.le_refl _
  | .cons outer inner value rest, first, n => by
    rw [WrittenItems.held]
    split
    · next part hPart =>
      have hValue := value.depth_le_of_held? hPart
      have hRest := rest.depth_held_le false
        (n - (itemLead first outer inner).length - value.text.length)
      rw [WrittenItems.depth, WrittenItems.depth]
      omega
    · exact Nat.zero_le _

theorem WrittenMembers.depth_held_le : ∀ (members : WrittenMembers) (first : Bool) (n : Nat),
    (members.held first n).depth ≤ members.depth
  | .nil, _, _ => Nat.le_refl _
  | .cons outer inner key before after value rest, first, n => by
    rw [WrittenMembers.held]
    split
    · next part hPart =>
      have hValue := value.depth_le_of_held? hPart
      have hRest := rest.depth_held_le false
        (n - (memberLead first outer inner key before after).length - value.text.length)
      rw [WrittenMembers.depth, WrittenMembers.depth]
      omega
    · exact Nat.zero_le _

end

end Onboarding.Json
