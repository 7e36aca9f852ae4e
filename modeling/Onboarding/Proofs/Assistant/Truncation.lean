import Onboarding.Proofs.Assistant.Scanning
import Onboarding.Proofs.Json.Restriction

/-!
# Onboarding — repairing the beginning of a JSON text

The repair keeps in step with a written value: before an item or a member, and
before the end of a container, its mode, its flag and the top of its stack say
where in the grammar it stands, and all it has read could be closed there
(`Ready`). From a value it gets to the state behind the value (`run_value`), and
where the text ends inside a value it keeps what the text holds of it
(`take_value`). Both follow the recursion of the value.

## Results

* `run_value` — going over a whole value.
* `take_value` — ending inside a value.
* `read?_repair_of_prefix` — the repaired beginning of a text whose root is a
  container says what the beginning holds of the root.
-/

namespace Onboarding.Repair

open Json

/-- The character that opens a container. -/
def Bracket.opening : Bracket → Char
  | object => '{'
  | array => '['

namespace State

/-- The text so far and more text, closed. -/
def kept (s : State) (t : List Char) : List Char :=
  s.taken.reverse ++ t ++ s.stack.map Bracket.closing

/-- The state behind the opening bracket of a container. -/
def opened (s : State) (b : Bracket) : State :=
  { s.take b.opening with stack := b :: s.stack, expectsKey := b == Bracket.object }.mark

/-- What becomes of the text behind the last bracket of the innermost container, which `t` ends
with: nothing counts there if the container is the outermost one. -/
def shut (s : State) (t rest : List Char) : List Char :=
  if s.stack.tail.isEmpty then s.taken.reverse ++ t
  else ({ s.past t with stack := s.stack.tail, expectsKey := false }.mark).run rest

/-- Text that ends in no blank is kept as it is. -/
theorem cut_past {t : List Char} (hLast : ∃ init c, t = init ++ [c] ∧ Text.isBlank c = false)
    (s : State) : (s.past t).cut = s.kept t := by
  obtain ⟨init, c, rfl, hBlank⟩ := hLast
  have hNonempty : s.taken.reverse ++ (init ++ [c]) ≠ [] := by simp
  have hTrim := Text.trimEnd_append hNonempty (by simpa using hBlank) []
  rw [List.append_nil] at hTrim
  show Text.trimEnd ((init ++ [c]).reverse ++ s.taken).reverse ++ s.stack.map Bracket.closing = _
  rw [List.reverse_append, List.reverse_reverse, hTrim]
  simp [Text.trimEnd, kept]

/-- What ends a container behind a value ends it as it would behind all that stands before. -/
theorem shut_past (s next : State) (lead : List Char) (hTaken : next.taken = (s.read lead).taken)
    (hStack : next.stack = s.stack) (hMode : next.mode = s.mode) (t u rest : List Char) :
    (next.past t).shut u rest = s.shut (lead ++ t ++ u) rest := by
  simp [shut, past, read, mark, hTaken, hStack, hMode]

/-- What is kept behind a text that can be closed begins with that text. -/
theorem kept_past (s : State) (t u v : List Char) :
    ((s.read t).past u).kept v = s.kept (t ++ u ++ v) := by
  simp [kept, past, read, mark]

/-- Inside of a container its closing bracket comes before those of the outer ones. -/
theorem kept_opened (s : State) (b : Bracket) (t : List Char) :
    (s.opened b).kept t = s.kept (b.opening :: (t ++ [b.closing])) := by
  simp [kept, opened, take, mark]

/-- An opening bracket where a value may stand opens a container. -/
theorem step_opening {s : State} (hMode : s.mode = .outside) (hKey : s.expectsKey = false)
    (b : Bracket) : s.step b.opening = .more (s.opened b) := by
  rw [step_of_outside hMode]
  cases b with
  | object => rfl
  | array =>
    -- an opened array leaves the flag as it is, which is unset before a value
    show Progress.more ({ s.take '[' with stack := .array :: s.stack }.mark) = _
    rw [opened, show (Bracket.array == Bracket.object) = false from rfl, ← hKey]
    rfl

/-- A closing bracket shuts the innermost container, whichever of the two it is. -/
theorem run_closing {s : State} (hMode : s.mode = .outside) (b : Bracket) (rest : List Char) :
    s.run (b.closing :: rest) = s.shut [b.closing] rest := by
  have hStep : s.step b.closing = s.stepOutside b.closing := step_of_outside hMode _
  -- the repair treats both closing brackets alike
  cases b <;>
  · rw [run, hStep, shut]
    by_cases hOuter : s.stack.tail.isEmpty = true
    · simp [Bracket.closing, stepOutside, mark, take, hOuter]
    · simp [Bracket.closing, stepOutside, mark, take, past, read, hOuter]

end State

/-- The repair is about to go over an item, a member or the end of the innermost container, and
could close here. -/
structure Ready (s : State) (b : Bracket) (first : Bool) : Prop where
  mode : s.mode = .outside
  top : s.stack.head? = some b
  expectsKey : s.expectsKey = (b == Bracket.object && first)
  cut : s.cut = s.kept []

namespace Ready

variable {s : State} {b : Bracket} {first : Bool}

/-- Behind its opening bracket a container could be closed at once. -/
theorem opened (hMode : s.mode = .outside) (b : Bracket) : Ready (s.opened b) b true where
  mode := hMode
  top := rfl
  expectsKey := by cases b <;> rfl
  cut := by
    have hCut := State.cut_past (t := [b.opening]) ⟨[], b.opening, rfl, by cases b <;> decide⟩
      { s with stack := b :: s.stack }
    rw [State.kept_opened]
    simpa [State.kept, State.cut, State.opened, State.past, State.read, State.take,
      State.mark] using hCut

/-- The container is open, so something is. -/
theorem stack_ne_nil (h : Ready s b first) : s.stack ≠ [] := by
  intro hNil
  have hTop := h.top
  rw [hNil] at hTop
  simp at hTop

/-- Behind the blanks in an array a value may stand. -/
theorem atValue_read (h : Ready s .array first) (t : List Char) : AtValue (s.read t) where
  mode := h.mode
  expectsKey := h.expectsKey
  stack := h.stack_ne_nil

/-- Behind a key and its colon a value may stand. -/
theorem atValue_member (h : Ready s .object first) (t : List Char) :
    AtValue { s.read t with expectsKey := false } where
  mode := h.mode
  expectsKey := rfl
  stack := h.stack_ne_nil

end Ready

/-! ## Ends of values -/

/-- A numeral follows the grammar of numerals. -/
theorem exists_numeralPart (t : NumeralText) : ∃ part, numeralPart? t.text = some part := by
  obtain ⟨c, rest, first, part, hText, hFirst, hScan, -⟩ := t.exists_part
  refine ⟨part, ?_⟩
  rw [hText, numeralPart?, hFirst]
  exact hScan

/-- A numeral is a token. -/
theorem isTokenChar_of_mem_numeral {t : NumeralText} {c : Char} (h : c ∈ t.text) :
    isTokenChar c = true := by
  obtain ⟨part, hPart⟩ := exists_numeralPart t
  exact isTokenChar_of_isNumeralChar (isNumeralChar_of_numeralPart? hPart c h)

/-- No character of a token is a blank. -/
theorem isBlank_of_isTokenChar {c : Char} (h : isTokenChar c = true) : Text.isBlank c = false := by
  simp only [isTokenChar, isBreak, Bool.and_eq_true, Bool.not_eq_true', Bool.or_eq_false_iff] at h
  exact h.1.1.1.2

/-- A written value ends in no blank. -/
theorem exists_last (w : Written) : ∃ init c, w.text = init ++ [c] ∧ Text.isBlank c = false := by
  have hToken (t : List Char) (hNonempty : t ≠ []) (h : ∀ c ∈ t, isTokenChar c = true) :
      ∃ init c, t = init ++ [c] ∧ Text.isBlank c = false :=
    ⟨t.dropLast, t.getLast hNonempty, (List.dropLast_concat_getLast hNonempty).symm,
      isBlank_of_isTokenChar (h _ (List.getLast_mem hNonempty))⟩
  obtain ⟨c, rest, hText, -⟩ := w.text_eq_cons
  have hNonempty : w.text ≠ [] := by simp [hText]
  cases w with
  | name n => exact hToken _ hNonempty fun c hc => isTokenChar_of_mem_name hc
  | numeral t => exact hToken _ hNonempty fun c hc => isTokenChar_of_mem_numeral hc
  | string t => exact ⟨'"' :: t.body, '"', rfl, by decide⟩
  | array items gap =>
    exact ⟨'[' :: (items.text true ++ gap.1), ']', by simp [Written.text], by decide⟩
  | object members gap =>
    exact ⟨'{' :: (members.text true ++ gap.1), '}', by simp [Written.text], by decide⟩

/-- Behind a value the container around it could be closed. -/
theorem ready_past {s : State} {b : Bracket} (hValue : AtValue s) (hTop : s.stack.head? = some b)
    (w : Written) : Ready (s.past w.text) b false where
  mode := hValue.mode
  top := hTop
  expectsKey := hValue.expectsKey.trans (Bool.and_false _).symm
  cut := by
    rw [State.cut_past (exists_last w)]
    simp [State.kept, State.past, State.read, State.mark]

/-! ## Whole values -/

/-- A string is complete at its last quote. -/
theorem run_string {s : State} (hValue : AtValue s) (t : StringText) (rest : List Char) :
    s.run (t.text ++ rest) = (s.past t.text).run rest := by
  have hOpen := quiet_openString hValue.mode t
  rw [hValue.expectsKey, Bool.and_false] at hOpen
  have hText : t.text = ('"' :: t.body) ++ ['"'] := rfl
  have hStep (s : State) (h : s.mode = .string false false) :
      s.step '"' = .more { s.take '"' with mode := .outside }.mark := by
    simp [State.step, h]
  rw [hText, List.append_assoc, hOpen.run_append, List.singleton_append,
    State.run_cons (hStep _ rfl), State.past, State.read_append, ← hValue.mode, ← hValue.expectsKey]
  rfl

/-- Going over a container is going over what it holds and its closing bracket. -/
theorem run_container {s : State} (hMode : s.mode = .outside) (hKey : s.expectsKey = false)
    {b : Bracket} {inner : List Char} {rest : List Char}
    (hInner : (s.opened b).run (inner ++ b.closing :: rest) =
      (s.opened b).shut (inner ++ [b.closing]) rest) :
    s.run (b.opening :: (inner ++ [b.closing]) ++ rest) =
      if s.stack.isEmpty then s.taken.reverse ++ b.opening :: (inner ++ [b.closing])
      else (s.past (b.opening :: (inner ++ [b.closing]))).run rest := by
  rw [List.cons_append, List.append_assoc, List.singleton_append,
    State.run_cons (State.step_opening hMode hKey b), hInner, State.shut]
  show (if s.stack.isEmpty then _ else _) = _
  split
  · simp [State.opened, State.take, State.mark]
  · simp [State.opened, State.past, State.read, State.take, State.mark, hKey]

/-- The end of a container behind its last item or member, or behind its opening bracket. -/
theorem run_end {s : State} {b : Bracket} {first : Bool} (hReady : Ready s b first) (gap : Gap)
    (rest : List Char) :
    s.run (gap.1 ++ b.closing :: rest) = s.shut (gap.1 ++ [b.closing]) rest := by
  have hClose := State.run_closing (s := s.read gap.1) hReady.mode b rest
  rw [(quiet_gap hReady.mode gap).run_append, hClose]
  simp [State.shut, State.read, State.past, State.mark]

mutual

/-- The repair goes over a whole value inside a container. -/
theorem run_value : ∀ (w : Written) {s : State} (rest : List Char), AtValue s →
    Ends rest → s.run (w.text ++ rest) = (s.past w.text).run rest
  | .name n, s, rest, hValue, hEnds => by
    have hScalar : isScalar n.text = true := by
      rw [← List.take_length (l := n.text), isScalar_take_name]
      exact decide_eq_true (Nat.le_refl _)
    exact run_token_append hValue hScalar (fun c hc => isTokenChar_of_mem_name hc) hEnds
  | .numeral t, s, rest, hValue, hEnds => by
    have hScalar : isScalar t.text = true := by
      obtain ⟨part, hPart⟩ := exists_numeralPart t
      rw [isScalar_eq_isSome hPart, t.reads]
      rfl
    exact run_token_append hValue hScalar (fun c hc => isTokenChar_of_mem_numeral hc) hEnds
  -- the brackets open a deeper state; the run over their items or members closes it again
  | .string t, s, rest, hValue, _ => run_string hValue t rest
  | .array items gap, s, rest, hValue, _ => by
    have hInner := run_items items true gap rest (Ready.opened hValue.mode .array)
    rw [← List.append_assoc] at hInner
    have hRun := run_container hValue.mode hValue.expectsKey hInner
    rwa [if_neg (by simpa using hValue.stack)] at hRun
  | .object members gap, s, rest, hValue, _ => by
    have hInner := run_members members true gap rest (Ready.opened hValue.mode .object)
    rw [← List.append_assoc] at hInner
    have hRun := run_container hValue.mode hValue.expectsKey hInner
    rwa [if_neg (by simpa using hValue.stack)] at hRun

/-- Items are gone over one by one, each like a value of its own. -/
theorem run_items : ∀ (items : WrittenItems) (first : Bool) (gap : Gap) {s : State}
    (rest : List Char), Ready s .array first →
    s.run (items.text first ++ (gap.1 ++ ']' :: rest)) =
      s.shut (items.text first ++ gap.1 ++ [']']) rest
  | .nil, _, gap, _, rest, hReady => run_end hReady gap rest
  | .cons outer inner value tail, first, gap, s, rest, hReady => by
    have hLead := quiet_itemLead hReady.mode hReady.top hReady.expectsKey first outer inner
    have hValue := hReady.atValue_read (itemLead first outer inner)
    have hEnds : Ends (tail.text false ++ (gap.1 ++ ']' :: rest)) :=
      ends_items tail (ends_of_gap gap (ends_cons (by decide) rest))
    have hNext := ready_past hValue hReady.top value
    have hShut := State.shut_past s (s.read (itemLead first outer inner)) _ rfl rfl rfl
    -- over what stands before the item, over the item, and on from there
    rw [WrittenItems.text, List.append_assoc, List.append_assoc, hLead.run_append,
      run_value value _ hValue hEnds, run_items tail false gap rest hNext, hShut]
    simp only [List.append_assoc]

/-- Members are gone over one by one, each with its key in front. -/
theorem run_members : ∀ (members : WrittenMembers) (first : Bool) (gap : Gap)
    {s : State} (rest : List Char), Ready s .object first →
    s.run (members.text first ++ (gap.1 ++ '}' :: rest)) =
      s.shut (members.text first ++ gap.1 ++ ['}']) rest
  | .nil, _, gap, _, rest, hReady => run_end hReady gap rest
  | .cons outer inner key before after value tail, first, gap, s, rest, hReady => by
    have hLead := quiet_memberLead hReady.mode hReady.top first hReady.expectsKey outer inner key
      before after
    have hValue := hReady.atValue_member (memberLead first outer inner key before after)
    -- what stands behind the value ends a name or numeral
    have hEnds : Ends (tail.text false ++ (gap.1 ++ '}' :: rest)) :=
      ends_members tail (ends_of_gap gap (ends_cons (by decide) rest))
    have hNext := ready_past hValue hReady.top value
    have hShut := State.shut_past s
      { s.read (memberLead first outer inner key before after) with expectsKey := false } _
      rfl rfl rfl
    rw [WrittenMembers.text, List.append_assoc, List.append_assoc, hLead.run_append,
      run_value value _ hValue hEnds, run_members tail false gap rest hNext, hShut]
    simp only [List.append_assoc]

end

/-! ## Cut values -/

/-- What becomes of a text that ends inside a value of which this is held. -/
def State.outcome (s : State) : Option Written → List Char
  | none => s.cut
  | some part => s.kept part.text

/-- A text that ends behind a value keeps the whole value. -/
theorem take_whole {w : Written} {s : State} {n : Nat} (hValue : AtValue s)
    (hn : w.text.length ≤ n) : s.run (w.text.take n) = s.outcome (w.held? n) := by
  have hRun := run_value w [] hValue (by intro c hc; simp at hc)
  rw [List.append_nil] at hRun
  rw [List.take_of_length_le hn, w.held?_of_length_le hn, hRun]
  show (s.past w.text).finish = s.kept w.text
  rw [State.finish_of_outside (s := s.past w.text) hValue.mode, State.cut_past (exists_last w)]

/-- A cut name is held if all of its letters are there. -/
theorem take_name {s : State} (hValue : AtValue s) (m : Name) (n : Nat) :
    s.run (m.text.take n) = s.outcome ((Written.name m).held? n) := by
  have hRun := run_token_end (t := m.text.take n) hValue fun c hc =>
    isTokenChar_of_mem_name (List.mem_of_mem_take hc)
  rw [isScalar_take_name] at hRun
  rw [hRun, Written.held?]
  by_cases hn : m.text.length ≤ n
  · rw [decide_eq_true hn, if_pos rfl, if_pos hn, List.take_of_length_le hn]
    exact State.cut_past (exists_last (.name m)) s
  · rw [decide_eq_false hn, if_neg (by decide), if_neg hn]
    rfl

/-- A cut numeral is held if what is there of it is a numeral itself. -/
theorem take_numeral {s : State} (hValue : AtValue s) (t : NumeralText) (n : Nat) :
    s.run (t.text.take n) = s.outcome ((Written.numeral t).held? n) := by
  have hRun := run_token_end (t := t.text.take n) hValue fun c hc =>
    isTokenChar_of_mem_numeral (List.mem_of_mem_take hc)
  -- nothing of a numeral is no scalar; a beginning of one is, where it reads as a number
  have hScalar : isScalar (t.text.take n) = (number? (t.text.take n)).isSome := by
    cases n with
    | zero => rfl
    | succ n =>
      obtain ⟨part, hPart⟩ := exists_numeralPart t
      obtain ⟨last, hLast⟩ := exists_numeralPart_take hPart (Nat.succ_pos n)
      exact isScalar_eq_isSome hLast
  rw [hRun, hScalar, Written.held?]
  cases hText : NumeralText.ofText? (t.text.take n) with
  | none =>
    rw [NumeralText.ofText?_eq_none.mp hText]
    rfl
  | some t' =>
    rw [← NumeralText.ofText?_eq_some hText, t'.reads]
    exact State.cut_past (exists_last (.numeral t')) s

/-- A cut string is held if its last quote is there. -/
theorem take_string {s : State} (hValue : AtValue s) (t : StringText) (n : Nat) :
    s.run (t.text.take n) = s.outcome ((Written.string t).held? n) := by
  rcases Nat.lt_or_ge n t.text.length with hLt | hGe
  · have hText : t.text = ('"' :: t.body) ++ ['"'] := rfl
    have hOpen : t.text.take n = ('"' :: t.body).take n := by
      rw [hText, List.length_append, List.length_singleton] at hLt
      rw [hText, List.take_append_of_le_length (by omega)]
    rw [hOpen, (quiet_openString hValue.mode t).run_take, Written.held?, if_neg (by omega)]
    rfl
  · exact take_whole (w := .string t) hValue hGe

/-- A text that ends inside a container keeps what it keeps inside, closed. -/
theorem take_container {s : State} (hMode : s.mode = .outside) (hKey : s.expectsKey = false)
    {b : Bracket} {w : Written} {inner : List Char} {part : Nat → Written}
    {held : Nat → List Char} (hText : w.text = b.opening :: (inner ++ [b.closing]))
    (hHeld : ∀ m ≤ inner.length, w.held? (m + 1) = some (part m))
    (hPart : ∀ m, (part m).text = b.opening :: (held m ++ [b.closing]))
    (hInner : ∀ m ≤ inner.length, (s.opened b).run (inner.take m) = (s.opened b).kept (held m))
    {n : Nat} (hPos : 0 < n) (hn : n < w.text.length) :
    s.run (w.text.take n) = s.outcome (w.held? n) := by
  obtain ⟨m, rfl⟩ : ∃ m, n = m + 1 := ⟨n - 1, by omega⟩
  have hm : m ≤ inner.length := by
    rw [hText, List.length_cons, List.length_append, List.length_singleton] at hn
    omega
  rw [hText, List.take_succ_cons, State.run_cons (State.step_opening hMode hKey b),
    List.take_append_of_le_length hm, hInner m hm, State.kept_opened, hHeld m hm, State.outcome,
    hPart]

/-- Of a cut array the items are kept that are held. -/
theorem take_array {s : State} (hMode : s.mode = .outside) (hKey : s.expectsKey = false)
    {items : WrittenItems} {gap : Gap} {n : Nat}
    (hItems : ∀ m ≤ (items.text true ++ gap.1).length,
      (s.opened .array).run ((items.text true ++ gap.1).take m) =
        (s.opened .array).kept ((items.held true m).text true))
    (hPos : 0 < n) (hn : n < (Written.array items gap).text.length) :
    s.run ((Written.array items gap).text.take n) =
      s.outcome ((Written.array items gap).held? n) := by
  have hHeld (m : Nat) (hm : m ≤ (items.text true ++ gap.1).length) :
      (Written.array items gap).held? (m + 1) = some (.array (items.held true m) Gap.none) := by
    rw [Written.held?, if_neg (by omega), if_neg (by omega), Nat.add_sub_cancel]
  have hPart (m : Nat) : (Written.array (items.held true m) Gap.none).text =
      Bracket.array.opening :: ((items.held true m).text true ++ [Bracket.array.closing]) := by
    rw [Written.text, Gap.none, List.append_nil]
    rfl
  exact take_container hMode hKey rfl hHeld hPart hItems hPos hn

/-- Of a cut object the members are kept whose values are held. -/
theorem take_object {s : State} (hMode : s.mode = .outside) (hKey : s.expectsKey = false)
    {members : WrittenMembers} {gap : Gap} {n : Nat}
    (hMembers : ∀ m ≤ (members.text true ++ gap.1).length,
      (s.opened .object).run ((members.text true ++ gap.1).take m) =
        (s.opened .object).kept ((members.held true m).text true))
    (hPos : 0 < n) (hn : n < (Written.object members gap).text.length) :
    s.run ((Written.object members gap).text.take n) =
      s.outcome ((Written.object members gap).held? n) := by
  have hHeld (m : Nat) (hm : m ≤ (members.text true ++ gap.1).length) :
      (Written.object members gap).held? (m + 1) =
        some (.object (members.held true m) Gap.none) := by
    rw [Written.held?, if_neg (by omega), if_neg (by omega), Nat.add_sub_cancel]
  have hPart (m : Nat) : (Written.object (members.held true m) Gap.none).text =
      Bracket.object.opening :: ((members.held true m).text true ++ [Bracket.object.closing]) := by
    rw [Written.text, Gap.none, List.append_nil]
    rfl
  exact take_container hMode hKey rfl hHeld hPart hMembers hPos hn

/-- A text that ends before, inside or behind an item or a member, given what becomes of it inside
the value (`hValue`) and behind the value (`hRest`). -/
theorem take_led {s next : State} {b : Bracket} {first : Bool} {lead more : List Char}
    {value : Written} (held : Nat → List Char) (hReady : Ready s b first)
    (hLead : Quiet s lead next) (hTaken : next.taken = (s.read lead).taken)
    (hStack : next.stack = s.stack) (hAt : AtValue next) (hEnds : Ends more)
    (hValue : ∀ k, next.run (value.text.take k) = next.outcome (value.held? k))
    (hRest : ∀ k ≤ more.length,
      (next.past value.text).run (more.take k) = (next.past value.text).kept (held k))
    (hZero : held 0 = []) {n : Nat} (hn : n ≤ (lead ++ (value.text ++ more)).length) :
    s.run ((lead ++ (value.text ++ more)).take n) =
      s.kept (match value.held? (n - lead.length) with
        | some part => lead ++ part.text ++ held (n - lead.length - value.text.length)
        | none => []) := by
  have hKept (t : List Char) : next.kept t = s.kept (lead ++ t) := by
    simp [State.kept, hTaken, hStack, State.read]
  simp only [List.length_append] at hn
  rcases Nat.lt_or_ge lead.length n with hInside | hBefore
  · obtain ⟨k, rfl⟩ : ∃ k, n = lead.length + k := ⟨n - lead.length, by omega⟩
    rw [List.take_length_add_append, hLead.run_append, Nat.add_sub_cancel_left]
    rcases Nat.lt_or_ge k value.text.length with hLt | hGe
    · -- the text ends inside the value, so nothing behind it is held
      have hNone : k - value.text.length = 0 := by omega
      rw [List.take_append_of_le_length (Nat.le_of_lt hLt), hValue, hNone, hZero]
      cases value.held? k with
      | none => exact hLead.cut_eq.trans hReady.cut
      | some part =>
        show next.kept part.text = s.kept (lead ++ part.text ++ [])
        rw [hKept, List.append_nil]
    · -- the value is whole, and what follows it is as in the assumption
      obtain ⟨j, rfl⟩ : ∃ j, k = value.text.length + j := ⟨k - value.text.length, by omega⟩
      rw [List.take_length_add_append, run_value value _ hAt (ends_take hEnds j),
        hRest j (by omega), Nat.add_sub_cancel_left, value.held?_of_length_le (by omega)]
      have hPast := State.kept_past next [] value.text (held j)
      rw [State.read_nil, List.nil_append, hKept] at hPast
      rw [hPast]
      show _ = s.kept (lead ++ value.text ++ held j)
      rw [List.append_assoc]
  · -- the text ends before the value, where nothing is marked
    have hNone : n - lead.length = 0 := by omega
    rw [List.take_append_of_le_length hBefore, hLead.run_take, hNone, value.held?_zero]
    exact hReady.cut

mutual

/-- A text that ends inside a value keeps what it holds of the value. -/
theorem take_value : ∀ (w : Written) {s : State} (n : Nat), AtValue s →
    s.run (w.text.take n) = s.outcome (w.held? n)
  | .name m, _, n, hValue => take_name hValue m n
  | .numeral t, _, n, hValue => take_numeral hValue t n
  | .string t, _, n, hValue => take_string hValue t n
  | .array items gap, s, n, hValue => by
    have hItems := fun m hm =>
      take_items items true gap (n := m) (Ready.opened (s := s) hValue.mode .array) hm
    rcases Nat.eq_zero_or_pos n with rfl | hPos
    · exact State.finish_of_outside hValue.mode
    · rcases Nat.lt_or_ge n (Written.array items gap).text.length with hLt | hGe
      · exact take_array hValue.mode hValue.expectsKey hItems hPos hLt
      · exact take_whole hValue hGe
  | .object members gap, s, n, hValue => by
    have hMembers := fun m hm =>
      take_members members true gap (n := m) (Ready.opened (s := s) hValue.mode .object) hm
    rcases Nat.eq_zero_or_pos n with rfl | hPos
    · exact State.finish_of_outside hValue.mode
    · rcases Nat.lt_or_ge n (Written.object members gap).text.length with hLt | hGe
      · exact take_object hValue.mode hValue.expectsKey hMembers hPos hLt
      · exact take_whole hValue hGe

/-- Of cut items those are kept whose text holds a value. -/
theorem take_items : ∀ (items : WrittenItems) (first : Bool) (gap : Gap) {s : State} {n : Nat},
    Ready s .array first → n ≤ (items.text first ++ gap.1).length →
    s.run ((items.text first ++ gap.1).take n) = s.kept ((items.held first n).text first)
  | .nil, first, gap, s, n, hReady, _ => by
    rw [WrittenItems.text, List.nil_append, (quiet_gap hReady.mode gap).run_take, hReady.cut]
    rfl
  | .cons outer inner value tail, first, gap, s, n, hReady, hn => by
    have hAt := hReady.atValue_read (itemLead first outer inner)
    have hLead := quiet_itemLead hReady.mode hReady.top hReady.expectsKey first outer inner
    have hNext := ready_past hAt hReady.top value
    simp only [WrittenItems.text, List.append_assoc] at hn ⊢
    rw [take_led (fun k => (tail.held false k).text false) hReady hLead rfl rfl hAt
      (ends_items tail (ends_gap gap)) (fun k => take_value value k hAt)
      (fun k hk => take_items tail false gap hNext hk) (by rw [tail.held_zero]; rfl) hn,
      WrittenItems.held]
    cases value.held? (n - (itemLead first outer inner).length) with
    | none => rfl
    | some part => rfl

/-- Of cut members those are kept whose value is held, and no key without a value. -/
theorem take_members : ∀ (members : WrittenMembers) (first : Bool) (gap : Gap) {s : State}
    {n : Nat}, Ready s .object first → n ≤ (members.text first ++ gap.1).length →
    s.run ((members.text first ++ gap.1).take n) = s.kept ((members.held first n).text first)
  | .nil, first, gap, s, n, hReady, _ => by
    rw [WrittenMembers.text, List.nil_append, (quiet_gap hReady.mode gap).run_take, hReady.cut]
    rfl
  | .cons outer inner key before after value tail, first, gap, s, n, hReady, hn => by
    have hAt := hReady.atValue_member (memberLead first outer inner key before after)
    have hLead := quiet_memberLead hReady.mode hReady.top first hReady.expectsKey outer inner key
      before after
    have hNext := ready_past hAt hReady.top value
    simp only [WrittenMembers.text, List.append_assoc] at hn ⊢
    rw [take_led (fun k => (tail.held false k).text false) hReady hLead rfl rfl hAt
      (ends_members tail (ends_gap gap)) (fun k => take_value value k hAt)
      (fun k hk => take_members tail false gap hNext hk) (by rw [tail.held_zero]; rfl) hn,
      WrittenMembers.held]
    -- a member is held once its value is, even a beginning of it
    cases value.held? (n - (memberLead first outer inner key before after).length) with
    | none => rfl
    | some part => rfl

end

/-! ## Cut pages -/

/-- The root of a page is gone over as a container inside no other one. -/
theorem run_root {w : Written} (hRoot : w.isContainer = true) {s : State}
    (hMode : s.mode = .outside) (hKey : s.expectsKey = false) (hStack : s.stack = []) :
    (∀ rest, s.run (w.text ++ rest) = s.taken.reverse ++ w.text) ∧
      ∀ n, 0 < n → n < w.text.length → s.run (w.text.take n) = s.outcome (w.held? n) := by
  have hEmpty : s.stack.isEmpty = true := by simp [hStack]
  -- on an empty stack the bracket that closes the root ends the run
  cases w with
  | name m => simp [Written.isContainer] at hRoot
  | numeral t => simp [Written.isContainer] at hRoot
  | string t => simp [Written.isContainer] at hRoot
  | array items gap =>
    have hReady := Ready.opened hMode .array
    refine ⟨fun rest => ?_, fun n hPos hn => ?_⟩
    · have hInner := run_items items true gap rest hReady
      rw [← List.append_assoc] at hInner
      have hRun := run_container hMode hKey hInner
      rwa [if_pos hEmpty] at hRun
    · exact take_array hMode hKey (fun m hm => take_items items true gap hReady hm) hPos hn
  | object members gap =>
    have hReady := Ready.opened hMode .object
    refine ⟨fun rest => ?_, fun n hPos hn => ?_⟩
    · have hInner := run_members members true gap rest hReady
      rw [← List.append_assoc] at hInner
      have hRun := run_container hMode hKey hInner
      rwa [if_pos hEmpty] at hRun
    · exact take_object hMode hKey (fun m hm => take_members members true gap hReady hm) hPos hn

/-- The repaired beginning of a page is what it holds of the root. -/
theorem repair_take (p : Page) (hRoot : p.root.isContainer = true) {n : Nat} (hn : 0 < n) :
    ∃ part, p.root.held? n = some part ∧
      repair (p.text.take (p.before.1.length + n)) = p.before.1 ++ part.text := by
  have hBefore := quiet_gap (s := {}) rfl p.before
  obtain ⟨hWhole, hCut⟩ := run_root hRoot (s := ({} : State).read p.before.1) rfl rfl rfl
  have hTaken : (({} : State).read p.before.1).taken.reverse = p.before.1 := by simp [State.read]
  rw [Page.text, List.append_assoc, List.take_length_add_append, repair, hBefore.run_append]
  rcases Nat.lt_or_ge n p.root.text.length with hLt | hGe
  · rw [List.take_append_of_le_length (Nat.le_of_lt hLt), hCut n hn hLt]
    -- a container is held as soon as its opening bracket is
    have hHeld : ∃ part, p.root.held? n = some part := by
      cases hw : p.root with
      | array items gap => exact ⟨_, by rw [Written.held?, if_neg (by omega)]⟩
      | object members gap => exact ⟨_, by rw [Written.held?, if_neg (by omega)]⟩
      | name m => simp [hw, Written.isContainer] at hRoot
      | numeral t => simp [hw, Written.isContainer] at hRoot
      | string t => simp [hw, Written.isContainer] at hRoot
    obtain ⟨part, hPart⟩ := hHeld
    refine ⟨part, hPart, ?_⟩
    rw [hPart, State.outcome, State.kept, hTaken]
    exact List.append_nil _
  · refine ⟨p.root, p.root.held?_of_length_le hGe, ?_⟩
    rw [List.take_append, List.take_of_length_le hGe, hWhole, hTaken]

/-- Take a text that reads as an array or an object. However its blanks, names, numerals and
strings are made out, and wherever behind the opening bracket of the root the text is cut, the
repaired text reads as what the beginning holds of the root; and the repaired whole text reads as
the whole text does. -/
theorem read?_repair_of_prefix {text : List Char} {v : Json} (hRead : Json.read? text = some v)
    (hRoot : v.isContainer = true) :
    (∃ page : Page, page.text = text) ∧
    (∀ page : Page, page.text = text →
      page.root.document.toJson? = some v ∧
      ∀ start, start <+: text → page.before.1.length < start.length →
        ∃ part u, page.root.held? (start.length - page.before.1.length) = some part ∧
          part.document.toJson? = some u ∧
          Document.read? (repair start) = some part.document ∧
          Json.read? (repair start) = some u) ∧
    Json.read? (repair text) = some v := by
  have hPages (page : Page) (hText : page.text = text) :
      page.root.document.toJson? = some v ∧
      ∀ start, start <+: text → page.before.1.length < start.length →
        ∃ part u, page.root.held? (start.length - page.before.1.length) = some part ∧
          part.document.toJson? = some u ∧
          Document.read? (repair start) = some part.document ∧
          Json.read? (repair start) = some u := by
    have hValue : page.root.document.toJson? = some v := by
      rw [← hText, Json.read?, page.read?_text] at hRead
      exact hRead
    refine ⟨hValue, fun start hStart hLength => ?_⟩
    have hContainer : page.root.isContainer = true := by
      rw [← Written.isContainer_of_toJson? hValue, hRoot]
    obtain ⟨part, hPart, hRepair⟩ := repair_take page hContainer
      (n := start.length - page.before.1.length) (by omega)
    have hTake : page.text.take (page.before.1.length + (start.length - page.before.1.length)) =
        start := by
      rw [hText, Nat.add_sub_cancel' (Nat.le_of_lt hLength)]
      exact (List.prefix_iff_eq_take.mp hStart).symm
    obtain ⟨u, hu⟩ := part.toJson?_document
    -- the repaired text is a page of its own
    have hDocument := Page.read?_text ⟨page.before, part, Gap.none,
      Nat.le_trans (page.root.depth_le_of_held? hPart) page.depth_le⟩
    rw [Page.text, Gap.none, List.append_nil, ← hRepair, hTake] at hDocument
    refine ⟨part, u, hPart, hu, hDocument, ?_⟩
    rw [Json.read?, hDocument]
    exact hu
  obtain ⟨page, hText, -⟩ := read?_eq_some_iff.mp hRead
  refine ⟨⟨page, hText⟩, hPages, ?_⟩
  obtain ⟨hValue, hStarts⟩ := hPages page hText
  obtain ⟨c, rest, hCons, -⟩ := page.root.text_eq_cons
  have hLength : page.before.1.length + page.root.text.length ≤ text.length := by
    rw [← hText, Page.text, List.length_append, List.length_append]
    omega
  have hPos : 0 < page.root.text.length := by simp [hCons]
  obtain ⟨part, u, hPart, hu, -, hWhole⟩ := hStarts text (List.prefix_refl _) (by omega)
  rw [page.root.held?_of_length_le (by omega), Option.some.injEq] at hPart
  rw [← hPart, hValue, Option.some.injEq] at hu
  rw [hWhole, hu]

/-- An array of a numeral and an object, with blanks before the object and before its value. -/
def nestedPage : Page where
  before := Gap.none
  root :=
    let blank : Gap := ⟨[' '], by simp [isSpace]⟩
    let member := WrittenMembers.cons Gap.none Gap.none ⟨['a'], "a", rfl⟩ Gap.none blank
      (.name .yes) .nil
    .array (.cons Gap.none Gap.none (.numeral ⟨['2', '5'], .int 25, rfl⟩)
      (.cons Gap.none blank (.object member Gap.none) .nil)) Gap.none
  after := Gap.none
  depth_le := by decide

/-- A cut inside the name: the member is dropped with its key, and the object before it is closed. A
cut inside the numeral leaves what is there of it. -/
theorem read?_repair_of_prefix_nested :
    let text := "[25, \x7b\"a\": true\x7d]".toList
    let v : Json := .array [.int 25, .object [("a", .bool true)]]
    let inName := "[25, \x7b\"a\": tr".toList
    let inNumeral := "[2".toList
    Json.read? text = some v ∧ v.isContainer = true ∧ nestedPage.text = text ∧
      inName <+: text ∧ inNumeral <+: text ∧ nestedPage.before.1.length < inNumeral.length ∧
      (∃ part, nestedPage.root.held? inName.length = some part ∧
        part.document.toJson? = some (.array [.int 25, .object []]) ∧
        Json.read? (repair inName) = some (.array [.int 25, .object []])) ∧
      (∃ part, nestedPage.root.held? inNumeral.length = some part ∧
        part.document.toJson? = some (.array [.int 2]) ∧
        Json.read? (repair inNumeral) = some (.array [.int 2])) ∧
      Json.read? (repair text) = some v := by
  intro text v inName inNumeral
  have hDocument : Document.read? text =
      some (.array [.number (.int 25), .object [("a", .bool true)]]) := rfl
  have hRead : Json.read? text = some v := by
    rw [Json.read?, hDocument]
    rfl
  obtain ⟨-, hPages, hWhole⟩ := read?_repair_of_prefix hRead rfl
  obtain ⟨-, hStarts⟩ := hPages nestedPage rfl
  -- what is held of the root says what the repaired text says
  have hHolds {start : List Char} {d : Document} {u : Json} (hStart : start <+: text)
      (hLength : 0 < start.length) (hRepaired : Document.read? (repair start) = some d)
      (hSays : d.toJson? = some u) : ∃ part, nestedPage.root.held? start.length = some part ∧
        part.document.toJson? = some u ∧ Json.read? (repair start) = some u := by
    obtain ⟨part, u', hPart, hPartSays, hPartRead, hReads⟩ := hStarts start hStart hLength
    rw [hRepaired, Option.some.injEq] at hPartRead
    rw [← hPartRead, hSays, Option.some.injEq] at hPartSays
    rw [← hPartSays] at hReads
    exact ⟨part, hPart, hPartRead ▸ hSays, hReads⟩
  have hInName : inName <+: text := ⟨"ue\x7d]".toList, rfl⟩
  have hInNumeral : inNumeral <+: text := ⟨"5, \x7b\"a\": true\x7d]".toList, rfl⟩
  have hName : Document.read? (repair inName) =
      some (.array [.number (.int 25), .object []]) := rfl
  have hNumeral : Document.read? (repair inNumeral) = some (.array [.number (.int 2)]) := rfl
  exact ⟨hRead, rfl, rfl, hInName, hInNumeral, by decide, hHolds hInName (by decide) hName rfl,
    hHolds hInNumeral (by decide) hNumeral rfl, hWhole⟩

end Onboarding.Repair
