import Mathlib.Data.List.Basic
import Onboarding.Proofs.Variables.Agreement

/-!
# Onboarding — where the tokens of a template stand

The segments of a template are found by one pass over its characters that keeps
at most one brace open. Tokens are described without the pass: a token stands
wherever the text goes on with a name in braces (`TokenAt`). Names hold no brace,
so two tokens never overlap, and no choice is left to the pass: its segments hold
a token at a position exactly if one stands there.

The proof goes over the pass with what stands before the rest of the text, an
open brace and the name so far (`opened`).

## Results

* `mem_placed_parseFrom` — the pass misses no token.
* `tokenAt_iff` — a token stands exactly where the segments have one.
* `resolve_at_tokens` — what resolving replaces, and by what.
-/

namespace Onboarding.Template

/-! ## Tokens of a text -/

/-- Whether a text can be the name of a token. -/
def IsName (name : List Char) : Prop := name ≠ [] ∧ '{' ∉ name ∧ '}' ∉ name

/-- A token as it is written. -/
def written (name : List Char) : List Char := '{' :: (name ++ ['}'])

/-- At the position of the text there stands a token of the name. -/
def TokenAt (text : List Char) (position : Nat) (name : List Char) : Prop :=
  IsName name ∧ ∃ before after, text = before ++ (written name ++ after) ∧ before.length = position

/-- A segment with a text in the place of its token; a character is copied. -/
def Segment.fill (value : List Char → List Char) : Segment → List Char
  | char c => [c]
  | token name => value name

/-- The tokens among segments that begin at `start`, each with its position in the text. -/
def placed (start : Nat) : List Segment → List (Nat × List Char)
  | [] => []
  | .char _ :: rest => placed (start + 1) rest
  | .token name :: rest => (start, name) :: placed (start + (written name).length) rest

/-- What a name stands for: the text of the variable's value, or the token itself. -/
def meaning (vars : Variables) (name : List Char) : List Char :=
  match vars.get? (String.ofList name) with
  | some value => value.display.toList
  | none => written name

/-! ## Segments -/

theorem source_eq_fill (segment : Segment) : segment.source = segment.fill written := by
  cases segment <;> rfl

theorem resolve_eq_fill (vars : Variables) (segment : Segment) :
    segment.resolve vars = segment.fill (meaning vars) := by
  cases segment with
  | char c => rfl
  | token name =>
    simp only [Segment.resolve, Segment.fill, meaning]
    cases vars.get? (String.ofList name) with
    | none => rfl
    | some value => simp [Json.display]

/-- Behind copied characters the tokens are those of the rest. -/
theorem placed_chars_append (start : Nat) (chars : List Char) (rest : List Segment) :
    placed start (chars.map Segment.char ++ rest) = placed (start + chars.length) rest := by
  induction chars generalizing start with
  | nil => rfl
  | cons c chars ih =>
    rw [List.map_cons, List.cons_append, placed, ih, List.length_cons, Nat.add_assoc,
      Nat.add_comm 1]

/-- The names of the segments are those of their tokens. -/
theorem names_eq_map_placed (start : Nat) (segments : List Segment) :
    segments.filterMap Segment.name? =
      (placed start segments).map fun token => String.ofList token.2 := by
  induction segments generalizing start with
  | nil => rfl
  | cons segment rest ih =>
    cases segment with
    | char c => exact ih (start + 1)
    | token name =>
      rw [placed, List.map_cons, ← ih]
      rfl

/-- No token stands before its segments. -/
theorem start_le_of_mem_placed {segments : List Segment} {start : Nat} {token : Nat × List Char}
    (h : token ∈ placed start segments) : start ≤ token.1 := by
  induction segments generalizing start with
  | nil => cases h
  | cons segment rest ih =>
    cases segment with
    | char c =>
      have hRest := ih h
      omega
    | token name =>
      rw [placed, List.mem_cons] at h
      rcases h with rfl | h
      · exact Nat.le_refl start
      · have hRest := ih h
        omega

/-- Each token ends before the next one begins. -/
theorem pairwise_placed (start : Nat) (segments : List Segment) :
    (placed start segments).Pairwise fun token next =>
      token.1 + (written token.2).length ≤ next.1 := by
  induction segments generalizing start with
  | nil => exact List.Pairwise.nil
  | cons segment rest ih =>
    cases segment with
    | char c => exact ih (start + 1)
    | token name =>
      rw [placed, List.pairwise_cons]
      exact ⟨fun next hNext => start_le_of_mem_placed hNext, ih _⟩

/-- A token among segments stands in their text. -/
theorem exists_of_mem_placed {segments : List Segment} {start position : Nat} {name : List Char}
    (h : (position, name) ∈ placed start segments) :
    .token name ∈ segments ∧ ∃ before after,
      segments.flatMap Segment.source = before ++ (written name ++ after) ∧
        start + before.length = position := by
  -- the start moves on by what the segments before it write
  induction segments generalizing start with
  | nil => cases h
  | cons segment rest ih =>
    cases segment with
    | char c =>
      obtain ⟨hMem, before, after, hText, hLength⟩ := ih h
      refine ⟨List.mem_cons_of_mem _ hMem, c :: before, after, ?_, ?_⟩
      · rw [List.flatMap_cons, hText]
        rfl
      · rw [List.length_cons]
        omega
    | token other =>
      rw [placed, List.mem_cons, Prod.mk.injEq] at h
      rcases h with ⟨rfl, rfl⟩ | h
      · exact ⟨List.mem_cons_self, [], rest.flatMap Segment.source, rfl, rfl⟩
      · obtain ⟨hMem, before, after, hText, hLength⟩ := ih h
        refine ⟨List.mem_cons_of_mem _ hMem, written other ++ before, after, ?_, ?_⟩
        · rw [List.flatMap_cons, hText, List.append_assoc]
          rfl
        · rw [List.length_append]
          omega

/-! ## The pass over the characters -/

/-- What stands before the rest of the text: an open brace and the name so far, or nothing. -/
def opened : Option (List Char) → List Char
  | none => []
  | some name => '{' :: name.reverse

/-- Whether what stands in an open brace may go on to be a name. -/
def Opened (state : Option (List Char)) : Prop :=
  ∀ name ∈ state, '{' ∉ name ∧ '}' ∉ name

theorem opened_none : Opened none := by
  intro name hName
  cases hName

theorem opened_nil : Opened (some []) := by
  intro name hName
  cases hName
  exact ⟨List.not_mem_nil, List.not_mem_nil⟩

theorem Opened.cons {c : Char} {name : List Char} (h : Opened (some name))
    (hName : isNameChar c = true) : Opened (some (c :: name)) := by
  obtain ⟨hOpen, hClose⟩ := h name rfl
  simp only [isNameChar, Bool.and_eq_true, bne_iff_ne] at hName
  intro other hOther
  cases hOther
  simp only [List.mem_cons, not_or]
  exact ⟨⟨hName.1.symm, hOpen⟩, hName.2.symm, hClose⟩

/-- The pass takes only names for tokens. -/
theorem isName_of_mem_parseFrom {text : List Char} {state : Option (List Char)} {name : List Char}
    (hState : Opened state) (h : .token name ∈ parseFrom state text) : IsName name := by
  induction text generalizing state with
  | nil =>
    -- what is left open is copied
    cases state <;> simp [parseFrom] at h
  | cons c rest ih =>
    cases state with
    | none =>
      rw [parseFrom] at h
      split at h
      · exact ih opened_nil h
      · simp only [List.mem_cons, reduceCtorEq, false_or] at h
        exact ih opened_none h
    | some taken =>
      obtain ⟨hOpen, hClose⟩ := hState taken rfl
      rw [parseFrom] at h
      split at h
      · -- the token that ends here
        next hEnd =>
        rw [List.mem_cons, Segment.token.injEq] at h
        rcases h with rfl | h
        · exact ⟨by simpa using hEnd.2, by simpa using hOpen, by simpa using hClose⟩
        · exact ih opened_none h
      · split at h
        · next hName => exact ih (hState.cons hName) h
        · split at h
          · simp only [List.cons_append, List.mem_cons, List.mem_append, List.mem_map,
              reduceCtorEq, and_false, exists_false, false_or] at h
            exact ih opened_nil h
          · simp only [List.cons_append, List.mem_cons, List.mem_append, List.mem_map,
              reduceCtorEq, and_false, exists_false, false_or] at h
            exact ih opened_none h

/-- The pass takes only names for tokens. -/
theorem isName_of_mem_parse {text name : List Char} (h : .token name ∈ parse text) :
    IsName name :=
  isName_of_mem_parseFrom opened_none h

/-! ## No token is missed -/

/-- A character that the front does not hold stands behind the front. -/
theorem exists_of_front {c : Char} {front rest before tail : List Char} (hFront : c ∉ front)
    (h : front ++ rest = before ++ c :: tail) :
    ∃ between, before = front ++ between ∧ rest = between ++ c :: tail := by
  rcases List.append_eq_append_iff.mp h with ⟨between, rfl, hRest⟩ | ⟨more, rfl, hTail⟩
  · exact ⟨between, rfl, hRest⟩
  · cases more with
    | nil => exact ⟨[], by simp, by simpa using hTail.symm⟩
    | cons d more =>
      rw [List.cons_append, List.cons.injEq] at hTail
      obtain ⟨rfl, -⟩ := hTail
      exact absurd (by simp) hFront

/-- A brace behind the name so far ends a token of just that name, or no token begins at the open
brace. -/
theorem token_cases {c : Char} {front rest before name after : List Char}
    (hFront : '{' ∉ front ∧ '}' ∉ front) (hName : IsName name) (hBrace : isNameChar c = false)
    (h : '{' :: front ++ c :: rest = before ++ (written name ++ after)) :
    (before = [] ∧ c = '}' ∧ name = front) ∨
      ∃ between, before = '{' :: front ++ between ∧
        c :: rest = between ++ (written name ++ after) := by
  cases before with
  | nil =>
    left
    -- the first closing brace is the one that ends the name
    have hText : front ++ c :: rest = name ++ '}' :: after := by simpa [written] using h
    obtain ⟨between, hSame, hRest⟩ := exists_of_front hFront.2 hText
    cases between with
    | nil =>
      rw [List.nil_append, List.cons.injEq] at hRest
      rw [List.append_nil] at hSame
      exact ⟨rfl, hRest.1, hSame⟩
    | cons d between =>
      rw [List.cons_append, List.cons.injEq] at hRest
      obtain ⟨rfl, -⟩ := hRest
      obtain ⟨-, hOpen, hClose⟩ := hName
      have hMem : c ∈ name := by simp [hSame]
      have hNotOpen : c ≠ '{' := fun hc => hOpen (hc ▸ hMem)
      have hNotClose : c ≠ '}' := fun hc => hClose (hc ▸ hMem)
      simp [isNameChar, hNotOpen, hNotClose] at hBrace
  | cons d before =>
    right
    rw [List.cons_append, List.cons_append, List.cons.injEq] at h
    obtain ⟨rfl, h⟩ := h
    obtain ⟨between, rfl, hRest⟩ := exists_of_front hFront.1 h
    exact ⟨between, rfl, hRest⟩

/-- Wherever a token stands, the pass has one. -/
theorem mem_placed_parseFrom {text : List Char} {state : Option (List Char)}
    {before name after : List Char} (start : Nat) (hState : Opened state) (hName : IsName name)
    (h : opened state ++ text = before ++ (written name ++ after)) :
    (start + before.length, name) ∈ placed start (parseFrom state text) := by
  induction text generalizing state before start with
  | nil =>
    -- a token ends with a brace, and what was taken holds none
    have hClose : '}' ∈ opened state ++ [] := by
      rw [h]
      simp [written]
    cases state with
    | none => cases hClose
    | some taken =>
      obtain ⟨-, hTaken⟩ := hState taken rfl
      simp [opened, hTaken] at hClose
  | cons c rest ih =>
    -- a token behind a character that is copied or ends another token
    have hBehind {between : List Char} (start : Nat) (hOpen : c ≠ '{')
        (hThere : c :: rest = between ++ (written name ++ after)) :
        (start + between.length, name) ∈ placed (start + 1) (parseFrom none rest) := by
      have hFront : '{' ∉ [c] := by simpa using hOpen.symm
      obtain ⟨between, rfl, hRest⟩ := exists_of_front hFront hThere
      have hMem := ih (start + 1) opened_none hRest
      rwa [List.length_append, ← Nat.add_assoc]
    cases state with
    | none =>
      rw [parseFrom]
      split
      · next hOpen =>
        -- the brace may open a token
        subst hOpen
        exact ih start opened_nil h
      · next hOpen => exact hBehind start hOpen h
    | some taken =>
      have hTaken : '{' ∉ taken.reverse ∧ '}' ∉ taken.reverse := by
        simpa using hState taken rfl
      rw [parseFrom]
      split
      · next hEnd =>
        -- the name so far is a token; another one may follow it
        obtain ⟨rfl, -⟩ := hEnd
        rw [placed]
        rcases token_cases hTaken hName rfl h with ⟨rfl, -, rfl⟩ | ⟨between, rfl, hThere⟩
        · exact List.mem_cons_self
        · have hMem := hBehind (start + ('{' :: taken.reverse).length) (by decide) hThere
          rw [List.length_append, ← Nat.add_assoc]
          refine List.mem_cons_of_mem _ ?_
          simpa [written, Nat.add_assoc] using hMem
      · split
        · next hChar =>
          -- the name goes on
          exact ih start (hState.cons hChar) (by simpa [opened] using h)
        · next hNotEnd hNotName =>
          have hBrace : isNameChar c = false := by simpa using hNotName
          split
          · next hAgain =>
            -- another brace opens: what was open is copied
            subst hAgain
            rcases token_cases hTaken hName hBrace h with ⟨-, hc, -⟩ | ⟨between, rfl, hThere⟩
            · cases hc
            · have hMem := ih (start + ('{' :: taken.reverse).length) opened_nil hThere
              have hPlaced := placed_chars_append start ('{' :: taken.reverse)
                (parseFrom (some []) rest)
              rw [List.map_cons] at hPlaced
              rw [hPlaced, List.length_append, ← Nat.add_assoc]
              exact hMem
          · next hNotOpen =>
            -- a closing brace right behind the opening one: both are copied
            rcases token_cases hTaken hName hBrace h with ⟨-, rfl, rfl⟩ | ⟨between, rfl, hThere⟩
            · obtain ⟨hNonempty, -⟩ := hName
              exact absurd ⟨rfl, by simpa using hNonempty⟩ hNotEnd
            · have hMem := hBehind (start + ('{' :: taken.reverse).length) hNotOpen hThere
              have hPlaced := placed_chars_append start ('{' :: taken.reverse)
                (.char c :: parseFrom none rest)
              rw [List.map_cons, placed] at hPlaced
              rw [hPlaced, List.length_append, ← Nat.add_assoc]
              exact hMem

/-- A token stands at a position exactly if the segments have one there. -/
theorem tokenAt_iff {text name : List Char} {position : Nat} :
    TokenAt text position name ↔ (position, name) ∈ placed 0 (parse text) := by
  constructor
  · rintro ⟨hName, before, after, hText, rfl⟩
    have hMem : (0 + before.length, name) ∈ placed 0 (parseFrom none text) :=
      mem_placed_parseFrom 0 opened_none hName hText
    rwa [Nat.zero_add] at hMem
  · intro hMem
    obtain ⟨hToken, before, after, hText, hLength⟩ := exists_of_mem_placed hMem
    rw [source_parse] at hText
    rw [Nat.zero_add] at hLength
    exact ⟨isName_of_mem_parse hToken, before, after, hText, hLength⟩

-- an open brace before a token, the token, and an empty pair of braces behind it
example : placed 0 (parse ['{', '{', 'a', '}', '{', '}', '}']) = [(1, ['a'])] := by decide

/-! ## Resolving -/

/-- A text none of whose tokens has a value is left as it is. -/
theorem resolve_of_unbound {text : String} {vars : Variables}
    (h : ∀ name ∈ tokens text, vars.get? name = none) : resolve text vars = text := by
  have hSegment : ∀ segment ∈ parse text.toList, segment.resolve vars = segment.source := by
    intro segment hMem
    cases segment with
    | char c => rfl
    | token name =>
      have hNone := h (String.ofList name) (List.mem_filterMap.mpr ⟨.token name, hMem, rfl⟩)
      rw [Segment.resolve, hNone]
  rw [resolve, List.flatMap_congr hSegment, source_parse, String.ofList_toList]

/-- A text is cut at its tokens, all of them, wherever they stand; they do not overlap and are
listed in the order in which they stand. Resolving puts in the place of each token what its name
stands for and copies all the rest. So over variables that agree on the listed names a text resolves
to the same, and a text none of whose tokens has a value to itself. -/
theorem resolve_at_tokens (text : String) :
    ∃ segments : List Segment,
      segments.flatMap (Segment.fill written) = text.toList ∧
      (∀ position name,
        TokenAt text.toList position name ↔ (position, name) ∈ placed 0 segments) ∧
      ((placed 0 segments).Pairwise fun token next =>
        token.1 + (written token.2).length ≤ next.1) ∧
      tokens text = (placed 0 segments).map (fun token => String.ofList token.2) ∧
      ∀ vars : Variables,
        resolve text vars = String.ofList (segments.flatMap (Segment.fill (meaning vars))) ∧
        (∀ others, Variables.AgreeOn (tokens text) vars others →
          resolve text vars = resolve text others) ∧
        ((∀ name ∈ tokens text, vars.get? name = none) → resolve text vars = text) := by
  refine ⟨parse text.toList, ?_, fun position name => tokenAt_iff,
    pairwise_placed 0 (parse text.toList), names_eq_map_placed 0 (parse text.toList),
    fun vars => ⟨?_, ?_, resolve_of_unbound⟩⟩
  · -- the segments are those the parser finds: their sources are the text
    have hSource := source_parse text.toList
    rwa [List.flatMap_congr fun segment _ => source_eq_fill segment] at hSource
  · rw [resolve, List.flatMap_congr fun segment _ => resolve_eq_fill vars segment]
  · intro others hAgree
    exact resolve_congr hAgree

/-- A value that looks like a token is not resolved again, and a variable without a token does not
matter. -/
theorem resolve_at_tokens_twice :
    let text := String.ofList ['{', '{', 'a', '}', '{', 'b', '}']
    let vars : Variables :=
      .ofList [("a", .string (String.ofList ['{', 'b', '}'])), ("b", .int 2), ("c", .null)]
    let others : Variables :=
      .ofList [("a", .string (String.ofList ['{', 'b', '}'])), ("b", .int 2)]
    tokens text = ["a", "b"] ∧ Variables.AgreeOn (tokens text) vars others ∧
      resolve text vars = resolve text others ∧
      resolve text others = String.ofList ['{', '{', 'b', '}', '2'] := by
  intro text vars others
  have hTokens : tokens text = ["a", "b"] := by decide
  have hAgree : Variables.AgreeOn (tokens text) vars others := by
    rw [hTokens]
    simp only [Variables.AgreeOn, List.forall_mem_cons]
    exact ⟨rfl, rfl, fun _ h => absurd h List.not_mem_nil⟩
  obtain ⟨segments, -, -, -, -, hResolve⟩ := resolve_at_tokens text
  exact ⟨hTokens, hAgree, (hResolve vars).2.1 others hAgree, by decide⟩

end Onboarding.Template
