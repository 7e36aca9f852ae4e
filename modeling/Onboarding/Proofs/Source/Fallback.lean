import Mathlib.Data.List.Induction
import Onboarding.Proofs.Json.Rereading
import Onboarding.Proofs.Wire.Confined
import Onboarding.Source.Cached

/-!
# Onboarding — the last good flow, across restarts

A history of a cached source tells what the inner source answered and when the
source was made anew, with nothing in memory but the file as it was. Behind any
history memory holds the last flow that was fetched well since the last restart,
and the file, if it can be written, the text of the last one of the whole history
(`after_eq`). Memory comes before the file, and both before what the file held at
first, so that the last good flow is served (`fetch_after`).

A flow that comes from the file was written and read again. Everything in it is
kept but a double whose shortest text is read as another one, and there are such
doubles: `fetch_after_inexact`.

## Results

* `Flow.read_write` — a flow that was read is read again from its text if its
  doubles are kept.
* `after_eq` — memory and file behind a history.
* `fetch_after` — what is served behind a history.
-/

namespace Onboarding

/-- A flow that was read from a text is read again from what is written of it, if the text of each
of its doubles is read as that double. -/
theorem Flow.read_write {flow : Flow} {text : String} (hRead : Flow.read text = .ok flow)
    (hKept : ∀ x ∈ flow.toJson.doubles, (Number.float x).Kept) :
    Flow.read flow.write = .ok flow := by
  rw [Flow.read] at hRead
  split at hRead
  · next f hFlow =>
    cases hRead
    obtain ⟨d, hDocument, hFlow⟩ := Option.bind_eq_some_iff.mp hFlow
    -- the written flow nests no deeper than the text, and its integers are those of the text
    have hRange := Flow.confined d flow hFlow _ _ (Document.fits_of_read? hDocument)
    have hAgain := Document.read?_compact (Json.fits_kept hRange hKept)
    rw [Flow.read, Flow.write, Json.compactText, String.toList_ofList, hAgain, Option.bind_some,
      Flow.kept d flow hFlow]
  · cases hRead

namespace CachedSource

/-! ## Histories -/

/-- What happens to a cached source. -/
inductive Event where
  /-- A fetch, with what the inner source answers. -/
  | fetch (answer : Except FetchError Flow)
  /-- The source is made anew; its file stays. -/
  | restart

/-- The flow that the inner source gave. -/
def Event.flow? : Event → Option Flow
  | fetch answer => answer.toOption
  | restart => none

/-- Whether the source is made anew. -/
def Event.isRestart : Event → Bool
  | fetch _ => false
  | restart => true

/-- The source and the text of its file behind an event. -/
def handle (s : CachedSource × Option String) : Event → CachedSource × Option String
  | .fetch answer => (s.1.fetch s.2 answer).1
  | .restart => ({ file := s.1.file }, s.2)

/-- A new source and the text of its file behind a history. -/
def after (file : CacheFile) (disk : Option String) (history : List Event) :
    CachedSource × Option String :=
  history.foldl handle ({ file }, disk)

/-- What a fetch behind a history answers. -/
def fetchAfter (file : CacheFile) (disk : Option String) (history : List Event)
    (answer : Except FetchError Flow) : Except FetchError Flow :=
  ((after file disk history).1.fetch (after file disk history).2 answer).2

/-- The last flow that the inner source gave. -/
def lastGood? (history : List Event) : Option Flow := history.reverse.findSome? Event.flow?

/-- What has happened since the last restart. -/
def lifetime (history : List Event) : List Event :=
  (history.reverse.takeWhile fun e => !e.isRestart).reverse

/-- The last good flow is that of the last event, if it gives one. -/
theorem lastGood?_concat (history : List Event) (e : Event) :
    lastGood? (history ++ [e]) = e.flow?.or (lastGood? history) := by
  rw [lastGood?, List.reverse_append, List.reverse_singleton, List.singleton_append,
    List.findSome?_cons]
  cases e.flow? <;> rfl

theorem lifetime_concat_fetch (history : List Event) (answer : Except FetchError Flow) :
    lifetime (history ++ [.fetch answer]) = lifetime history ++ [.fetch answer] := by
  simp [lifetime, Event.isRestart]

theorem lifetime_concat_restart (history : List Event) : lifetime (history ++ [.restart]) = [] := by
  simp [lifetime, Event.isRestart]

/-- The last flow of a lifetime is the last one of the history. -/
theorem lastGood?_of_lifetime {history : List Event} {flow : Flow}
    (h : lastGood? (lifetime history) = some flow) : lastGood? history = some flow := by
  rw [lastGood?, lifetime, List.reverse_reverse] at h
  rw [lastGood?, ← List.takeWhile_append_dropWhile (p := fun e => !Event.isRestart e)
    (l := history.reverse), List.findSome?_append, h]
  rfl

/-! ## Memory and file -/

/-- What stands in a file behind a history. -/
def written (file : CacheFile) (disk : Option String) (history : List Event) : Option String :=
  match file with
  | .writable => ((lastGood? history).map Flow.write).or disk
  | _ => disk

/-- A flow that is fetched is written, unless the file is blocked. -/
theorem written_concat (file : CacheFile) (disk : Option String) (history : List Event)
    (e : Event) : written file disk (history ++ [e]) =
      match e.flow? with
      | some flow => (remember { file } (written file disk history) flow).2
      | none => written file disk history := by
  cases file <;> simp only [written, lastGood?_concat] <;> cases e.flow? <;> rfl

theorem after_concat (file : CacheFile) (disk : Option String) (history : List Event) (e : Event) :
    after file disk (history ++ [e]) = handle (after file disk history) e := by
  rw [after, List.foldl_append]
  rfl

/-- Memory holds the last flow of the lifetime, the file the text of the last one of all. -/
theorem after_eq (file : CacheFile) (disk : Option String) (history : List Event) :
    after file disk history =
      ({ file, lastGood := lastGood? (lifetime history) }, written file disk history) := by
  induction history using List.reverseRecOn with
  | nil => cases file <;> rfl
  | append_singleton history e ih =>
    rw [after_concat, ih]
    cases e with
    | restart =>
      rw [lifetime_concat_restart, written_concat]
      rfl
    | fetch answer =>
      rw [lifetime_concat_fetch, lastGood?_concat, written_concat]
      cases answer with
      | ok flow => rfl  -- memory and file take the same flow
      | error cause =>
        -- whatever is served, nothing is remembered anew
        simp only [handle, fetch]
        split <;> rfl

/-! ## Fetching -/

/-- What a fetch answers when a flow is remembered or none is. -/
def served (remembered : Option Flow) : Except FetchError Flow → Except FetchError Flow
  | .ok flow => .ok flow
  | .error cause =>
    match remembered with
    | some flow => .ok flow
    | none => .error (.noCache cause)

/-- A fetch answers with its own flow or with the one that is remembered. -/
theorem fetch_eq (c : CachedSource) (disk : Option String) (answer : Except FetchError Flow) :
    (c.fetch disk answer).2 = served (c.remembered? disk) answer := by
  cases answer with
  | ok flow => rfl
  | error cause => cases h : c.remembered? disk <;> simp [fetch, served, h]

/-- The flow that a text is. -/
def readable? (text : String) : Option Flow := (Flow.read text).toOption

/-- **The last good flow is served.** Behind every history a fetch that succeeds is passed on. One
that fails gives the last flow that was fetched well, and without one what the file held at first;
if that is no flow either, the failure is wrapped. A flow from before the last restart has been read
from a text, and its doubles are those that are read from their texts. Without a file the same
holds of each lifetime. -/
theorem fetch_after (history : List Event) (disk : Option String) :
    (∀ file flow, fetchAfter file disk history (.ok flow) = .ok flow) ∧
    ((lastGood? (lifetime history) = none → ∀ flow, lastGood? history = some flow →
        (∃ text, Flow.read text = .ok flow) ∧
          ∀ x ∈ flow.toJson.doubles, (Number.float x).Kept) →
      ∀ answer, fetchAfter .writable disk history answer =
        served ((lastGood? history).or (disk.bind readable?)) answer) ∧
    ∀ answer, fetchAfter .none disk history answer =
      served (lastGood? (lifetime history)) answer := by
  refine ⟨fun file flow => rfl, fun hKept answer => ?_, fun answer => ?_⟩
  · rw [fetchAfter, fetch_eq, after_eq]
    congr 1
    cases hMemory : lastGood? (lifetime history) with
    | some flow =>
      -- memory comes first
      rw [lastGood?_of_lifetime hMemory]
      rfl
    | none =>
      show (((lastGood? history).map Flow.write).or disk).bind readable? = _
      cases hLast : lastGood? history with
      | none => rfl
      | some flow =>
        -- the flow comes back from the file
        obtain ⟨⟨text, hRead⟩, hDoubles⟩ := hKept hMemory flow hLast
        show readable? flow.write = some flow
        rw [readable?, Flow.read_write hRead hDoubles]
        rfl
  · -- a source without a file never looks at the disk
    rw [fetchAfter, fetch_eq, after_eq]
    congr 1
    cases hMemory : lastGood? (lifetime history) <;> rfl

/-- A flow of one component with a double. -/
def chart (ratio : Finite) : Flow where
  screens := [
    { id := "s"
      content := .custom "Chart" (Table.ofList [("ratio", .number (.float ratio))]) }]

/-- The text of such a flow with a numeral. -/
def chartText (ratio : List Char) : List Char :=
  "\x7b\"screens\":[\x7b\"id\":\"s\",\"component\":\"Chart\",\"props\":\x7b\"ratio\":".toList ++
    ratio ++ "\x7d\x7d]\x7d".toList

/-- What such a text says. -/
def chartDocument (ratio : Document) : Document :=
  .object [("screens", .array [.object [("id", .string "s"), ("component", .string "Chart"),
    ("props", .object [("ratio", ratio)])]])]

/-- The text of a chart is read as the chart. -/
theorem read_chartText {ratio : List Char} {x : Finite}
    (hText : Document.read? (chartText ratio) =
      some (chartDocument (Json.Reader.numberOf ratio.reverse)))
    (hRatio : Numeral.read? ratio = some (.float x)) :
    Flow.read (String.ofList (chartText ratio)) = .ok (chart x) := by
  have hNumber : Json.Reader.numberOf ratio.reverse = .number (.float x) := by
    rw [Json.Reader.numberOf, List.reverse_reverse, hRatio]
  rw [Flow.read, String.toList_ofList, hText, hNumber]
  rfl

/-- One half is written and read as it is, so that it comes back from the file. -/
theorem fetch_after_restart :
    let flow := chart ⟨false, Nat.pow 2 1073⟩
    let history : List Event := [.fetch (.ok flow), .fetch (.error (.io "gone")), .restart]
    (lastGood? (lifetime history) = none → ∀ last, lastGood? history = some last →
      (∃ text, Flow.read text = .ok last) ∧ ∀ x ∈ last.toJson.doubles, (Number.float x).Kept) ∧
    fetchAfter .writable none history (.error (.io "gone")) = .ok flow := by
  intro flow history
  have hKept : lastGood? (lifetime history) = none → ∀ last, lastGood? history = some last →
      (∃ text, Flow.read text = .ok last) ∧ ∀ x ∈ last.toJson.doubles, (Number.float x).Kept := by
    intro _ last hLast
    cases hLast
    refine ⟨⟨_, @read_chartText ['0', '.', '5'] _ rfl (by decide +kernel)⟩, ?_⟩
    rintro x (_ | ⟨_, ⟨⟩⟩)
    decide +kernel
  exact ⟨hKept, (fetch_after history none).2.1 hKept (.error (.io "gone"))⟩

/-- The shortest text of the double that is read of this numeral is read as another double, so the
flow that comes back from the file is not the one that was fetched. -/
theorem fetch_after_inexact :
    let flow := chart ⟨false, 8850455244400892 * Nat.pow 2 1021⟩
    Flow.read (String.ofList (chartText "0.98259791907483378".toList)) = .ok flow ∧
      fetchAfter .writable none [.fetch (.ok flow), .restart] (.error (.io "gone")) ≠ .ok flow := by
  refine ⟨read_chartText rfl (by decide +kernel), fun hSame => ?_⟩
  have hDoubles := congrArg
    (fun answer => answer.toOption.map fun flow => flow.toJson.doubles) hSame
  exact absurd hDoubles (by decide +kernel)

end CachedSource

end Onboarding
