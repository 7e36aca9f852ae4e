import Onboarding.Source.Basic

/-!
# Onboarding — the last good flow

A cached source remembers the last flow that its inner source gave, in memory
and, if it has a cache file, as a text there. When the inner source fails, what
is remembered is served instead, memory before file. A file that cannot be
written is not an error; one that holds no flow counts for nothing.
-/

namespace Onboarding

/-- Where a cached source keeps its file. -/
inductive CacheFile where
  /-- There is no file. -/
  | none
  /-- A file that can be written. -/
  | writable
  /-- A file that cannot be written. -/
  | blocked
deriving DecidableEq

/-- What a cached source remembers. -/
structure CachedSource where
  file : CacheFile
  lastGood : Option Flow := none

namespace CachedSource

/-- Remember a flow; the text of the cache file is the state of the disk. -/
def remember (c : CachedSource) (disk : Option String) (flow : Flow) :
    CachedSource × Option String :=
  ({ c with lastGood := some flow },
    match c.file with
    | .writable => some flow.write
    | _ => disk)

/-- The flow that is remembered. -/
def remembered? (c : CachedSource) (disk : Option String) : Option Flow :=
  match c.lastGood with
  | some flow => some flow
  | none =>
    match c.file with
    | .none => none
    | _ => disk.bind fun text => (Flow.read text).toOption

/-- Fetch, given what the inner source answers and the text of the cache file. -/
def fetch (c : CachedSource) (disk : Option String) (inner : Except FetchError Flow) :
    (CachedSource × Option String) × Except FetchError Flow :=
  match inner with
  | .ok flow => (c.remember disk flow, .ok flow)
  | .error cause =>
    match c.remembered? disk with
    | some flow => ((c, disk), .ok flow)
    | none => ((c, disk), .error (.noCache cause))

end CachedSource

end Onboarding
