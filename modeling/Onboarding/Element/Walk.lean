import Onboarding.Element.Basic

/-!
# Onboarding — walking a forest

A walk visits elements in document order. A visitor sees each element with its
ancestors, the root first, keeps a state of its own, and says how to go on:
with the children, past them, or not at all.
-/

namespace Onboarding

/-- How a walk goes on after an element. -/
inductive Step where
  | proceed
  | skipChildren
  | stop
deriving DecidableEq

/-- What a visitor with state `σ` does at an element below the given ancestors. -/
abbrev Visitor (σ : Type) := σ → Element → List Element → σ × Step

namespace Element

variable {σ : Type}

mutual

/-- Walk an element below its ancestors; the flag says whether the walk goes on. -/
def visitOne (visit : Visitor σ) (path : List Element) (s : σ) : Element → σ × Bool
  | node a cs =>
    match visit s (node a cs) path with
    | (s, .stop) => (s, false)
    | (s, .skipChildren) => (s, true)
    | (s, .proceed) => visitAll visit (path ++ [node a cs]) s cs

/-- Walk elements below common ancestors. -/
def visitAll (visit : Visitor σ) (path : List Element) (s : σ) : List Element → σ × Bool
  | [] => (s, true)
  | e :: rest =>
    match visitOne visit path s e with
    | (s, false) => (s, false)
    | (s, true) => visitAll visit path s rest

end

/-- Walk a forest. -/
def walk (visit : Visitor σ) (s : σ) (roots : List Element) : σ := (visitAll visit [] s roots).1

/-! ## Looking up -/

/-- What has been found: the element and the one around it. -/
structure Found where
  element : Element
  parent : Option Element

/-- Stop at the first element with an id. -/
def findVisitor (id : String) : Visitor (Option Found) := fun s e path =>
  if e.id = id then (some ⟨e, path.getLast?⟩, .stop) else (s, .proceed)

/-- The first element with an id, with its parent. -/
def locate? (roots : List Element) (id : String) : Option Found :=
  walk (findVisitor id) none roots

/-- The first element with an id. -/
def find? (roots : List Element) (id : String) : Option Element :=
  (locate? roots id).map Found.element

/-- The parent of the first element with an id, if that is no root. -/
def parentOf? (roots : List Element) (id : String) : Option Element :=
  (locate? roots id).bind Found.parent

end Element

end Onboarding
