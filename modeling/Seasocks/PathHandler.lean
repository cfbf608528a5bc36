import Seasocks.CrackedUri
import Seasocks.World

/-!
# Path handlers

`PathHandler.cpp` and `RootPageHandler.cpp`: a tree of handlers, in which each inner one takes a segment
off the path before it asks its children.
-/

namespace Seasocks

/-- A `CrackedUriPageHandler` of the application, by its identity. -/
abbrev LeafId := Nat

/-- A `CrackedUriPageHandler`: one of the application, or a `PathHandler`. -/
inductive UriHandler where
  | leaf (id : LeafId)
  | path (label : Bytes) (handlers : List UriHandler)

/-- A call of a handler of the application. -/
structure Invocation where
  leaf : LeafId
  uri : CrackedUri
  request : PageRequest

/-- What the handlers of the application answer, which may depend on all calls before. -/
abbrev LeafAnswers := List Invocation → Invocation → PageOutcome

variable (answers : LeafAnswers)

mutual

/-- `handle`, with the calls made so far. An exception ends the search as a response does. -/
def UriHandler.handle (handler : UriHandler) (uri : CrackedUri) (request : PageRequest)
    (invoked : List Invocation) : PageOutcome × List Invocation :=
  match handler with
  | .leaf id =>
      (answers invoked ⟨id, uri, request⟩, invoked ++ [⟨id, uri, request⟩])
  | .path label handlers =>
      if uri.path.head? ≠ some label then (.unhandled, invoked)
      else handleAny handlers uri.shift request invoked

/-- The loop over the handlers. -/
def handleAny (handlers : List UriHandler) (uri : CrackedUri) (request : PageRequest)
    (invoked : List Invocation) : PageOutcome × List Invocation :=
  match handlers with
  | [] => (.unhandled, invoked)
  | it :: handlers =>
      match it.handle uri request invoked with
      | (.unhandled, invoked) => handleAny handlers uri request invoked
      | (outcome, invoked) => (outcome, invoked)

end

/-- `RootPageHandler::handle`. -/
def RootPageHandler.handle (buckets : Buckets) (handlers : List UriHandler) (request : PageRequest)
    (invoked : List Invocation) : Except UriError (PageOutcome × List Invocation) := do
  let uri ← CrackedUri.create buckets request.requestUri
  return handleAny answers handlers uri request invoked

end Seasocks
