import Seasocks.PathHandler

/-!
# Which handlers are asked

The handlers of the application that a request reaches are those whose labels match the front of its path,
from left to right, until one does not leave the request unhandled. Matching and shifting are spread over
the tree: one label at a time is compared and taken off, and an exhausted path is an empty segment again
and again.
-/

namespace Seasocks

/-! ### The reference -/

mutual

/-- The handlers of the application below a handler, with the labels on the way to them. -/
def UriHandler.leaves (handler : UriHandler) : List (List Bytes × LeafId) :=
  match handler with
  | .leaf id => [([], id)]
  | .path label handlers => (leavesOf handlers).map fun leaf => (label :: leaf.1, leaf.2)

def leavesOf (handlers : List UriHandler) : List (List Bytes × LeafId) :=
  match handlers with
  | [] => []
  | it :: handlers => it.leaves ++ leavesOf handlers

end

/-- Labels that are the front of a path, which has empty segments behind its end. A path without any
segment has no front. -/
def MatchesFront (path labels : List Bytes) : Prop :=
  labels = [] ∨ path ≠ [] ∧ ∀ i < labels.length, labels[i]? = some (path.getD i [])

instance (path labels : List Bytes) : Decidable (MatchesFront path labels) :=
  inferInstanceAs (Decidable (_ ∨ _))

/-- A path after some of its segments have been shifted off. -/
def shiftedBy (path : List Bytes) (count : Nat) : List Bytes :=
  if count = 0 then path else if count < path.length then path.drop count else [[]]

/-- The calls of the handlers that match, from left to right. -/
def matching (leaves : List (List Bytes × LeafId)) (uri : CrackedUri) (request : PageRequest) :
    List Invocation :=
  (leaves.filter fun leaf => MatchesFront uri.path leaf.1).map fun leaf =>
    ⟨leaf.2, { uri with path := shiftedBy uri.path leaf.1.length }, request⟩

variable (answers : LeafAnswers)

/-- The calls one after another, until one does not leave the request unhandled. -/
def askInTurn (calls invoked : List Invocation) : PageOutcome × List Invocation :=
  match calls with
  | [] => (.unhandled, invoked)
  | call :: calls =>
      match answers invoked call with
      | .unhandled => askInTurn calls (invoked ++ [call])
      | outcome => (outcome, invoked ++ [call])

theorem askInTurn_append (calls calls' invoked : List Invocation) :
    askInTurn answers (calls ++ calls') invoked =
      match askInTurn answers calls invoked with
      | (.unhandled, invoked) => askInTurn answers calls' invoked
      | (outcome, invoked) => (outcome, invoked) := by
  induction calls generalizing invoked with
  | nil => rfl
  | cons call calls ih =>
      rw [List.cons_append, askInTurn, askInTurn]
      cases answers invoked call with
      | unhandled => exact ih _
      | _ => rfl

/-! ### One segment -/

theorem shift_path_ne_nil (uri : CrackedUri) : uri.shift.path ≠ [] := by
  rw [CrackedUri.shift]
  split_ifs with hlong
  · apply List.length_pos_iff.mp
    rw [List.length_drop]
    omega
  · exact List.cons_ne_nil _ _

theorem getD_shift (uri : CrackedUri) (i : Nat) :
    uri.shift.path.getD i [] = uri.path.getD (i + 1) [] := by
  rw [CrackedUri.shift]
  match uri.path with
  | [] => cases i <;> simp
  | [segment] => cases i <;> simp
  | _ :: _ :: path => simp

/-- The first label is the first segment, and the others are matched with the shifted path. -/
theorem matchesFront_cons_iff {uri : CrackedUri} {label : Bytes} {labels : List Bytes} :
    MatchesFront uri.path (label :: labels) ↔
      uri.path.head? = some label ∧ MatchesFront uri.shift.path labels := by
  constructor
  · rintro (hnone | ⟨hpath, hlabels⟩)
    · cases hnone
    · constructor
      · obtain ⟨segment, path, hfirst⟩ := List.exists_cons_of_ne_nil hpath
        have hlabel := hlabels 0 (Nat.zero_lt_succ _)
        rw [hfirst] at hlabel ⊢
        exact hlabel.symm
      · refine Or.inr ⟨shift_path_ne_nil uri, fun i hi => ?_⟩
        rw [getD_shift]
        exact hlabels (i + 1) (Nat.succ_lt_succ hi)
  · rintro ⟨hfirst, hlabels⟩
    obtain ⟨segment, path, hpath⟩ : ∃ segment path, uri.path = segment :: path := by
      apply List.exists_cons_of_ne_nil
      intro hempty
      rw [hempty] at hfirst
      cases hfirst
    refine Or.inr ⟨by rw [hpath]; exact List.cons_ne_nil _ _, fun i hi => ?_⟩
    match i, hi with
    | 0, _ =>
        rw [hpath] at hfirst ⊢
        exact hfirst.symm
    | i + 1, hi =>
        rw [← getD_shift]
        rcases hlabels with rfl | ⟨-, hlabels⟩
        · simp at hi
        · exact hlabels i (Nat.lt_of_succ_lt_succ hi)

/-- One shift more. -/
theorem shiftedBy_succ {uri : CrackedUri} (h : uri.path ≠ []) (count : Nat) :
    shiftedBy uri.path (count + 1) = shiftedBy uri.shift.path count := by
  rw [CrackedUri.shift, shiftedBy, shiftedBy]
  match uri.path, h with
  | [segment], _ => cases count <;> simp
  | _ :: _ :: path, _ =>
      by_cases hcount : count = 0
      · simp [hcount]
      · have hsucc : ∀ segments : List Bytes, count + 1 < segments.length + 1 + 1 ↔
            count < segments.length + 1 := by
          intro segments
          omega
        simp [hcount, hsucc]

theorem matching_cons (leaves : List (List Bytes × LeafId)) (label : Bytes) (uri : CrackedUri)
    (request : PageRequest) :
    matching (leaves.map fun leaf => (label :: leaf.1, leaf.2)) uri request =
      if uri.path.head? ≠ some label then [] else matching leaves uri.shift request := by
  rw [matching, List.filter_map, List.map_map]
  split_ifs with hfirst
  · have hnone : leaves.filter ((fun leaf => decide (MatchesFront uri.path leaf.1)) ∘
        fun leaf => (label :: leaf.1, leaf.2)) = [] := by
      apply List.filter_eq_nil_iff.mpr
      intro leaf _ hmatches
      exact hfirst (matchesFront_cons_iff.mp (of_decide_eq_true hmatches)).1
    rw [hnone, List.map_nil]
  · rw [not_not] at hfirst
    have hpath : uri.path ≠ [] := by
      intro hempty
      rw [hempty] at hfirst
      cases hfirst
    have hsame : ((fun leaf : List Bytes × LeafId => decide (MatchesFront uri.path leaf.1)) ∘
        fun leaf : List Bytes × LeafId => (label :: leaf.1, leaf.2)) =
          fun leaf => decide (MatchesFront uri.shift.path leaf.1) := by
      funext leaf
      rw [Function.comp, decide_eq_decide, matchesFront_cons_iff]
      exact and_iff_right hfirst
    rw [hsame, matching]
    apply List.map_congr_left
    intro leaf _
    rw [Function.comp, List.length_cons, shiftedBy_succ hpath]
    rfl

theorem matching_append (leaves leaves' : List (List Bytes × LeafId)) (uri : CrackedUri)
    (request : PageRequest) :
    matching (leaves ++ leaves') uri request =
      matching leaves uri request ++ matching leaves' uri request := by
  rw [matching, List.filter_append, List.map_append]
  rfl

/-! ### The tree -/

mutual

theorem UriHandler.handle_eq (handler : UriHandler) (uri : CrackedUri) (request : PageRequest)
    (invoked : List Invocation) :
    handler.handle answers uri request invoked =
      askInTurn answers (matching handler.leaves uri request) invoked := by
  match handler with
  | .leaf id =>
      have hcalls : matching (UriHandler.leaf id).leaves uri request = [⟨id, uri, request⟩] := rfl
      rw [hcalls, UriHandler.handle, askInTurn]
      cases answers invoked ⟨id, uri, request⟩ <;> rfl
  | .path label handlers =>
      rw [UriHandler.handle, UriHandler.leaves, matching_cons]
      split_ifs
      · rfl
      · exact handleAny_eq handlers uri.shift request invoked

theorem handleAny_eq (handlers : List UriHandler) (uri : CrackedUri) (request : PageRequest)
    (invoked : List Invocation) :
    handleAny answers handlers uri request invoked =
      askInTurn answers (matching (leavesOf handlers) uri request) invoked := by
  match handlers with
  | [] => rw [handleAny, leavesOf]; rfl
  | it :: handlers =>
      rw [handleAny, leavesOf, matching_append, askInTurn_append, it.handle_eq uri request invoked]
      cases askInTurn answers (matching it.leaves uri request) invoked with
      | mk outcome invoked =>
          cases outcome with
          | unhandled => exact handleAny_eq handlers uri request invoked
          | _ => rfl

end

/-! ### The first answer -/

/-- Each of the calls left the request unhandled. -/
def AllUnhandled (invoked : List Invocation) : Prop :=
  ∀ before call after, invoked = before ++ call :: after → answers before call = .unhandled

/-- The calls made and the outcome of the last one, when the search ends with it. -/
def Settles (invoked : List Invocation) (outcome : PageOutcome) (rest : List Invocation) : Prop :=
  outcome = .unhandled ∧ rest = [] ∧ AllUnhandled answers invoked ∨
    outcome ≠ .unhandled ∧ ∃ before last, invoked = before ++ [last] ∧
      answers before last = outcome ∧ AllUnhandled answers before

theorem AllUnhandled.append {answers : LeafAnswers} {invoked : List Invocation} {call : Invocation}
    (h : AllUnhandled answers invoked) (hcall : answers invoked call = .unhandled) :
    AllUnhandled answers (invoked ++ [call]) := by
  intro before call' after hsplit
  rcases List.eq_nil_or_concat after with rfl | ⟨after, last, rfl⟩
  · obtain ⟨rfl, hlast⟩ := List.append_inj' hsplit rfl
    rw [← List.cons.inj hlast |>.1]
    exact hcall
  · rw [List.concat_eq_append, ← List.cons_append, ← List.append_assoc] at hsplit
    exact h before call' after (List.append_inj' hsplit rfl).1

theorem askInTurn_settles (calls invoked : List Invocation) (h : AllUnhandled answers invoked) :
    ∃ made rest, calls = made ++ rest ∧
      (askInTurn answers calls invoked).2 = invoked ++ made ∧
      Settles answers (invoked ++ made) (askInTurn answers calls invoked).1 rest := by
  induction calls generalizing invoked with
  | nil => exact ⟨[], [], rfl, (List.append_nil _).symm, Or.inl ⟨rfl, rfl, by rwa [List.append_nil]⟩⟩
  | cons call calls ih =>
      rw [askInTurn]
      cases hanswer : answers invoked call with
      | unhandled =>
          obtain ⟨made, rest, rfl, hmade, hsettles⟩ := ih (invoked ++ [call]) (h.append hanswer)
          rw [List.append_assoc] at hmade hsettles
          exact ⟨call :: made, rest, rfl, hmade, hsettles⟩
      | _ =>
          refine ⟨[call], calls, rfl, rfl, Or.inr ⟨?_, invoked, call, rfl, hanswer, h⟩⟩
          intro hunhandled
          cases hunhandled

/-- A request with a well-formed URI: the handlers of the application called are the first ones of those
that match, up to the one whose answer is the answer of the root. -/
theorem handle_settles {buckets : Buckets} {handlers : List UriHandler} {request : PageRequest}
    {uri : CrackedUri} (huri : CrackedUri.create buckets request.requestUri = .ok uri) :
    ∃ outcome invoked rest,
      RootPageHandler.handle answers buckets handlers request [] = .ok (outcome, invoked) ∧
        matching (leavesOf handlers) uri request = invoked ++ rest ∧
        Settles answers invoked outcome rest := by
  have hnone : AllUnhandled answers [] := fun before call after hsplit => by simp at hsplit
  obtain ⟨made, rest, hcalls, hmade, hsettles⟩ :=
    askInTurn_settles answers (matching (leavesOf handlers) uri request) [] hnone
  refine ⟨(askInTurn answers (matching (leavesOf handlers) uri request) []).1, made, rest, ?_, hcalls,
    hsettles⟩
  rw [RootPageHandler.handle, huri]
  exact congrArg Except.ok ((handleAny_eq answers handlers uri request []).trans (Prod.ext rfl hmade))

/-- Two handlers below one label; the first leaves the request unhandled. -/
theorem handle_settles_two :
    let answers : LeafAnswers := fun _ call => if call.leaf = 1 then .unhandled else .response ⟨[]⟩
    let handlers := [.path (ascii "a") [.leaf 1, .leaf 2]]
    let request := PageRequest.create (ascii "/a/b") .get .empty
    ∃ uri, CrackedUri.create .toFront request.requestUri = .ok uri ∧
      ∃ outcome invoked rest,
        RootPageHandler.handle answers .toFront handlers request [] = .ok (outcome, invoked) ∧
          matching (leavesOf handlers) uri request = invoked ++ rest ∧
          Settles answers invoked outcome rest := by
  intro answers handlers request
  have hpath : (CrackedUri.create .toFront request.requestUri).toOption.map (·.path) =
      some [ascii "a", ascii "b"] := by
    decide +kernel
  cases huri : CrackedUri.create .toFront request.requestUri with
  | error e =>
      rw [huri] at hpath
      cases hpath
  | ok uri => exact ⟨uri, rfl, handle_settles answers huri⟩

end Seasocks
