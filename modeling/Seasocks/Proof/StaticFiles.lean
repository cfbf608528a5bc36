import Seasocks.Library.LexicalPath
import Seasocks.Proof.Serving

/-!
# The files a connection opens

`sendStaticData` opens one path, made of the static root and the URI, and keeps to the root as long as
the dot segments of that path do.
-/

namespace Seasocks

open Program LexicalPath

def indexName : Bytes := ascii "index.html"

namespace Connection

/-! ### The path -/

theorem trimQuery_eq_takeWhile (path : Bytes) : trimQuery path = path.takeWhile (· != 63) := by
  induction path with
  | nil => rfl
  | cons c path ih =>
      rw [trimQuery] at ih ⊢
      rw [List.idxOf?_cons, List.takeWhile_cons]
      by_cases h : c = 63
      · simp [h]
      · simp only [beq_iff_eq, bne_iff_ne, h, if_false, ne_eq, not_false_eq_true, if_true, ← ih]
        cases path.idxOf? 63 <;> rfl

theorem trimQuery_append (root uri : Bytes) :
    trimQuery (root ++ uri) = if 63 ∈ root then trimQuery root else root ++ trimQuery uri := by
  simp only [trimQuery_eq_takeWhile, List.takeWhile_append]
  by_cases h : 63 ∈ root
  · rw [if_pos h, if_neg]
    intro hlength
    have hself := (List.takeWhile_prefix (· != 63)).eq_of_length hlength
    simpa using List.takeWhile_eq_self_iff.mp hself 63 h
  · rw [if_neg h, if_pos]
    rw [List.takeWhile_eq_self_iff.mpr]
    intro c hc
    simpa using ne_of_mem_of_not_mem hc h

/-- The name `sendStaticData` adds to a directory's path. -/
def indexOf (path : Bytes) : Bytes := if path.getLast? = some 47 then indexName else []

/-- The path `sendStaticData` opens for a URI. -/
def staticFile (root uri : Bytes) : Option Bytes :=
  let path := trimQuery (root ++ uri)
  if path = [] then none else some (path ++ indexOf path)

/-- The paths opened in part of a log. -/
def openedPaths (calls : List Entry) : List Bytes :=
  calls.filterMap fun entry =>
    match entry.call with
    | .openFile path _ => some path
    | _ => none

variable {w : World} {c : Connection}

/-- The opened paths and whether they are all there is to the calls since `c`. -/
def Opens (paths : List Bytes) (c c' : Connection) : Prop :=
  ∃ entries, c'.calls = c.calls ++ entries ∧ openedPaths entries = paths

theorem liftOut_calls {α : Type} (m : OutM α) :
    Ends (liftOut m) c (fun _ c' => c'.calls = c.calls) fun _ c' => c'.calls = c.calls := by
  rw [ends_liftOut]
  exact After.of_forall fun _ _ => rfl

theorem sendError_calls (responseCode : ResponseCode) (body : Bytes) :
    Ends (sendError w responseCode body) c (fun _ c' => c'.calls = c.calls)
      fun _ c' => c'.calls = c.calls := by
  rw [sendError, ends_bind, ends_get, ends_ite]
  exact ⟨fun _ => rfl, fun _ => liftOut_calls _⟩

theorem send404_calls :
    Ends (send404 w) c (fun _ c' => c'.calls = c.calls) fun _ c' => c'.calls = c.calls := by
  rw [send404, ends_bind, ends_get]
  dsimp only
  cases w.embeddedContent c.getRequestUri with
  | some embedded => exact liftOut_calls _
  | none =>
      dsimp only
      rw [ends_ite]
      exact ⟨fun _ => liftOut_calls _, fun _ => sendError_calls _ _⟩

theorem sendStaticData_opens :
    Ends (sendStaticData w) c
      (fun _ c' => Opens (staticFile w.staticPath c.getRequestUri).toList c c')
      fun _ c' => Opens (staticFile w.staticPath c.getRequestUri).toList c c' := by
  rw [sendStaticData, ends_bind, ends_get]
  dsimp only
  rw [staticFile]
  generalize trimQuery (w.staticPath ++ c.getRequestUri) = path
  cases hlast : path.getLast? with
  | none =>
      rw [List.getLast?_eq_none_iff] at hlast
      simp only [hlast, if_true]
      exact ⟨[], (List.append_nil _).symm, rfl⟩
  | some last =>
      have hpath : path ≠ [] := by
        rintro rfl
        cases hlast
      have hindex : (if last = 47 then path ++ ascii "index.html" else path) = path ++ indexOf path := by
        rw [indexOf, hlast]
        by_cases h : last = 47 <;> simp [h, indexName]
      dsimp only
      rw [hindex, if_neg hpath, Option.toList_some, record, ends_bind, ends_modify]
      generalize hopened : ({ c with calls := _ } : Connection) = c₁
      have same : ∀ c', c'.calls = c₁.calls → Opens [path ++ indexOf path] c c' := by
        intro c' hcalls
        exact ⟨_, by rw [hcalls, ← hopened], rfl⟩
      cases w.openFile c.calls (path ++ indexOf path) with
      | none => exact send404_calls.mono (fun _ => same) fun _ => same
      | some file =>
          dsimp only
          split
          · exact same _ rfl
          · exact (sendError_calls _ _).mono (fun _ => same) fun _ => same
          · rw [liftChecked, ends_bind]
            refine (liftOut_calls _).mono (fun result c' hcalls => ?_) fun _ => same
            cases result with
            | ok sent => exact same _ hcalls
            | error f => exact same _ hcalls

/-! ### Where it leads -/

/-- The places that the part of a path after the root's directory leads through. -/
def routeFrom (root uri : Bytes) : Route Bytes :=
  Route.of (segments (entry root ++ trimQuery uri ++ indexOf (root ++ trimQuery uri)))

/-- Where the root's directory is, seen from the path of a URI. -/
def rootDirectory (cwd : List Bytes) (root uri : Bytes) : List Bytes :=
  walk (start cwd (root ++ trimQuery uri)) (segments (directory root))

/-- When what is opened is the root or below it. Without a `?` in the root the path must not be empty,
and must go down again through those names of the root that its dot segments leave. A `?` in the root
cuts off the URI. -/
def Confined (cwd : List Bytes) (root uri : Bytes) : Prop :=
  if 63 ∈ root then
    ∃ path ∈ staticFile root [], resolve cwd root <+: resolve cwd path
  else
    root ++ trimQuery uri ≠ [] ∧
      (resolve cwd root).drop
          ((rootDirectory cwd root uri).length - (routeFrom root uri).climbs) <+:
        (routeFrom root uri).names

theorem staticFile_of_query {root : Bytes} (uri : Bytes) (h : 63 ∈ root) :
    staticFile root uri = staticFile root [] := by
  simp only [staticFile, trimQuery_append, if_pos h]

theorem staticFile_of_no_query {root : Bytes} (uri : Bytes) (h : 63 ∉ root) :
    staticFile root uri =
      if root ++ trimQuery uri = [] then none
      else some (root ++ trimQuery uri ++ indexOf (root ++ trimQuery uri)) := by
  simp only [staticFile, trimQuery_append, if_neg h]

theorem take_resolve_root (cwd : List Bytes) (root uri : Bytes) (climbs : Nat) :
    (resolve cwd root).take ((rootDirectory cwd root uri).length - climbs) <+:
      rootDirectory cwd root uri := by
  by_cases hroot : root = []
  · rw [hroot]
    have hdirectory : rootDirectory cwd [] uri = start cwd (trimQuery uri) := rfl
    have hresolve : resolve cwd [] = cwd := rfl
    rw [hdirectory, hresolve, start]
    split_ifs
    · simp
    · exact List.take_prefix _ _
  · have hstart : start cwd (root ++ trimQuery uri) = start cwd root := by
      rw [start, start, List.head?_append_of_ne_nil _ hroot]
    have hresolve : resolve cwd root =
        enter (rootDirectory cwd root uri) (segment (entry root)) := by
      rw [resolve, rootDirectory, hstart]
      conv_lhs => rw [← directory_append_entry root]
      rw [walk_segments_directory, segments_entry, directory_append_entry]
      rfl
    rw [hresolve]
    generalize rootDirectory cwd root uri = dir
    have hle : dir.length - climbs ≤ dir.length := Nat.sub_le _ _
    cases segment (entry root) with
    | stay => exact List.take_prefix _ _
    | up => exact (List.take_prefix _ _).trans (List.dropLast_prefix dir)
    | down name =>
        rw [enter, List.take_append_of_le_length hle]
        exact List.take_prefix _ _

theorem confined_iff (cwd : List Bytes) (root uri : Bytes) :
    (∃ path ∈ staticFile root uri, resolve cwd root <+: resolve cwd path) ↔ Confined cwd root uri := by
  rw [Confined]
  by_cases hquery : 63 ∈ root
  · rw [if_pos hquery, staticFile_of_query uri hquery]
  · rw [if_neg hquery, staticFile_of_no_query uri hquery]
    by_cases hempty : root ++ trimQuery uri = []
    · simp [hempty]
    · have hstart : start cwd (root ++ trimQuery uri ++ indexOf (root ++ trimQuery uri)) =
          start cwd (root ++ trimQuery uri) := by
        rw [start, start, List.head?_append_of_ne_nil _ hempty]
      have hresolve : resolve cwd (root ++ trimQuery uri ++ indexOf (root ++ trimQuery uri)) =
          walk (rootDirectory cwd root uri)
            (segments (entry root ++ trimQuery uri ++ indexOf (root ++ trimQuery uri))) := by
        have hpath : ∀ rest, root ++ trimQuery uri ++ rest =
            directory root ++ (entry root ++ trimQuery uri ++ rest) := by
          intro rest
          rw [← List.append_assoc, ← List.append_assoc, directory_append_entry]
        rw [resolve, hstart, hpath, walk_segments_directory]
        rfl
      have hbelow := prefix_walk_iff (take_resolve_root cwd root uri (routeFrom root uri).climbs)
      simp only [hempty, if_false, Option.mem_some_iff, exists_eq_left', ne_eq, not_false_eq_true,
        true_and, hresolve]
      exact hbelow

/-- `sendStaticData` opens something, and only the static root or what is below it. -/
def StaysInside (cwd : List Bytes) (w : World) (c : Connection) : Prop :=
  let inside := fun c' : Connection =>
    ∃ entries, c'.calls = c.calls ++ entries ∧ openedPaths entries ≠ [] ∧
      ∀ path ∈ openedPaths entries, resolve cwd w.staticPath <+: resolve cwd path
  Ends (sendStaticData w) c (fun _ => inside) fun _ => inside

/-- What `sendStaticData` opens is the static root or below it if and only if the path is not empty and
its dot segments do not leave the root for good. -/
theorem sendStaticData_stays_iff (cwd : List Bytes) (w : World) (c : Connection) :
    StaysInside cwd w c ↔ Confined cwd w.staticPath c.getRequestUri := by
  rw [← confined_iff]
  constructor
  · intro hstays
    have key : ∀ c' : Connection,
        ((∃ entries, c'.calls = c.calls ++ entries ∧ openedPaths entries ≠ [] ∧
          ∀ path ∈ openedPaths entries, resolve cwd w.staticPath <+: resolve cwd path) ∧
            Opens (staticFile w.staticPath c.getRequestUri).toList c c') →
          ∃ path ∈ staticFile w.staticPath c.getRequestUri,
            resolve cwd w.staticPath <+: resolve cwd path := by
      rintro c' ⟨⟨entries, hcalls, hsome, hinside⟩, entries', hcalls', hopened⟩
      obtain rfl : entries' = entries := List.append_cancel_left (hcalls'.symm.trans hcalls)
      obtain ⟨path, hpath⟩ := List.exists_mem_of_ne_nil _ hsome
      exact ⟨path, Option.mem_toList.mp (hopened ▸ hpath), hinside path hpath⟩
    exact ((hstays.and sendStaticData_opens).mono (fun _ => key) fun _ => key).const
  · rintro ⟨path, hpath, hbelow⟩
    have key : ∀ c' : Connection, Opens (staticFile w.staticPath c.getRequestUri).toList c c' →
        ∃ entries, c'.calls = c.calls ++ entries ∧ openedPaths entries ≠ [] ∧
          ∀ path ∈ openedPaths entries, resolve cwd w.staticPath <+: resolve cwd path := by
      rintro c' ⟨entries, hcalls, hopened⟩
      rw [Option.mem_def.mp hpath, Option.toList_some] at hopened
      refine ⟨entries, hcalls, by simp [hopened], fun path' hpath' => ?_⟩
      rw [hopened, List.mem_singleton] at hpath'
      exact hpath' ▸ hbelow
    exact sendStaticData_opens.mono (fun _ => key) fun _ => key

/-- A request for the parent of the static root. -/
theorem not_inside_of_parent :
    ∃ c, run (.rooted (ascii "/srv/www"))
        [.readable (.data ⟨ascii "GET /../secret HTTP/1.1\r\n\r\n", by decide⟩)] fresh = .ok c ∧
      openedPaths c.calls = [ascii "/srv/www/../secret"] ∧
      ¬ resolve [] (ascii "/srv/www") <+: resolve [] (ascii "/srv/www/../secret") := by
  have hrun : (do
      let c ← run (.rooted (ascii "/srv/www"))
        [.readable (.data ⟨ascii "GET /../secret HTTP/1.1\r\n\r\n", by decide⟩)] fresh
      return openedPaths c.calls) = .ok [ascii "/srv/www/../secret"] := by
    decide +kernel
  obtain ⟨c, hc, hrun⟩ := ok_of_bind_eq_ok hrun
  injection hrun with hopened
  exact ⟨c, hc, hopened, by decide⟩

end Connection

end Seasocks
