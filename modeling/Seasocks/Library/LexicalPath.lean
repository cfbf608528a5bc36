import Mathlib.Data.List.DropRight
import Mathlib.Data.List.Infix

/-!
# Paths read lexically

Where a path of segments leads from a directory, when `.` and `..` are resolved by the names alone, and
the reading of a POSIX path as such segments.
-/

namespace LexicalPath

/-! ### Segments -/

section Segments

variable {Name : Type}

inductive Segment (Name : Type) where
  | stay
  | up
  | down (name : Name)
deriving DecidableEq, Repr

/-- A directory is the list of names that lead to it from the top, which is its own parent. -/
def enter (dir : List Name) : Segment Name → List Name
  | .stay => dir
  | .up => dir.dropLast
  | .down name => dir ++ [name]

def walk (dir : List Name) (path : List (Segment Name)) : List Name := path.foldl enter dir

@[simp]
theorem walk_nil (dir : List Name) : walk dir [] = dir := rfl

@[simp]
theorem walk_cons (dir : List Name) (segment : Segment Name) (path : List (Segment Name)) :
    walk dir (segment :: path) = walk (enter dir segment) path := rfl

theorem walk_append (dir : List Name) (path path' : List (Segment Name)) :
    walk dir (path ++ path') = walk (walk dir path) path' := List.foldl_append

/-- What a path amounts to wherever it starts: some levels up, then down through some names. -/
structure Route (Name : Type) where
  climbs : Nat
  names : List Name
deriving DecidableEq, Repr

def Route.target (route : Route Name) (dir : List Name) : List Name :=
  dir.take (dir.length - route.climbs) ++ route.names

def Route.enter (route : Route Name) : Segment Name → Route Name
  | .stay => route
  | .up =>
      if route.names = [] then ⟨route.climbs + 1, []⟩
      else ⟨route.climbs, route.names.dropLast⟩
  | .down name => ⟨route.climbs, route.names ++ [name]⟩

def Route.of (path : List (Segment Name)) : Route Name := path.foldl Route.enter ⟨0, []⟩

theorem Route.target_enter (route : Route Name) (dir : List Name) (segment : Segment Name) :
    (route.enter segment).target dir = LexicalPath.enter (route.target dir) segment := by
  obtain ⟨climbs, names⟩ := route
  cases segment with
  | stay => rfl
  | down name => simp [Route.enter, target, LexicalPath.enter]
  | up =>
      by_cases hnames : names = []
      · simp only [Route.enter, target, LexicalPath.enter, hnames, if_true, List.append_nil,
          List.dropLast_eq_take, List.take_take, List.length_take]
        congr 1
        omega
      · simp [Route.enter, target, LexicalPath.enter, hnames, List.dropLast_append_of_ne_nil]

theorem walk_eq_target (dir : List Name) (path : List (Segment Name)) :
    walk dir path = (Route.of path).target dir := by
  have hfold : ∀ route : Route Name,
      walk (route.target dir) path = (path.foldl Route.enter route).target dir := by
    induction path with
    | nil => exact fun _ => rfl
    | cons segment path ih =>
        intro route
        rw [walk_cons, ← Route.target_enter, ih, List.foldl_cons]
  have hstart : (⟨0, []⟩ : Route Name).target dir = dir := by simp [Route.target]
  rw [Route.of, ← hfold, hstart]

/-- A path leads below `root` if and only if it goes down again through those names of `root` that it
leaves by climbing. -/
theorem prefix_walk_iff {root dir : List Name} {path : List (Segment Name)}
    (hroot : root.take (dir.length - (Route.of path).climbs) <+: dir) :
    root <+: walk dir path ↔
      root.drop (dir.length - (Route.of path).climbs) <+: (Route.of path).names := by
  rw [walk_eq_target, Route.target]
  generalize hkept : dir.length - (Route.of path).climbs = kept at hroot ⊢
  have hle : kept ≤ dir.length := by omega
  have htake := List.prefix_iff_eq_take.mp hroot
  by_cases hlength : root.length ≤ kept
  · rw [List.take_of_length_le hlength] at hroot
    have hroot' : root <+: dir.take kept := by
      rw [List.prefix_take_iff]
      exact ⟨hroot, hlength⟩
    simp [List.drop_of_length_le hlength, hroot'.trans (List.prefix_append _ _)]
  · have hsame : root.take kept = dir.take kept := by
      rw [htake, List.length_take, Nat.min_eq_left (by omega)]
    conv_lhs => rw [← List.take_append_drop kept root, hsame]
    exact List.prefix_append_right_inj _

end Segments

/-! ### POSIX paths -/

/-- What stands between two slashes. -/
def segment (text : List UInt8) : Segment (List UInt8) :=
  if text = [] ∨ text = [46] then .stay else if text = [46, 46] then .up else .down text

def segments (path : List UInt8) : List (Segment (List UInt8)) := (path.splitOn 47).map segment

/-- Where a path starts, for a process in the directory `cwd`. -/
def start (cwd : List (List UInt8)) (path : List UInt8) : List (List UInt8) :=
  if path.head? = some 47 then [] else cwd

/-- What a path names. -/
def resolve (cwd : List (List UInt8)) (path : List UInt8) : List (List UInt8) :=
  walk (start cwd path) (segments path)

/-- A path up to its last slash. -/
def directory (path : List UInt8) : List UInt8 := path.rdropWhile (· != 47)

/-- A path from its last slash on. -/
def entry (path : List UInt8) : List UInt8 := path.rtakeWhile (· != 47)

theorem directory_append_entry (path : List UInt8) : directory path ++ entry path = path :=
  List.rdropWhile_append_rtakeWhile

theorem directory_eq (path : List UInt8) :
    directory path = [] ∨ ∃ before, directory path = before ++ [47] := by
  by_cases h : directory path = []
  · exact .inl h
  · have hlast := List.rdropWhile_last_not (· != 47) path h
    refine .inr ⟨(directory path).dropLast, ?_⟩
    conv_lhs => rw [← List.dropLast_append_getLast h]
    simpa [directory] using hlast

theorem segments_entry (path : List UInt8) : segments (entry path) = [segment (entry path)] := by
  have hmem : 47 ∉ entry path := by
    intro hmem
    simpa using List.mem_rtakeWhile_imp hmem
  rw [segments, List.splitOn_eq_singleton hmem, List.map_singleton]

theorem segments_append_slash (path rest : List UInt8) :
    segments (path ++ 47 :: rest) = segments path ++ segments rest := by
  rw [segments, List.splitOn_append_cons_self, List.map_append]
  rfl

theorem walk_segments_directory (dir : List (List UInt8)) (path rest : List UInt8) :
    walk dir (segments (directory path ++ rest)) =
      walk (walk dir (segments (directory path))) (segments rest) := by
  have hempty : ∀ dir, walk dir (segments []) = dir := fun _ => rfl
  rcases directory_eq path with h | ⟨before, h⟩
  · rw [h, List.nil_append, hempty]
  · rw [h, List.append_assoc, List.singleton_append, segments_append_slash,
      segments_append_slash, walk_append, walk_append, hempty]

end LexicalPath
