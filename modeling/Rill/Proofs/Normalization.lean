import Rill.Module
import Rill.Proofs.Paths

/-!
# Paths in normal form

A path in normal form is the root slash, if it has one, and its parts with slashes between them:
steps outward, of which a path from the root has none, and then ordinary names. What follows a
directory leads to the same place when the directory is first brought into normal form, as long as
something is left of it.
-/

set_option autoImplicit false

namespace Rill

namespace Path

/-- The segments of a path, the empty one before the slash of the root apart. The root and the empty
path have none. -/
def parts (path : String) : List String :=
  let inside := if isAbsolute path then (segments path).tail else segments path
  if inside = [""] then [] else inside

variable {absolute : Bool} {names first second : List String}

/-! ## Reading a path in normal form -/

theorem segments_root (path : String) : segments ("/" ++ path) = "" :: segments path :=
  segments_join "" path

theorem parts_ofSegments (is : Normal absolute names) (plain : ∀ name ∈ names, Plain name) :
    parts (ofSegments absolute names) = names := by
  have inside : (if isAbsolute (ofSegments absolute names) then
      (segments (ofSegments absolute names)).tail else segments (ofSegments absolute names))
        = segments ("/".intercalate names) := by
    cases absolute with
    | true =>
        have rooted : isAbsolute (ofSegments true names) = true := isAbsolute_append (by decide) _
        rw [rooted, if_pos rfl]
        exact congrArg List.tail (segments_root _)
    | false =>
        rw [ofSegments_false, isAbsolute_intercalate is plain]
        rfl
  rw [parts, inside]
  cases names with
  | nil => rfl
  | cons name names =>
      rw [segments_intercalate (List.cons_ne_nil name names) plain, if_neg]
      intro bare
      obtain ⟨empty, -⟩ := List.cons.inj bare
      exact ne_empty_of_mem_normal is List.mem_cons_self empty

theorem parts_normalize (path : String) :
    parts (normalize path) = normal (isAbsolute path) (segments path) :=
  parts_ofSegments (normal_normal _ _) fun _ => plain_of_mem_normal

/-! ## Going on from a directory -/

theorem normal_append (same : normal absolute first = normal absolute second)
    (more : List String) : normal absolute (first ++ more) = normal absolute (second ++ more) := by
  have taken := List.reverse_inj.mp same
  rw [normal, normal, List.foldl_append, List.foldl_append, taken]

theorem normal_segments_normalize (path : String) :
    normal (isAbsolute path) (segments (normalize path)) = normal (isAbsolute path) (segments path) := by
  have again : normal (isAbsolute (normalize path)) (segments (normalize path))
      = normal (isAbsolute path) (segments path) := by
    rw [← parts_normalize, normalize_normalize, parts_normalize]
  rwa [isAbsolute_normalize] at again

theorem normalize_join (path back : String) (more : normalize path ≠ "") :
    normalize (path ++ "/" ++ back) = normalize (normalize path ++ "/" ++ back) := by
  have written : path ≠ "" := by
    rintro rfl
    exact more rfl
  have start : isAbsolute (path ++ "/" ++ back) = isAbsolute path := by
    rw [String.append_assoc, isAbsolute_append written]
  have start' : isAbsolute (normalize path ++ "/" ++ back) = isAbsolute path := by
    rw [String.append_assoc, isAbsolute_append more, isAbsolute_normalize]
  rw [normalize_eq, normalize_eq, start, start', segments_join, segments_join,
    normal_append (normal_segments_normalize path)]

theorem resolve_normalize (table : ModuleTable) (dir path : String) (more : normalize dir ≠ "") :
    table.resolve (normalize dir) path = table.resolve dir path := by
  have same : ModuleTable.key (normalize dir) path = ModuleTable.key dir path := by
    unfold ModuleTable.key
    split
    · rfl
    · exact (normalize_join dir path more).symm
  unfold ModuleTable.resolve
  rw [same]

/-- Normalising gives the root slash exactly to a path that starts with it, and then parts none of
which is empty or a single dot: first steps outward, none from the root, and then ordinary names. It
changes nothing in its own result, and nothing about where a path inside a directory leads, unless
the directory comes to nothing. -/
theorem normalize_canonical (path : String) :
    normalize path = ofSegments (isAbsolute path) (parts (normalize path)) ∧
    (∀ part ∈ parts (normalize path), Plain part ∧ part ≠ "" ∧ part ≠ ".") ∧
    (∃ up names, parts (normalize path) = List.replicate up ".." ++ names ∧ ".." ∉ names ∧
      (isAbsolute path = true → up = 0)) ∧
    isAbsolute (normalize path) = isAbsolute path ∧
    normalize (normalize path) = normalize path ∧
    (normalize path ≠ "" → ∀ back,
      normalize (path ++ "/" ++ back) = normalize (normalize path ++ "/" ++ back) ∧
      ∀ table : ModuleTable, table.resolve (normalize path) back = table.resolve path back) := by
  obtain ⟨up, names, split, root, ordinary⟩ := normal_normal (isAbsolute path) (segments path)
  refine ⟨?_, fun part member => ?_, ⟨up, names, ?_, fun outward => ?_, root⟩,
    isAbsolute_normalize path, normalize_normalize path,
    fun more back => ⟨normalize_join path back more, fun table => resolve_normalize table path back more⟩⟩
  · rw [parts_normalize, normalize_eq]
  · rw [parts_normalize] at member
    have plain := plain_of_mem_normal member
    rw [split] at member
    have moves : stays part = false := by
      rcases List.mem_append.mp member with outward | inward
      · rw [List.eq_of_mem_replicate outward]
        rfl
      · exact (ordinary part inward).1
    refine ⟨plain, ?_, ?_⟩
    · rintro rfl
      cases moves
    · rintro rfl
      cases moves
  · rw [parts_normalize, split]
  · exact (ordinary ".." outward).2 rfl

theorem normalize_canonical_climbing :
    normalize "x/..//../lib/." = "../lib" ∧
      normalize ("x/..//../lib/." ++ "/" ++ "../b.rl") = normalize ("../lib" ++ "/" ++ "../b.rl") := by
  have form : normalize "x/..//../lib/." = "../lib" := by decide +kernel
  have more : normalize "x/..//../lib/." ≠ "" := by
    rw [form]
    decide
  obtain ⟨-, -, -, -, -, joined⟩ := normalize_canonical "x/..//../lib/."
  exact ⟨form, form ▸ (joined more "../b.rl").1⟩

end Path

end Rill
