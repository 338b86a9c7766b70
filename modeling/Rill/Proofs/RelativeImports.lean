import Rill.Module
import Rill.Proofs.Paths

/-!
# Imports seen from a directory

Seen from a directory that is not given from the root, an import path leads to the module whose key
is the normal form of the two one after the other, and no such key starts at the root. The empty
directory is the one exception: it is taken for the root itself. Whatever module is found, its own
directory and the last segment of its key lead back to it.
-/

set_option autoImplicit false

namespace Rill

namespace ModuleTable

open Rill.Path (isAbsolute segments normalize normal NormalForm directory name)

variable {dir path : String}

theorem resolve_eq (table : ModuleTable) (dir path : String) :
    table.resolve dir path = match table.sources.get? (key dir path) with
      | some source => .ok ⟨key dir path, directory (key dir path), source⟩
      | none => .error (.notFound path) := rfl

theorem key_of_relative (relative : isAbsolute path = false) :
    key dir path = normalize (dir ++ "/" ++ path) := by
  rw [key, relative, if_neg Bool.false_ne_true]

theorem normalize_key (dir path : String) : normalize (key dir path) = key dir path := by
  unfold key
  split <;> exact Path.normalize_normalize _

theorem normalize_root (path : String) :
    normalize ("/" ++ "/" ++ path) = normalize ("" ++ "/" ++ path) := by
  have first : isAbsolute ("/" ++ "/" ++ path) = true := Path.isAbsolute_append (by decide) path
  have second : isAbsolute ("" ++ "/" ++ path) = true := Path.isAbsolute_append (by decide) path
  rw [Path.normalize_eq, Path.normalize_eq, first, second, Path.segments_join, Path.segments_join]
  rfl

theorem normalize_here (relative : isAbsolute path = false) :
    normalize ("." ++ "/" ++ path) = normalize path := by
  have start : isAbsolute ("." ++ "/" ++ path) = false := Path.isAbsolute_append (by decide) path
  rw [Path.normalize_eq, Path.normalize_eq, start, relative, Path.segments_join]
  rfl

theorem key_directory (path : String) : key (directory path) (name path) = normalize path := by
  rcases Path.directory_cases path with ⟨plain, here⟩ | ⟨front, segment, plain, rfl, around⟩
  · have own : name path = path := by rw [name, Path.segments_of_plain plain]; rfl
    have relative := Path.isAbsolute_of_plain plain
    rw [own, here, key_of_relative relative, normalize_here relative]
  · rw [Path.name_join front plain, around, key_of_relative (Path.isAbsolute_of_plain plain)]
    split
    · next root => rw [root, normalize_root]
    · rfl

/-- Whatever module is found, its directory and the last segment of its key lead to it again. -/
theorem resolve_again (table : ModuleTable) {module : Module}
    (found : table.resolve dir path = .ok module) :
    table.resolve module.dir (name module.key) = .ok module := by
  rw [resolve_eq] at found
  split at found
  · next source held =>
    cases found
    have same : key (directory (key dir path)) (name (key dir path)) = key dir path := by
      rw [key_directory, normalize_key]
    rw [resolve_eq, same, held]
  · cases found

/-- Seen from a directory that does not start at the root, an import path that does not start there
either is looked up by the normal form of the segments of both, which does not start there again;
only the empty directory is taken for the root. Whatever is found is found again from its own
directory by the last segment of its key. -/
theorem imports_stay_relative (table : ModuleTable) (base : isAbsolute dir = false)
    (relative : isAbsolute path = false) :
    (∀ source, table.sources.get? (key dir path) = some source →
      table.resolve dir path = .ok ⟨key dir path, directory (key dir path), source⟩) ∧
    (table.sources.get? (key dir path) = none →
      table.resolve dir path = .error (.notFound path)) ∧
    (dir ≠ "" → isAbsolute (key dir path) = false ∧
      ∃ parts, NormalForm (segments dir ++ segments path) parts ∧
        (∀ other, NormalForm (segments dir ++ segments path) other → other = parts) ∧
        key dir path = "/".intercalate parts) ∧
    (dir = "" → isAbsolute (key dir path) = true ∧ key dir path = key "/" path) ∧
    ∀ module, table.resolve dir path = .ok module →
      table.resolve module.dir (name module.key) = .ok module := by
  have joined : key dir path = normalize (dir ++ "/" ++ path) := key_of_relative relative
  refine ⟨fun source held => ?_, fun missing => ?_, fun nonempty => ?_, ?_,
    fun module found => table.resolve_again found⟩
  · rw [resolve_eq, held]
  · rw [resolve_eq, missing]
  · have start : isAbsolute (dir ++ "/" ++ path) = false := by
      rw [String.append_assoc, Path.isAbsolute_append nonempty, base]
    refine ⟨?_, normal false (segments dir ++ segments path), Path.normalForm_iff.mpr rfl,
      fun other form => Path.normalForm_iff.mp form, ?_⟩
    · rw [joined, Path.isAbsolute_normalize, start]
    · rw [joined, Path.normalize_eq, start, Path.segments_join]
      exact String.empty_append
  · rintro rfl
    have root : isAbsolute ("" ++ "/" ++ path) = true := Path.isAbsolute_append (by decide) path
    refine ⟨by rw [joined, Path.isAbsolute_normalize, root], ?_⟩
    rw [joined, key_of_relative relative, normalize_root]

def oneBeside : ModuleTable := ofList [("../lib/b.rl", "let b = 1")]

theorem imports_stay_relative_beside :
    oneBeside.resolve "../lib/./sub" "../b.rl" = .ok ⟨"../lib/b.rl", "../lib", "let b = 1"⟩ ∧
      oneBeside.resolve "../lib" "b.rl" = .ok ⟨"../lib/b.rl", "../lib", "let b = 1"⟩ := by
  have base : isAbsolute "../lib/./sub" = false := by decide
  have relative : isAbsolute "../b.rl" = false := by decide
  obtain ⟨found, -, -, -, again⟩ := imports_stay_relative oneBeside base relative
  have first : oneBeside.resolve "../lib/./sub" "../b.rl"
      = .ok ⟨"../lib/b.rl", "../lib", "let b = 1"⟩ := found "let b = 1" (by decide +kernel)
  exact ⟨first, again _ first⟩

end ModuleTable

end Rill
