import Mathlib.Logic.Relation
import Rill.Path

/-!
# Segments and normal forms

A slash between two paths puts their segments one after the other, and segments without slashes are
read back from the path they make. A relative list of segments becomes shorter by dropping one that
stays where it is, or an ordinary one together with the two dots behind it; when neither is left, the
list is in normal form. Taking segments one by one gives that form, and there is no other.
-/

set_option autoImplicit false

namespace Rill

namespace Path

/-! ## Segments -/

/-- A text without a slash. -/
def Plain (segment : String) : Prop := '/' ∉ segment.toList

theorem cut_ne_nil (chars : List Char) : cut chars ≠ [] := by
  cases chars with
  | nil => exact nofun
  | cons c rest =>
      rw [cut]
      split
      · exact nofun
      · split <;> exact nofun

theorem cut_append (front back : List Char) : cut (front ++ '/' :: back) = cut front ++ cut back := by
  induction front with
  | nil => simp [cut]
  | cons c front ih =>
      rw [List.cons_append, cut, cut, ih]
      split
      · rfl
      · cases parts : cut front with
        | nil => exact absurd parts (cut_ne_nil front)
        | cons first others => rfl

theorem cut_of_not_mem {chars : List Char} (free : '/' ∉ chars) : cut chars = [chars] := by
  induction chars with
  | nil => rfl
  | cons c rest ih =>
      have apart : c ≠ '/' := fun same => free (same ▸ List.mem_cons_self)
      rw [cut, if_neg apart, ih fun member => free (List.mem_cons_of_mem c member)]

theorem not_mem_of_mem_cut {chars part : List Char} (member : part ∈ cut chars) : '/' ∉ part := by
  induction chars generalizing part with
  | nil =>
      rw [cut, List.mem_singleton] at member
      simp [member]
  | cons c rest ih =>
      rw [cut] at member
      split at member
      · rcases List.mem_cons.mp member with rfl | member
        · exact List.not_mem_nil
        · exact ih member
      next apart =>
      split at member
      · next empty => exact absurd empty (cut_ne_nil rest)
      · next first others found =>
        rw [found] at ih
        rcases List.mem_cons.mp member with rfl | member
        · exact List.not_mem_cons_of_ne_of_not_mem (Ne.symm apart) (ih List.mem_cons_self)
        · exact ih (List.mem_cons_of_mem first member)

theorem segments_join (front back : String) :
    segments (front ++ "/" ++ back) = segments front ++ segments back := by
  simp only [segments, String.toList_append, List.append_assoc]
  rw [← List.map_append, ← cut_append]
  rfl

theorem segments_of_plain {segment : String} (plain : Plain segment) :
    segments segment = [segment] := by
  rw [segments, cut_of_not_mem plain, List.map_singleton, String.ofList_toList]

theorem plain_of_mem_segments {path segment : String} (member : segment ∈ segments path) :
    Plain segment := by
  obtain ⟨part, inside, rfl⟩ := List.mem_map.mp member
  rw [Plain, String.toList_ofList]
  exact not_mem_of_mem_cut inside

theorem segments_intercalate {parts : List String} (nonempty : parts ≠ [])
    (plain : ∀ part ∈ parts, Plain part) : segments ("/".intercalate parts) = parts := by
  induction parts with
  | nil => exact absurd rfl nonempty
  | cons part rest ih =>
      have here := segments_of_plain (plain part List.mem_cons_self)
      cases rest with
      | nil => rw [String.intercalate_singleton, here]
      | cons next rest =>
          rw [String.intercalate_cons_cons, segments_join, here,
            ih nofun fun part member => plain part (List.mem_cons_of_mem _ member)]
          rfl

theorem isAbsolute_append {front : String} (nonempty : front ≠ "") (back : String) :
    isAbsolute (front ++ back) = isAbsolute front := by
  have chars : front.toList ≠ [] := mt String.toList_eq_nil_iff.mp nonempty
  obtain ⟨c, rest, first⟩ := List.exists_cons_of_ne_nil chars
  simp [isAbsolute, first]

theorem isAbsolute_of_plain {segment : String} (plain : Plain segment) :
    isAbsolute segment = false := by
  cases chars : segment.toList with
  | nil => simp [isAbsolute, chars]
  | cons c rest =>
      have apart : c ≠ '/' := fun same => plain (by rw [chars, same]; exact List.mem_cons_self)
      simp [isAbsolute, chars, apart]

/-! ## Taking segments -/

def Ordinary (segment : String) : Prop := stays segment = false ∧ segment ≠ ".."

/-- Steps outward, none for a path from the root, and then steps inward. -/
def Normal (absolute : Bool) (parts : List String) : Prop :=
  ∃ up names, parts = List.replicate up ".." ++ names ∧ (absolute = true → up = 0)
    ∧ ∀ name ∈ names, Ordinary name

variable {absolute : Bool} {done parts segments_ : List String} {segment : String}

theorem take_of_stays (blank : stays segment = true) : take absolute done segment = done :=
  if_pos blank

theorem take_of_ordinary (ordinary : Ordinary segment) :
    take absolute done segment = segment :: done :=
  (if_neg (by rw [ordinary.1]; exact nofun)).trans (if_neg ordinary.2)

/-- Two dots take the segment before them away, unless it leads outward itself. -/
theorem take_up (inward : segment ≠ "..") : take absolute (segment :: done) ".." = done :=
  (if_neg (by decide)).trans ((if_pos rfl).trans (if_neg inward))

/-- What is taken, the last segment first: ordinary segments, and before them steps outward. -/
def Settled (absolute : Bool) : List String → Prop
  | [] => True
  | segment :: done =>
      Ordinary segment ∧ Settled absolute done
        ∨ absolute = false ∧ ∀ step ∈ segment :: done, step = ".."

theorem settled_take (settled : Settled absolute done) (segment : String) :
    Settled absolute (take absolute done segment) := by
  cases blank : stays segment with
  | true => rwa [take_of_stays blank]
  | false =>
      by_cases dots : segment = ".."
      · subst dots
        cases done with
        | nil =>
            cases absolute with
            | true => trivial
            | false => exact .inr ⟨rfl, by simp⟩
        | cons last done =>
            rcases settled with ⟨ordinary, settled⟩ | ⟨relative, outward⟩
            · rwa [take_up ordinary.2]
            · obtain rfl := outward last List.mem_cons_self
              exact .inr ⟨relative, List.forall_mem_cons.mpr ⟨rfl, outward⟩⟩
      · rw [take_of_ordinary ⟨blank, dots⟩]
        exact .inl ⟨⟨blank, dots⟩, settled⟩

theorem settled_foldl (settled : Settled absolute done) (segments_ : List String) :
    Settled absolute (segments_.foldl (take absolute) done) := by
  induction segments_ generalizing done with
  | nil => exact settled
  | cons segment segments_ ih => exact ih (settled_take settled segment)

theorem Settled.normal (settled : Settled absolute done) : Normal absolute done.reverse := by
  induction done with
  | nil => exact ⟨0, [], rfl, fun _ => rfl, List.forall_mem_nil _⟩
  | cons segment done ih =>
      rcases settled with ⟨here, settled⟩ | ⟨relative, outward⟩
      · obtain ⟨up, names, split, root, ordinary⟩ := ih settled
        refine ⟨up, names ++ [segment], ?_, root, ?_⟩
        · rw [List.reverse_cons, split, List.append_assoc]
        · exact List.forall_mem_append.mpr ⟨ordinary, List.forall_mem_singleton.mpr here⟩
      · refine ⟨(segment :: done).length, [], ?_, fun is => (nomatch relative.symm.trans is),
          List.forall_mem_nil _⟩
        rw [List.append_nil, List.eq_replicate_of_mem outward, List.reverse_replicate,
          List.length_replicate]

def normal (absolute : Bool) (segments_ : List String) : List String :=
  (segments_.foldl (take absolute) []).reverse

theorem normal_normal (absolute : Bool) (segments_ : List String) :
    Normal absolute (normal absolute segments_) :=
  have start : Settled absolute [] := trivial
  (settled_foldl start segments_).normal

theorem foldl_ordinary (ordinary : ∀ part ∈ parts, Ordinary part) :
    parts.foldl (take absolute) done = parts.reverse ++ done := by
  induction parts generalizing done with
  | nil => rfl
  | cons part parts ih =>
      obtain ⟨here, later⟩ := List.forall_mem_cons.mp ordinary
      rw [List.foldl_cons, take_of_ordinary here, ih later, List.reverse_cons, List.append_assoc]
      rfl

theorem foldl_outward (up already : Nat) :
    (List.replicate up "..").foldl (take false) (List.replicate already "..")
      = List.replicate (up + already) ".." := by
  induction up generalizing already with
  | zero => rw [Nat.zero_add]; rfl
  | succ up ih =>
      have step : take false (List.replicate already "..") ".." = List.replicate (already + 1) ".." := by
        cases already <;> rfl
      rw [List.replicate_succ, List.foldl_cons, step, ih, Nat.add_right_comm, Nat.add_assoc]

theorem normal_of_normal (is : Normal absolute parts) : normal absolute parts = parts := by
  obtain ⟨up, names, rfl, root, ordinary⟩ := is
  have front : (List.replicate up "..").foldl (take absolute) [] = List.replicate up ".." := by
    cases absolute with
    | true => rw [root rfl]; rfl
    | false => exact foldl_outward up 0
  rw [normal, List.foldl_append, front, foldl_ordinary ordinary, List.reverse_append,
    List.reverse_reverse, List.reverse_replicate]

/-! ## Shortening -/

/-- One step toward the normal form of segments that start from where one is. -/
inductive Shortens : List String → List String → Prop where
  | stay (front back : List String) {segment : String} (blank : stays segment = true) :
      Shortens (front ++ segment :: back) (front ++ back)
  | back (front back : List String) {segment : String} (ordinary : Ordinary segment) :
      Shortens (front ++ segment :: ".." :: back) (front ++ back)

/-- What a list of segments comes to when no step is left. -/
def NormalForm (segments_ parts : List String) : Prop :=
  Relation.ReflTransGen Shortens segments_ parts ∧ Normal false parts

theorem Shortens.normal_eq {first second : List String} (step : Shortens first second) :
    normal false first = normal false second := by
  cases step with
  | stay front back blank =>
      rw [normal, normal, List.foldl_append, List.foldl_append, List.foldl_cons,
        take_of_stays blank]
  | back front back ordinary =>
      rw [normal, normal, List.foldl_append, List.foldl_append, List.foldl_cons, List.foldl_cons,
        take_of_ordinary ordinary, take_up ordinary.2]

theorem shortens_take (settled : Settled false done) (segment : String) (rest : List String) :
    Relation.ReflTransGen Shortens (done.reverse ++ segment :: rest)
      ((take false done segment).reverse ++ rest) := by
  cases blank : stays segment with
  | true =>
      rw [take_of_stays blank]
      exact .single (.stay done.reverse rest blank)
  | false =>
      by_cases dots : segment = ".."
      · subst dots
        cases done with
        | nil => exact .refl
        | cons last done =>
            rcases settled with ⟨ordinary, -⟩ | ⟨-, outward⟩
            · rw [take_up ordinary.2, List.reverse_cons, List.append_assoc]
              exact .single (.back done.reverse rest ordinary)
            · obtain rfl := outward last List.mem_cons_self
              have kept : take false (".." :: done) ".." = ".." :: ".." :: done := rfl
              have flipped : (".." :: ".." :: done).reverse = (".." :: done).reverse ++ [".."] :=
                List.reverse_cons
              rw [kept, flipped, List.append_assoc]
              exact .refl
      · rw [take_of_ordinary ⟨blank, dots⟩, List.reverse_cons, List.append_assoc]
        exact .refl

theorem shortens_foldl (settled : Settled false done) (segments_ : List String) :
    Relation.ReflTransGen Shortens (done.reverse ++ segments_)
      (segments_.foldl (take false) done).reverse := by
  induction segments_ generalizing done with
  | nil => rw [List.append_nil]; exact .refl
  | cons segment rest ih => exact (shortens_take settled segment rest).trans (ih (settled_take settled segment))

theorem normal_eq_of_shortens (steps : Relation.ReflTransGen Shortens segments_ parts) :
    normal false segments_ = normal false parts := by
  induction steps with
  | refl => rfl
  | tail _ step ih => exact ih.trans step.normal_eq

theorem normalForm_iff : NormalForm segments_ parts ↔ parts = normal false segments_ := by
  constructor
  · rintro ⟨steps, is⟩
    rw [normal_eq_of_shortens steps, normal_of_normal is]
  · rintro rfl
    have start : Settled false [] := trivial
    exact ⟨shortens_foldl start segments_, normal_normal false segments_⟩

/-! ## Paths in normal form -/

theorem mem_of_mem_foldl (member : segment ∈ segments_.foldl (take absolute) done) :
    segment ∈ done ∨ segment ∈ segments_ := by
  induction segments_ generalizing done with
  | nil => exact .inl member
  | cons first rest ih =>
      rcases ih member with taken | later
      · have here : segment ∈ done ∨ segment = first := by
          unfold take at taken
          split at taken
          · exact .inl taken
          split at taken
          · next dots =>
            subst dots
            split at taken
            · split at taken
              · exact (List.mem_cons.mp taken).symm
              · exact .inl (List.mem_cons_of_mem _ taken)
            · split at taken
              · exact .inl taken
              · exact .inr (List.mem_singleton.mp taken)
          · exact (List.mem_cons.mp taken).symm
        exact here.imp_right fun same => List.mem_cons.mpr (.inl same)
      · exact .inr (List.mem_cons_of_mem _ later)

theorem plain_of_mem_normal {path : String} (member : segment ∈ normal absolute (segments path)) :
    Plain segment :=
  plain_of_mem_segments ((mem_of_mem_foldl (List.mem_reverse.mp member)).resolve_left
    List.not_mem_nil)

theorem normalize_eq (path : String) :
    normalize path = ofSegments (isAbsolute path) (normal (isAbsolute path) (segments path)) :=
  rfl

theorem normal_cons_of_stays (blank : stays segment = true) :
    normal absolute (segment :: segments_) = normal absolute segments_ := by
  rw [normal, List.foldl_cons, take_of_stays blank, normal]

theorem ne_empty_of_mem_normal (is : Normal absolute parts) (member : segment ∈ parts) :
    segment ≠ "" := by
  obtain ⟨up, names, rfl, -, ordinary⟩ := is
  rintro rfl
  rcases List.mem_append.mp member with outward | inward
  · exact absurd (List.eq_of_mem_replicate outward) (by decide)
  · exact absurd (ordinary _ inward).1 (by decide)

theorem isAbsolute_intercalate (is : Normal absolute parts) (plain : ∀ part ∈ parts, Plain part) :
    isAbsolute ("/".intercalate parts) = false := by
  cases parts with
  | nil => rfl
  | cons part rest =>
      have here := isAbsolute_of_plain (plain part List.mem_cons_self)
      cases rest with
      | nil => rw [String.intercalate_singleton, here]
      | cons next rest =>
          rw [String.intercalate_cons_cons, String.append_assoc,
            isAbsolute_append (ne_empty_of_mem_normal is List.mem_cons_self), here]

theorem ofSegments_false (parts : List String) : ofSegments false parts = "/".intercalate parts :=
  String.empty_append

theorem normalize_ofSegments (is : Normal absolute parts) (plain : ∀ part ∈ parts, Plain part) :
    normalize (ofSegments absolute parts) = ofSegments absolute parts := by
  have read : normal absolute (segments ("/".intercalate parts)) = parts := by
    cases parts with
    | nil => cases absolute <;> decide
    | cons part rest =>
        rw [segments_intercalate (List.cons_ne_nil part rest) plain, normal_of_normal is]
  cases absolute with
  | true =>
      have split : segments (ofSegments true parts) = "" :: segments ("/".intercalate parts) :=
        segments_join "" _
      have rooted : isAbsolute (ofSegments true parts) = true := isAbsolute_append (by decide) _
      rw [normalize_eq, rooted, split, normal_cons_of_stays rfl, read]
  | false =>
      rw [normalize_eq, ofSegments_false, isAbsolute_intercalate is plain, read, ofSegments_false]

theorem normalize_normalize (path : String) : normalize (normalize path) = normalize path :=
  normalize_ofSegments (normal_normal _ _) fun _ => plain_of_mem_normal

theorem isAbsolute_normalize (path : String) : isAbsolute (normalize path) = isAbsolute path := by
  rw [normalize_eq]
  cases isAbsolute path with
  | true => exact isAbsolute_append (by decide) _
  | false =>
      rw [ofSegments_false, isAbsolute_intercalate (normal_normal false _) fun _ => plain_of_mem_normal]

/-! ## The last segment -/

def name (path : String) : String := (segments path).getLast?.getD ""

theorem name_join (front : String) {segment : String} (plain : Plain segment) :
    name (front ++ "/" ++ segment) = segment := by
  rw [name, segments_join, segments_of_plain plain, List.getLast?_concat, Option.getD_some]

/-- A path without a slash lies where one is, and any other in what stands before its last slash. -/
theorem directory_cases (path : String) : Plain path ∧ directory path = "."
    ∨ ∃ front segment, Plain segment ∧ path = front ++ "/" ++ segment
      ∧ directory path = if front = "" then "/" else front := by
  have split := List.takeWhile_append_dropWhile (p := fun c => decide (c ≠ '/'))
    (l := path.toList.reverse)
  have free : '/' ∉ path.toList.reverse.takeWhile fun c => decide (c ≠ '/') := fun member =>
    absurd (List.all_eq_true.mp List.all_takeWhile _ member) (by decide)
  unfold directory
  generalize path.toList.reverse.takeWhile (fun c => decide (c ≠ '/')) = word at split free
  cases behind : path.toList.reverse.dropWhile fun c => decide (c ≠ '/') with
  | nil =>
      rw [behind, List.append_nil] at split
      rw [split, List.mem_reverse] at free
      exact .inl ⟨free, rfl⟩
  | cons c rest =>
      have slash : c = '/' := by
        have first := List.head_dropWhile_not (fun c => decide (c ≠ '/')) (l := path.toList.reverse)
        simp only [behind] at first
        exact Decidable.not_not.mp (of_decide_eq_false (first nofun))
      subst slash
      have chars : path.toList = rest.reverse ++ '/' :: word.reverse := by
        rw [← List.reverse_reverse path.toList, ← split, behind, List.reverse_append,
          List.reverse_cons, List.append_assoc]
        rfl
      refine .inr ⟨String.ofList rest.reverse, String.ofList word.reverse, ?_, ?_, ?_⟩
      · rwa [Plain, String.toList_ofList, List.mem_reverse]
      · rw [← String.toList_inj, chars]
        simp
      · cases rest with
        | nil => rfl
        | cons last rest =>
            rw [if_neg]
            intro empty
            have chars := congrArg String.toList empty
            simp at chars

end Path

end Rill
