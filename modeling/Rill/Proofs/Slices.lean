import Rill.Proofs.Frames
import Rill.Proofs.Indexing

/-!
# Slices of arrays

A bound of a slice is nil, which stands for the end of the array on its side, or a number: its whole
part, counted from the end when it is negative and moved to the nearest end of the array when it lies
outside. A slice is the run of elements between the places of its bounds, in an array of its own, and
the two slices that meet at a number make up the whole array.
-/

set_option autoImplicit false

namespace Rill

namespace Number

/-! ## Whole parts -/

namespace Binary

def value? : Binary → Option ℚ
  | .finite negative mantissa exponent =>
      some ((if negative then -(mantissa : ℚ) else mantissa) * 2 ^ exponent)
  | _ => none

end Binary

def value? (x : Float) : Option ℚ := (Binary.ofFloat x).value?

/-- A fraction cut to the next integer on the side of zero. -/
def towardZero (q : ℚ) : Int := if q < 0 then ⌈q⌉ else ⌊q⌋

namespace Binary

theorem wholeSize_eq (mantissa : Nat) (exponent : Int) :
    (wholeSize mantissa exponent : Int) = ⌊(mantissa : ℚ) * 2 ^ exponent⌋ := by
  unfold wholeSize
  by_cases high : 0 ≤ exponent
  · obtain ⟨power, rfl⟩ := Int.eq_ofNat_of_zero_le high
    rw [if_pos high, Int.toNat_natCast, zpow_natCast]
    exact_mod_cast (Int.floor_natCast (R := ℚ) (mantissa * 2 ^ power)).symm
  · obtain ⟨power, rfl⟩ : ∃ power : Nat, exponent = -power := ⟨(-exponent).toNat, by omega⟩
    rw [if_neg high, Int.neg_neg, Int.toNat_natCast, zpow_neg, zpow_natCast, ← div_eq_mul_inv]
    exact_mod_cast (Rat.floor_natCast_div_natCast mantissa (2 ^ power)).symm

theorem whole_eq (negative : Bool) (mantissa : Nat) (exponent : Int) :
    whole negative mantissa exponent
      = towardZero ((if negative then -(mantissa : ℚ) else mantissa) * 2 ^ exponent) := by
  have size : (0 : ℚ) ≤ mantissa * 2 ^ exponent := by positivity
  unfold whole towardZero
  rw [wholeSize_eq]
  cases negative with
  | false => simp only [Bool.false_eq_true, if_false, if_neg (not_lt.mpr size)]
  | true =>
      simp only [if_true, neg_mul]
      split
      · rw [Int.ceil_neg]
      · next high =>
        -- Minus zero is cut like zero.
        have zero : (mantissa : ℚ) * 2 ^ exponent = 0 := by linarith
        simp [zero]

end Binary

theorem toInt_of_value {x : Float} {q : ℚ} (value : value? x = some q) :
    toInt x = clip (towardZero q) := by
  unfold value? at value
  unfold toInt
  cases found : Binary.ofFloat x with
  | nan | infinite =>
      rw [found] at value
      cases value
  | finite negative mantissa exponent =>
      rw [found] at value
      cases value
      exact congrArg clip (Binary.whole_eq negative mantissa exponent)

end Number

namespace Native

open Number (value? towardZero toInt maxInt minInt clip)

variable {length default : Nat}

/-! ## Bounds -/

/-- An integer counted from the end of an array when it is negative. -/
def counted (length : Nat) (z : Int) : Int := if z < 0 then length + z else z

/-- An integer moved to the nearest end of an array when it lies outside. -/
def clamp (length : Nat) (z : Int) : Nat := (max 0 (min z length)).toNat

theorem clamp_le (length : Nat) (z : Int) : clamp length z ≤ length := by
  unfold clamp
  omega

theorem clamp_clip (fits : length ≤ maxInt) (z : Int) :
    clamp length (counted length (clip z)) = clamp length (counted length z) := by
  have sign : clip z < 0 ↔ z < 0 := by
    simp only [clip, minInt, maxInt]
    omega
  simp only [maxInt] at fits
  unfold clamp counted
  by_cases negative : z < 0
  · rw [if_pos (sign.mpr negative), if_pos negative]
    simp only [clip, minInt, maxInt]
    omega
  · rw [if_neg (mt sign.mp negative), if_neg negative]
    simp only [clip, minInt, maxInt]
    omega

theorem clamp_minInt (fits : length ≤ maxInt) : clamp length (counted length minInt) = 0 := by
  simp only [clamp, counted, minInt, maxInt] at fits ⊢
  omega

theorem clamp_maxInt (fits : length ≤ maxInt) : clamp length (counted length maxInt) = length := by
  simp only [clamp, counted, maxInt] at fits ⊢
  omega

/-- The place a bound stands for, among those from `0`, before the first element, to `length`, behind
the last one. Nil stands for `default`. -/
inductive Marks (length default : Nat) : Option Float → Nat → Prop
  | missing : Marks length default none default
  | undefined {x : Float} (nan : Number.Binary.ofFloat x = .nan) : Marks length default (some x) 0
  | below {x : Float} (low : Number.Binary.ofFloat x = .infinite true) :
      Marks length default (some x) 0
  | above {x : Float} (high : Number.Binary.ofFloat x = .infinite false) :
      Marks length default (some x) length
  | finite {x : Float} {q : ℚ} (value : value? x = some q) :
      Marks length default (some x) (clamp length (counted length (towardZero q)))

theorem Marks.unique {given : Option Float} {place other : Nat}
    (marks : Marks length default given place) (also : Marks length default given other) :
    place = other := by
  cases marks <;> cases also <;> simp_all [value?, Number.Binary.value?]

def edge : Option Float → Value
  | none => .nil
  | some x => .number x

theorem bound_number (x : Float) :
    bound (.number x) length default = pure (clamp length (counted length (toInt x))) := by
  have place : (if toInt x < 0 then (length + toInt x).toNat else min (toInt x).toNat length)
      = clamp length (counted length (toInt x)) := by
    unfold clamp counted
    split <;> omega
  exact congrArg pure place

theorem marks_number (fits : length ≤ maxInt) (default : Nat) (x : Float) :
    Marks length default (some x) (clamp length (counted length (toInt x))) := by
  cases value : value? x with
  | some q =>
      rw [Number.toInt_of_value value, clamp_clip fits]
      exact .finite value
  | none =>
      -- Without an exact value, a number is read as zero or as an end of the 64-bit range.
      cases found : Number.Binary.ofFloat x with
      | finite => simp [value?, Number.Binary.value?, found] at value
      | nan =>
          have read : toInt x = 0 := by simp [toInt, found]
          have start : clamp length (counted length 0) = 0 := by simp [clamp, counted]
          rw [read, start]
          exact .undefined found
      | infinite negative =>
          cases negative with
          | true =>
              have read : toInt x = minInt := by simp [toInt, found]
              rw [read, clamp_minInt fits]
              exact .below found
          | false =>
              have read : toInt x = maxInt := by simp [toInt, found]
              rw [read, clamp_maxInt fits]
              exact .above found

theorem bound_marks (fits : length ≤ maxInt) (inside : default ≤ length) (given : Option Float) :
    ∃ place ≤ length, Marks length default given place ∧
      bound (edge given) length default = pure place := by
  cases given with
  | none => exact ⟨default, inside, .missing, rfl⟩
  | some x => exact ⟨_, clamp_le .., marks_number fits default x, bound_number x⟩

/-! ## Runs of elements -/

/-- The elements between two places: with what stands before and behind them they make up the list.
There are none when the second place is not behind the first. -/
structure Between {α : Type} (items : List α) (start stop : Nat) (run : List α) : Prop where
  part (ordered : start ≤ stop) : ∃ before after,
    items = before ++ run ++ after ∧ before.length = start ∧ (before ++ run).length = stop
  empty (crossed : stop ≤ start) : run = []

theorem Between.eq {α : Type} {items run : List α} {start stop : Nat}
    (between : Between items start stop run) : run = (items.take stop).drop start := by
  rcases Nat.le_total start stop with ordered | crossed
  · obtain ⟨before, after, rfl, size, rfl⟩ := between.part ordered
    rw [List.take_left, List.drop_left' size]
  · rw [between.empty crossed, List.drop_of_length_le]
    exact (List.length_take_le stop items).trans crossed

theorem slice_all (items : Array Value) : slice items 0 items.size = items := Array.extract_size

theorem slice_append (items : Array Value) {start place stop : Nat} (first : start ≤ place)
    (second : place ≤ stop) :
    slice items start place ++ slice items place stop = slice items start stop := by
  rw [slice, slice, slice, Array.extract_append_extract, Nat.min_eq_left first,
    Nat.max_eq_right second]

theorem size_slice (items : Array Value) {start stop : Nat} (inside : stop ≤ items.size) :
    (slice items start stop).size = stop - start := by
  rw [slice, Array.size_extract, Nat.min_eq_left inside]

theorem between_slice (items : Array Value) {start stop : Nat} (inside : stop ≤ items.size) :
    Between items.toList start stop (slice items start stop).toList where
  part ordered := by
    have whole : slice items 0 start ++ slice items start stop ++ slice items stop items.size
        = items := by
      rw [slice_append items (Nat.zero_le start) ordered,
        slice_append items (Nat.zero_le stop) inside, slice_all]
    have before : (slice items 0 start).size = start :=
      size_slice items (ordered.trans inside)
    refine ⟨(slice items 0 start).toList, (slice items stop items.size).toList, ?_, ?_, ?_⟩
    · rw [← Array.toList_append, ← Array.toList_append, whole]
    · rw [Array.length_toList, before]
    · rw [List.length_append, Array.length_toList, Array.length_toList, before,
        size_slice items inside, Nat.add_sub_of_le ordered]
  empty crossed := by rw [slice, Array.extract_empty_of_stop_le_start crossed]

end Native

namespace State

def withArray (state : State) (items : Array Value) : State :=
  { state with heap := { state.heap with arrays := state.heap.arrays.push items } }

theorem withArray_array (state : State) (items : Array Value) (id : Nat) :
    (state.withArray items).heap.array id
      = if id = state.heap.arrays.size then items else state.heap.array id := by
  simp only [withArray, Heap.array, Array.getElem?_push]
  split <;> rfl

end State

namespace Engine

open Number (toInt maxInt minInt)

variable (engine : Engine) {state : State} {name : String} {id : Nat} {items : Array Value}

theorem callNative_slice_eq {args : List Value} {start stop : Nat}
    (held : state.heap.array id = items)
    (first : Native.bound (Native.arg args 0) items.size 0 = pure start)
    (second : Native.bound (Native.arg args 1) items.size items.size = pure stop) :
    engine.callNative (.ofArray .slice name id) args state
      = .done (.array state.heap.arrays.size)
          (state.withArray (Native.slice items start stop)) := by
  simp only [callNative, callArray, Exec.bind_eq, Exec.store_eq, Store.array, Store.read, held,
    first, second]
  rfl

theorem array_withSlice (held : state.heap.array id = items) (start stop : Nat) :
    (state.withArray (Native.slice items start stop)).heap.array id = items := by
  rw [State.withArray_array]
  split
  · next fresh =>
    -- The cell of the new array was empty, so the slice of it is.
    have nothing : items = #[] := by
      rw [← held]
      simp [Heap.array, fresh]
    rw [nothing, Native.slice, Array.extract_empty]
  · exact held

theorem callNative_slice_halves (held : state.heap.array id = items) {x : Float} {place : Nat}
    (found : ∀ default, Native.bound (.number x) items.size default = pure place) :
    (do
      let front ← engine.callNative (.ofArray .slice name id) [.nil, .number x]
      let back ← engine.callNative (.ofArray .slice name id) [.number x, .nil]
      return (front, back)) state
      = .done (.array state.heap.arrays.size, .array (state.heap.arrays.size + 1))
          ((state.withArray (Native.slice items 0 place)).withArray
            (Native.slice items place items.size)) := by
  have front : engine.callNative (.ofArray .slice name id) [.nil, .number x] state = _ :=
    callNative_slice_eq engine held rfl (found items.size)
  have back : engine.callNative (.ofArray .slice name id) [.number x, .nil]
      (state.withArray (Native.slice items 0 place)) = _ :=
    callNative_slice_eq engine (array_withSlice held 0 place) (found 0) rfl
  rw [Exec.bind_eq, front]
  simp only
  rw [Exec.bind_eq, back]
  simp only [State.withArray, Array.size_push]
  rfl

/-- A slice is a new array of the elements between the places of its two bounds, both of which lie in
the array, and nothing else changes. The integers met on the way fit in 64 bits, as the size of every
array in memory does. Whatever number two slices meet at, they make up the whole array. -/
theorem callNative_slice {args : List Value} {first last : Option Float}
    (held : state.heap.array id = items) (fits : items.size ≤ maxInt)
    (begins : Native.arg args 0 = Native.edge first) (ends : Native.arg args 1 = Native.edge last) :
    (∃ start ≤ items.size, ∃ stop ≤ items.size, ∃ run : Array Value,
      Native.Marks items.size 0 first start ∧ Native.Marks items.size items.size last stop ∧
      Native.Between items.toList start stop run.toList ∧
      engine.callNative (.ofArray .slice name id) args state
        = .done (.array state.heap.arrays.size) (state.withArray run)) ∧
    (∀ x : Float, (minInt ≤ toInt x ∧ toInt x ≤ maxInt) ∧
      (toInt x < 0 → minInt ≤ items.size + toInt x ∧ items.size + toInt x ≤ maxInt)) ∧
    ∀ x : Float, ∃ front back : Array Value,
      (do
        let front ← engine.callNative (.ofArray .slice name id) [.nil, .number x]
        let back ← engine.callNative (.ofArray .slice name id) [.number x, .nil]
        return (front, back)) state
        = .done (.array state.heap.arrays.size, .array (state.heap.arrays.size + 1))
            ((state.withArray front).withArray back) ∧
      front ++ back = items := by
  refine ⟨?_, fun x => ?_, fun x => ?_⟩
  · obtain ⟨start, low, starts, begun⟩ := Native.bound_marks fits (Nat.zero_le _) first
    obtain ⟨stop, high, stops, ended⟩ := Native.bound_marks fits (Nat.le_refl _) last
    exact ⟨start, low, stop, high, _, starts, stops, Native.between_slice items high,
      callNative_slice_eq engine held (begins ▸ begun) (ends ▸ ended)⟩
  · have range := Number.toInt_fits x
    refine ⟨range, fun negative => ?_⟩
    simp only [maxInt] at fits range ⊢
    omega
  · have inside := Native.clamp_le items.size (Native.counted items.size (toInt x))
    refine ⟨_, _, callNative_slice_halves engine held fun default => Native.bound_number x, ?_⟩
    rw [Native.slice_append items (Nat.zero_le _) inside, Native.slice_all]

/-- From `-2.5` to infinity: the first counts as `-2`, from the end, and the second goes to the
end. -/
theorem callNative_slice_fraction :
    let state : State := .ofHeap Access.threeTexts
    ∃ next, (ofDepth none 0).callNative (.ofArray .slice "slice" 0)
        [.number (-2.5), .number (1.0 / 0.0)] state = .done (.array 1) next ∧
      (next.heap.array 1).toList = [.text "b", .text "c"] := by
  intro state
  obtain ⟨⟨start, -, stop, -, run, starts, stops, between, ran⟩, -, -⟩ :=
    @callNative_slice (ofDepth none 0) state "slice" 0 _ [.number (-2.5), .number (1.0 / 0.0)]
      (some (-2.5)) (some (1.0 / 0.0)) rfl (by decide) rfl rfl
  have value : Number.value? (-2.5) = some (-5 / 2) := by decide +kernel
  have endless : Number.Binary.ofFloat (1.0 / 0.0) = .infinite false := by decide +kernel
  have second : start = 1 := (starts.unique (.finite value)).trans (by decide +kernel)
  have third : stop = 3 := (stops.unique (.above endless)).trans rfl
  refine ⟨_, ran, ?_⟩
  rw [State.withArray_array, if_pos (show 1 = state.heap.arrays.size from rfl), between.eq, second,
    third]
  rfl

end Engine

end Rill
