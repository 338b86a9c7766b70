import Mathlib
import Rill.Access

/-!
# Indexing by numbers

An index is a number whose exact value is an integer, counted from the front when it is not negative
and from the end when it is. However large the number is, the integers that come up on the way to
its slot fit in 64 bits. A number leads to the same slot in reading and in writing: what is written
by one index of a slot is read back by both of them, under every name the array goes by, and nothing
else changes.
-/

set_option autoImplicit false

namespace Rill

namespace Number

namespace Binary

/-- The number is `z`: its mantissa with its sign, times a power of two, which is written on the
side where it is whole. -/
def Is : Binary → Int → Prop
  | .finite negative mantissa exponent, z =>
      (if negative then -(mantissa : Int) else mantissa) * 2 ^ exponent.toNat
        = z * 2 ^ (-exponent).toNat
  | _, _ => False

instance : (x : Binary) → (z : Int) → Decidable (x.Is z)
  | .finite _ _ _, _ => inferInstanceAs (Decidable (_ = _))
  | .nan, _ | .infinite _, _ => inferInstanceAs (Decidable False)

theorem whole_of_is {negative : Bool} {mantissa : Nat} {exponent z : Int}
    (is : Is (.finite negative mantissa exponent) z) :
    whole negative mantissa exponent = z := by
  rw [Is] at is
  unfold whole wholeSize
  by_cases high : 0 ≤ exponent
  · rw [Int.toNat_of_nonpos (by omega : -exponent ≤ 0), Int.pow_zero, Int.mul_one] at is
    rw [if_pos high, ← is]
    cases negative <;> simp
  · rw [Int.toNat_of_nonpos (by omega : exponent ≤ 0), Int.pow_zero, Int.mul_one] at is
    have positive : (2 : Int) ^ (-exponent).toNat ≠ 0 := Int.ne_of_gt (Int.pow_pos (by decide))
    have quotient : (if negative then -(mantissa : Int) else mantissa).tdiv
        (2 ^ (-exponent).toNat) = z := by rw [is, Int.mul_tdiv_cancel _ positive]
    rw [if_neg high, ← quotient]
    cases negative <;> simp [Int.neg_tdiv, Int.tdiv_eq_ediv_of_nonneg]

theorem isWhole_iff {x : Binary} : x.isWhole = true ↔ ∃ z, x.Is z := by
  cases x with
  | nan | infinite => simp [isWhole, Is]
  | finite negative mantissa exponent =>
      by_cases high : 0 ≤ exponent
      · refine iff_of_true (by simp [isWhole, high])
          ⟨(if negative then -(mantissa : Int) else mantissa) * 2 ^ exponent.toNat, ?_⟩
        rw [Is, Int.toNat_of_nonpos (by omega : -exponent ≤ 0), Int.pow_zero, Int.mul_one]
      · have one : (2 : Int) ^ exponent.toNat = 1 := by
          rw [Int.toNat_of_nonpos (by omega), Int.pow_zero]
        simp only [isWhole, high, decide_false, Bool.false_or, beq_iff_eq, Nat.pow_eq, Is, one,
          Int.mul_one]
        constructor
        · intro divides
          refine ⟨if negative then -(mantissa / 2 ^ (-exponent).toNat : Nat)
            else (mantissa / 2 ^ (-exponent).toNat : Nat), ?_⟩
          have exact_ : ((mantissa / 2 ^ (-exponent).toNat : Nat) : Int) * 2 ^ (-exponent).toNat
              = mantissa := mod_cast Nat.div_mul_cancel (Nat.dvd_of_mod_eq_zero divides)
          cases negative <;> simp only [if_true, Bool.false_eq_true, if_false, Int.neg_mul, exact_]
        · rintro ⟨z, is⟩
          have size : mantissa = z.natAbs * 2 ^ (-exponent).toNat := by
            have sizes := congrArg Int.natAbs is
            rw [Int.natAbs_mul, Int.natAbs_pow] at sizes
            cases negative <;> simpa using sizes
          rw [size, Nat.mul_mod_left]

end Binary

def Is (x : Float) (z : Int) : Prop := (Binary.ofFloat x).Is z

instance (x : Float) (z : Int) : Decidable (Is x z) := inferInstanceAs (Decidable (Binary.Is _ z))

theorem toInt_of_is {x : Float} {z : Int} (is : Is x z) : toInt x = clip z := by
  unfold Is at is
  unfold toInt
  cases found : Binary.ofFloat x with
  | nan | infinite => rw [found] at is; exact is.elim
  | finite negative mantissa exponent =>
      rw [found] at is
      exact congrArg clip (Binary.whole_of_is is)

theorem isWhole_iff {x : Float} : isWhole x = true ↔ ∃ z, Is x z := Binary.isWhole_iff

theorem clip_fits (z : Int) : minInt ≤ clip z ∧ clip z ≤ maxInt := by
  simp only [clip, minInt, maxInt]
  omega

theorem toInt_fits (x : Float) : minInt ≤ toInt x ∧ toInt x ≤ maxInt := by
  unfold toInt
  split
  · decide
  · split <;> decide
  · exact clip_fits _

end Number

namespace Access

open Number (Is maxInt minInt clip toInt)

variable {n : Float} {z : Int} {length : Nat}

/-! ## Places -/

theorem place_eq (is : Is n z) : place n length =
    if -length ≤ clip z ∧ clip z < length then
      .ok (if clip z < 0 then clip z + length else clip z).toNat
    else .error (.outOfRange (clip z) length) := by
  rw [place, if_pos (Number.isWhole_iff.mpr ⟨z, is⟩)]
  simp only [Number.toInt_of_is is]
  split <;> congr 1 <;> exact propext (by omega)

theorem place_inside (fits : length ≤ maxInt) (is : Is n z) (low : -length ≤ z)
    (high : z < length) : place n length = .ok (if z < 0 then z + length else z).toNat := by
  have kept : clip z = z := by
    simp only [clip, minInt, maxInt] at fits ⊢
    omega
  rw [place_eq is, kept, if_pos ⟨low, high⟩]

theorem place_outside (fits : length ≤ maxInt) (is : Is n z) (out : ¬ (-length ≤ z ∧ z < length)) :
    place n length = .error (.outOfRange (clip z) length) := by
  rw [place_eq is, if_neg]
  simp only [clip, minInt, maxInt] at fits ⊢
  omega

theorem place_fractional (fraction : ∀ z, ¬ Is n z) :
    place n length = .error (.mismatch (.fractionalIndex n)) := by
  rw [place, if_neg fun whole => (Number.isWhole_iff.mp whole).elim fraction]

/-- The number is one of the two indices of a slot: its place from the front, or from the end. -/
def Points (n : Float) (length slot : Nat) : Prop :=
  slot < length ∧ (Is n slot ∨ Is n (slot - length))

instance (n : Float) (length slot : Nat) : Decidable (Points n length slot) :=
  inferInstanceAs (Decidable (_ ∧ _))

theorem place_points {slot : Nat} (fits : length ≤ maxInt) (points : Points n length slot) :
    place n length = .ok slot := by
  obtain ⟨inside, is | is⟩ := points
  · rw [place_inside fits is (by omega) (by omega), if_neg (by omega), Int.toNat_natCast]
  · rw [place_inside fits is (by omega) (by omega), if_pos (by omega), Int.sub_add_cancel,
      Int.toNat_natCast]

theorem points_of_place {slot : Nat} (fits : length ≤ maxInt) (found : place n length = .ok slot) :
    Points n length slot := by
  by_cases whole : ∃ z, Is n z
  · obtain ⟨z, is⟩ := whole
    by_cases inside : -length ≤ z ∧ z < length
    · rw [place_inside fits is inside.1 inside.2] at found
      cases found
      refine ⟨by omega, ?_⟩
      split
      · exact .inr (by rwa [show ((z + length).toNat : Int) - length = z by omega])
      · exact .inl (by rwa [show (z.toNat : Int) = z by omega])
    · rw [place_outside fits is inside] at found
      cases found
  · rw [place_fractional (not_exists.mp whole)] at found
    cases found

/-! ## Reading -/

/-- What numbers lead to: the elements of an array, the characters of a text. -/
def sequence? (heap : Heap) : Value → Option (List Value)
  | .array id => some (heap.array id).toList
  | .text text => some (text.toList.map fun c => .text (String.singleton c))
  | _ => none

/-- What reading by a number gives. -/
structure ReadsAt (n : Float) (items : List Value) (read : Except Cause Value) : Prop where
  front (z : Int) (is : Is n z) (low : 0 ≤ z) (high : z < items.length) :
    ∃ value, items[z.toNat]? = some value ∧ read = .ok value
  back (z : Int) (is : Is n z) (low : -items.length ≤ z) (high : z < 0) :
    ∃ value, items[(items.length + z).toNat]? = some value ∧ read = .ok value
  outside (z : Int) (is : Is n z) (out : ¬ (-items.length ≤ z ∧ z < items.length)) :
    read = .error (.outOfRange (clip z) items.length)
  fractional (fraction : ∀ z, ¬ Is n z) : read = .error (.mismatch (.fractionalIndex n))

variable {heap : Heap} {owner : Value} {items : List Value}

theorem getIndex_eq (held : sequence? heap owner = some items) (n : Float) :
    getIndex owner (.number n) heap
      = ((place n items.length).map fun slot => items[slot]?.getD .nil, heap) := by
  cases owner with
  | array id =>
      cases held
      have read : Store.array id heap = (.ok (heap.array id), heap) := rfl
      simp only [getIndex, bind, Store.bind, read, Array.length_toList]
      cases place n (heap.array id).size with
      | ok slot => rw [Except.map, Array.getElem?_toList]; rfl
      | error cause => rfl
  | text text =>
      cases held
      simp only [getIndex, List.length_map]
      cases place n text.toList.length with
      | ok slot => rw [Except.map, List.getElem?_map]; rfl
      | error cause => rfl
  | _ => cases held

theorem readsAt_place (fits : items.length ≤ maxInt) (n : Float) :
    ReadsAt n items ((place n items.length).map fun slot => items[slot]?.getD .nil) where
  front z is low high := by
    have inside : z.toNat < items.length := by omega
    rw [place_inside fits is (by omega) high, if_neg (by omega), Except.map,
      List.getElem?_eq_getElem inside]
    exact ⟨_, rfl, rfl⟩
  back z is low high := by
    have inside : (items.length + z).toNat < items.length := by omega
    rw [place_inside fits is low (by omega), if_pos high, Except.map, Int.add_comm z,
      List.getElem?_eq_getElem inside]
    exact ⟨_, rfl, rfl⟩
  outside z is out := by rw [place_outside fits is out, Except.map]
  fractional fraction := by rw [place_fractional fraction, Except.map]

/-! ## Writing -/

/-- What writing to an array by a number does: it is refused exactly where reading is, and then
nothing changes; else one slot changes, and every index of it under every name of the array reads
the new value. -/
structure WritesAt (n : Float) (id : Nat) (value : Value) (heap next : Heap)
    (written : Except Cause Unit) : Prop where
  agrees : written = (getIndex (.array id) (.number n) heap).1.map fun _ => ()
  refused (cause : Cause) (fails : written = .error cause) : next = heap
  slot (i : Nat) (points : Points n (heap.array id).size i) :
    (next.array id).toList = (heap.array id).toList.set i value
  sizes (other : Nat) : (next.array other).size = (heap.array other).size
  apart (other : Nat) (different : other ≠ id) : next.array other = heap.array other
  rest : { next with arrays := heap.arrays } = heap
  aliased (name : Value) (same : name.same (.array id)) (m : Float) (i : Nat)
    (points : Points n (heap.array id).size i) (points' : Points m (heap.array id).size i) :
    getIndex name (.number m) next = (.ok value, next)
  others (name : Value) (same : name.same (.array id)) (m : Float)
    (different : ∀ i, Points n (heap.array id).size i → ¬ Points m (heap.array id).size i) :
    (getIndex name (.number m) next).1 = (getIndex name (.number m) heap).1

theorem eq_array_of_same {name : Value} {id : Nat} (same : name.same (.array id)) :
    name = .array id := by
  cases name with
  | array other => exact congrArg Value.array (beq_iff_eq.mp same)
  | _ => cases same


theorem array_modify (heap : Heap) (id other : Nat) (f : Array Value → Array Value)
    (empty : f #[] = #[]) : { heap with arrays := heap.arrays.modify id f }.array other
      = if other = id then f (heap.array id) else heap.array other := by
  simp only [Heap.array, Array.getElem?_modify, eq_comm (a := id)]
  split
  · next same =>
    subst same
    cases heap.arrays[other]? <;> simp [empty]
  · rfl

theorem setIndex_eq (n : Float) (id : Nat) (value : Value) (heap : Heap) :
    setIndex (.array id) (.number n) value heap = match place n (heap.array id).size with
      | .ok slot => (.ok (),
          { heap with arrays := heap.arrays.modify id (·.setIfInBounds slot value) })
      | .error cause => (.error cause, heap) := by
  show (match place n (heap.array id).size with
    | .ok slot => Store.changeArray id (·.setIfInBounds slot value)
    | .error cause => Store.fail cause : Store Unit) heap = _
  cases place n (heap.array id).size <;> rfl

theorem writesAt_setIndex {id : Nat} (fits : (heap.array id).size ≤ maxInt) (n : Float)
    (value : Value) : WritesAt n id value heap (setIndex (.array id) (.number n) value heap).2
      (setIndex (.array id) (.number n) value heap).1 := by
  rw [setIndex_eq]
  have reads (heap : Heap) := @getIndex_eq heap (.array id) _ rfl
  simp only [Array.length_toList] at reads
  cases found : place n (heap.array id).size with
  | error cause =>
      have nowhere (i : Nat) : ¬ Points n (heap.array id).size i := fun points =>
        nomatch found.symm.trans (place_points fits points)
      exact {
        agrees := by rw [reads, found]; rfl
        refused := fun _ _ => rfl
        slot := fun i points => (nowhere i points).elim
        sizes := fun _ => rfl
        apart := fun _ _ => rfl
        rest := rfl
        aliased := fun _ _ _ i points => (nowhere i points).elim
        others := fun _ _ _ _ => rfl }
  | ok slot =>
      have here : slot < (heap.array id).size := (points_of_place fits found).1
      have only (i : Nat) (points : Points n (heap.array id).size i) : i = slot :=
        Except.ok.inj ((place_points fits points).symm.trans found)
      have arrays (other : Nat) := array_modify heap id other (·.setIfInBounds slot value) rfl
      have own := (arrays id).trans (if_pos rfl)
      exact {
        agrees := by rw [reads, found]; rfl
        refused := fun _ fails => nomatch fails
        slot := fun i points => by rw [own, only i points, Array.toList_setIfInBounds]
        sizes := fun other => by
          rw [arrays]
          split
          · next same => rw [same, Array.size_setIfInBounds]
          · rfl
        apart := fun other different => by rw [arrays, if_neg different]
        rest := rfl
        aliased := fun name same m i points points' => by
          cases eq_array_of_same same
          rw [reads, own, Array.size_setIfInBounds, place_points fits points', only i points]
          simp [Except.map, here]
        others := fun name same m different => by
          cases eq_array_of_same same
          rw [reads, reads, own, Array.size_setIfInBounds]
          cases found' : place m (heap.array id).size with
          | error cause => rfl
          | ok other =>
              have apart : other ≠ slot := by
                rintro rfl
                exact different other (points_of_place fits found) (points_of_place fits found')
              simp [Except.map, apart.symm] }

/-! ## Indices -/

/-- Reading and writing by a number lead to the same slot, wherever the number lies, and the integers
met on the way fit in 64 bits. -/
theorem indexing (held : sequence? heap owner = some items) (fits : items.length ≤ maxInt)
    (n : Float) :
    (getIndex owner (.number n) heap).2 = heap ∧
    ReadsAt n items (getIndex owner (.number n) heap).1 ∧
    (minInt ≤ toInt n ∧ toInt n ≤ maxInt) ∧
    (toInt n < 0 → minInt ≤ toInt n + items.length ∧ toInt n + items.length ≤ maxInt) ∧
    ∀ id value, owner = .array id →
      WritesAt n id value heap (setIndex owner (.number n) value heap).2
        (setIndex owner (.number n) value heap).1 := by
  have range := Number.toInt_fits n
  refine ⟨?_, ?_, range, fun negative => ⟨by omega, ?_⟩, ?_⟩
  · rw [getIndex_eq held]
  · rw [getIndex_eq held]
    exact readsAt_place fits n
  · simp only [maxInt] at fits ⊢
    omega
  · rintro id value rfl
    cases held
    exact writesAt_setIndex (Array.length_toList ▸ fits) n value

def threeTexts : Heap := { Heap.empty with arrays := #[#[.text "a", .text "b", .text "c"]] }

/-- The last element is read by `-1`. Once it is replaced by that index, `2` reads the new one. -/
theorem indexing_fromEnd :
    (getIndex (.array 0) (.number (-1.0)) threeTexts).1 = .ok (.text "c") ∧
    ∃ next, setIndex (.array 0) (.number (-1.0)) (.text "z") threeTexts = (.ok (), next) ∧
      (next.array 0).toList = [.text "a", .text "b", .text "z"] ∧
      getIndex (.array 0) (.number 2.0) next = (.ok (.text "z"), next) := by
  obtain ⟨-, reads, -, -, writes⟩ :=
    @indexing threeTexts (.array 0) _ rfl (by decide) (-1.0)
  obtain ⟨value, item, read⟩ := reads.back (-1) (by decide +kernel) (by decide) (by decide)
  cases item
  have wrote := writes 0 (.text "z") rfl
  have last : Points (-1.0) 3 2 := by decide +kernel
  have done := wrote.agrees.trans (congrArg (Except.map _) read)
  exact ⟨read, _, Prod.ext done rfl, wrote.slot 2 last,
    wrote.aliased (.array 0) rfl 2.0 2 last (by decide +kernel)⟩

end Access

end Rill
