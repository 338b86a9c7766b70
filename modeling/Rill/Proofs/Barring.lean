import Rill.Proofs.Super

/-!
# Super calls left out

A `super` call is the only call that runs in a frame that was there before. Engines are built that
give up on some `super` calls and do all else as the evaluator does (`Engine.barred`). What such an
engine finishes, the evaluator finishes in the same way, and while no method is noted in a frame
there are no calls to give up on that would run there.
-/

set_option autoImplicit false

namespace Rill

/-- A test of `super` calls, by the method that is asked for and the frame of the call. -/
abbrev SuperTest := Heap → Option String → FrameId → Bool

def Heap.enters (home : FrameId) : SuperTest := fun heap target env =>
  match heap.superMethod target env with
  | .ok (frame, _, _) => decide (frame = home)
  | .error _ => false

theorem Heap.enters_iff {heap : Heap} {home env : FrameId} {target : Option String} :
    Heap.enters home heap target env = true ↔
      ∃ found, heap.superMethod target env = .ok found ∧ found.1 = home := by
  unfold enters
  cases heap.superMethod target env with
  | error problem => simp
  | ok found => simp

namespace Engine

/-- Give up instead of making a `super` call that passes a test. -/
def barring (bars : SuperTest) (engine _ordinary : Engine) : SuperWay :=
  fun target args env pos => do
    if ← Exec.read (bars ·.heap target env) then Exec.spent
    else engine.callSuper target args env pos

/-- The evaluator without the `super` calls that pass a test. -/
def barred (bars : SuperTest) : Option Loader → Nat → Engine := via (barring bars)

variable {bars : SuperTest} {engine ordinary : Engine}

theorem barring_eq (target : Option String) (args : List Value) (env : FrameId) (pos : Position)
    (state : State) : barring bars engine ordinary target args env pos state
      = if bars state.heap target env then .spent
        else engine.callSuper target args env pos state := by
  unfold barring
  rw [Exec.bind_eq]
  simp only [Exec.read]
  split <;> rfl

/-- What is finished without some `super` calls, the evaluator finishes in the same way. -/
theorem barred_agrees (bars : SuperTest) (loader : Option Loader) (depth : Nat) :
    EnginesRelated Agrees (barred bars loader depth) (ofDepth loader depth) := by
  induction depth with
  | zero => exact ofDepth_agrees loader (Nat.le_refl 0)
  | succ depth ih =>
      refine ⟨fun job => ?_, Nat.le_refl _, rfl⟩
      rw [perform_succ, ← stepVia_callSuper]
      refine Agrees.uniform.stepVia ih (fun target args env pos state ended => ?_)
        (fun act _ => Agrees.act ih act) job
      rw [barring_eq] at ended ⊢
      split at ended
      · exact absurd rfl ended
      · next other =>
          rw [if_neg other]
          exact Agrees.uniform.supers ih (fun _ => trivial) target args env pos state ended

theorem barred_sameWhile {home : FrameId}
    (only : ∀ heap target env, bars heap target env = true → Heap.enters home heap target env = true)
    (loader : Option Loader) (depth : Nat) :
    EnginesRelated (SameWhile home none) (ofDepth loader depth) (barred bars loader depth) := by
  refine via_sameWhile (fun depth related target args env pos state notes ended => ?_) depth
  have elsewhere : ∀ found, state.heap.superMethod target env = .ok found → found.1 ≠ home := by
    rintro ⟨frame, called, method⟩ resolved rfl
    obtain ⟨running, nearest, -⟩ := Heap.superMethod_noted resolved
    exact absurd ((Heap.methodFrame?_noted nearest).symm.trans notes.2) nofun
  have passes : ¬ bars state.heap target env = true := fun barred => by
    obtain ⟨found, resolved, here⟩ := Heap.enters_iff.mp (only _ _ _ barred)
    exact elsewhere found resolved here
  rw [barring_eq, if_neg passes]
  exact SameWhile.callSuper_elsewhere related notes elsewhere ended

end Engine

end Rill
