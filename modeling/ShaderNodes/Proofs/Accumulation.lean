import Mathlib
import ShaderNodes.Proofs.Deletion

/-!
# Collecting results

A list of checked results may be collected in one pass that keeps values until the first failure and
errors from then on, or part by part, the parts being collected in turn. It makes no difference:
collecting takes the concatenation of lists to the combination of their outcomes. So it depends on
how a list is split neither whether it succeeds nor which errors it reports, how often and in which
order. A failure without errors takes part in this like any other failure.

* `Checked.note`, `Checked.all_eq_foldl`: one pass;
* `Checked.all_append`, `Checked.all_flatten`: parts;
* `Checked.all_eq_error_iff`: failures, beside `Checked.all_eq_ok_iff`;
* `Checked.collecting_respects_splits`: all of this together.
-/

namespace ShaderNodes

universe u v

namespace Checked

variable {ε : Type u} {α : Type v}

/-- Collects one more result: values as long as nothing has failed, then errors only. -/
def note : Checked ε (List α) → Checked ε α → Checked ε (List α)
  | .ok as, .ok a => .ok (as ++ [a])
  | .ok _, .error es => .error es
  | .error es, .ok _ => .error es
  | .error es, .error fs => .error (es ++ fs)

/-- The error of a result that carries at most one. -/
def error? : Except ε α → Option ε
  | .ok _ => none
  | .error e => some e

/-- Two outcomes are the same if they have the same values and, where these are missing, the same
errors. -/
theorem ext_of_errors {x y : Checked ε α} (hok : ∀ a, x = .ok a ↔ y = .ok a)
    (herrors : x.errors = y.errors) : x = y := by
  cases x with
  | ok a => exact ((hok a).1 rfl).symm
  | error es =>
    cases y with
    | ok b => exact (hok b).2 rfl
    | error fs => exact congrArg _ herrors

theorem map_eq_ok_iff {β : Type v} {x : Checked ε α} {f : α → β} {b : β} :
    Except.map f x = .ok b ↔ ∃ a, x = .ok a ∧ f a = b := by
  cases x <;> simp [Except.map]

theorem errors_map {β : Type v} (f : α → β) (x : Checked ε α) :
    errors (Except.map f x) = x.errors := by
  cases x <;> rfl

/-- Lists are collected one after the other. -/
theorem all_append (xs ys : List (Checked ε α)) :
    all (xs ++ ys) = (both (all xs) (all ys)).map fun p => p.1 ++ p.2 := by
  apply ext_of_errors
  · intro as
    simp only [map_eq_ok_iff, both_eq_ok_iff, all_eq_ok_iff, Prod.exists]
    constructor
    · intro h
      obtain ⟨bs, cs, rfl, rfl, rfl⟩ := List.append_eq_map_iff.1 h
      exact ⟨bs, cs, ⟨rfl, rfl⟩, rfl⟩
    · rintro ⟨bs, cs, ⟨rfl, rfl⟩, rfl⟩
      exact (List.map_append).symm
  · rw [errors_map, errors_both, errors_all, errors_all, errors_all, List.flatMap_append]

theorem all_singleton (x : Checked ε α) : all [x] = x.map fun a => [a] := by
  cases x with
  | ok a => rfl
  | error es => exact congrArg Except.error (List.append_nil es)

theorem note_eq (acc : Checked ε (List α)) (x : Checked ε α) :
    note acc x = (both acc (all [x])).map fun p => p.1 ++ p.2 := by
  rw [all_singleton]
  cases acc <;> cases x <;> rfl

theorem foldl_note (xs ys : List (Checked ε α)) : ys.foldl note (all xs) = all (xs ++ ys) := by
  induction ys generalizing xs with
  | nil => rw [List.append_nil]; rfl
  | cons y ys ih =>
    have hstep : note (all xs) y = all (xs ++ [y]) := by rw [note_eq, all_append]
    rw [List.foldl_cons, hstep, ih, List.append_assoc, List.singleton_append]

/-- One pass collects everything. -/
theorem all_eq_foldl (xs : List (Checked ε α)) : all xs = xs.foldl note (.ok []) :=
  (foldl_note [] xs).symm

theorem all_cons (x : Checked ε α) (xs : List (Checked ε α)) :
    all (x :: xs) = (both x (all xs)).map fun p => p.1 :: p.2 := by
  rw [← List.singleton_append, all_append, all_singleton]
  cases x <;> cases all xs <;> rfl

/-- Parts may be collected on their own first. -/
theorem all_flatten (parts : List (List (Checked ε α))) :
    all parts.flatten = (all (parts.map all)).map List.flatten := by
  induction parts with
  | nil => rfl
  | cons xs parts ih =>
    rw [List.flatten_cons, all_append, ih, List.map_cons, all_cons]
    cases all xs <;> cases all (parts.map all) <;> rfl

theorem succeeds_all (xs : List (Checked ε α)) : (all xs).succeeds = xs.all succeeds := by
  unfold all
  split
  · next h => exact h.symm
  · next h => exact (Bool.eq_false_iff.2 h).symm

theorem exists_all_eq_ok_iff (xs : List (Checked ε α)) :
    (∃ as, all xs = .ok as) ↔ ∀ x ∈ xs, ∃ a, x = .ok a := by
  rw [← succeeds_iff, succeeds_all, List.all_eq_true]
  simp only [succeeds_iff]

/-- A list fails if an element does, be it without an error, and reports all errors in order. -/
theorem all_eq_error_iff {xs : List (Checked ε α)} {es : List ε} :
    all xs = .error es ↔ (∃ x ∈ xs, ∃ fs, x = .error fs) ∧ es = xs.flatMap errors := by
  have herrors := errors_all xs
  constructor
  · intro h
    rw [h] at herrors
    refine ⟨?_, herrors⟩
    by_contra hnone
    have hall : ∀ x ∈ xs, ∃ a, x = .ok a := by
      intro x hx
      cases x with
      | ok a => exact ⟨a, rfl⟩
      | error fs => exact absurd ⟨_, hx, fs, rfl⟩ hnone
    obtain ⟨as, has⟩ := (exists_all_eq_ok_iff xs).2 hall
    rw [has] at h
    cases h
  · rintro ⟨⟨x, hx, fs, rfl⟩, rfl⟩
    cases hall : all xs with
    | ok as =>
      obtain ⟨a, ha⟩ := (exists_all_eq_ok_iff xs).1 ⟨as, hall⟩ _ hx
      cases ha
    | error gs =>
      rw [hall] at herrors
      exact congrArg _ herrors

theorem errors_all_flatten (parts : List (List (Checked ε α))) :
    (all parts.flatten).errors = parts.flatMap fun xs => (all xs).errors := by
  rw [all_flatten, errors_map, errors_all, List.flatMap_map]

theorem errors_each (xs : List (Except ε α)) : (each xs).errors = xs.filterMap error? := by
  unfold each
  rw [errors_all, List.flatMap_map]
  induction xs with
  | nil => rfl
  | cons x xs ih =>
    cases x with
    | ok a => exact ih
    | error e => exact congrArg (e :: ·) ih

theorem each_eq_error_iff {xs : List (Except ε α)} {es : List ε} :
    each xs = .error es ↔ es ≠ [] ∧ es = xs.filterMap error? := by
  have herrors := errors_each xs
  constructor
  · intro h
    refine ⟨?_, by rwa [h] at herrors⟩
    rintro rfl
    exact each_ne_silent xs h
  · rintro ⟨hne, rfl⟩
    cases hall : each xs with
    | ok as =>
      rw [hall] at herrors
      exact absurd herrors.symm hne
    | error fs =>
      rw [hall] at herrors
      exact congrArg _ herrors

/-- Collecting results is a homomorphism: however a list is split, its parts are collected to the
same outcome. All values come out in order if every element has one; otherwise all errors do, each
as often and in the same order as in the list. -/
theorem collecting_respects_splits :
    (∀ xs : List (Checked ε α), all xs = xs.foldl note (.ok [])) ∧
    (∀ xs ys : List (Checked ε α),
      all (xs ++ ys) = (both (all xs) (all ys)).map fun p => p.1 ++ p.2) ∧
    (∀ parts : List (List (Checked ε α)),
      all parts.flatten = (all (parts.map all)).map List.flatten) ∧
    (∀ xs : List (Checked ε α), (∃ as, all xs = .ok as) ↔ ∀ x ∈ xs, ∃ a, x = .ok a) ∧
    (∀ (xs : List (Checked ε α)) (as : List α), all xs = .ok as ↔ xs = as.map .ok) ∧
    (∀ (xs : List (Checked ε α)) (es : List ε),
      all xs = .error es ↔ (∃ x ∈ xs, ∃ fs, x = .error fs) ∧ es = xs.flatMap errors) ∧
    (∀ parts : List (List (Checked ε α)),
      (all parts.flatten).errors = parts.flatMap fun xs => (all xs).errors) ∧
    (∀ xs : List (Except ε α), each xs = all (xs.map (Except.mapError fun e => [e]))) ∧
    (∀ (xs : List (Except ε α)) (es : List ε),
      each xs = .error es ↔ es ≠ [] ∧ es = xs.filterMap error?) :=
  ⟨all_eq_foldl, all_append, all_flatten, exists_all_eq_ok_iff, fun _ _ => all_eq_ok_iff,
    fun _ _ => all_eq_error_iff, errors_all_flatten, fun _ => rfl, fun _ _ => each_eq_error_iff⟩

example : all [(.ok 1 : Checked String Nat), .error [], .ok 2, .error ["a", "b"]] =
    .error ["a", "b"] := rfl

end Checked

end ShaderNodes
