import DrumPractice.Error
import Mathlib.Data.List.Forall2

/-!
# Steps that may fail

Steps taken one after another fail as the first of them that does. For the items of a list this says
which results mapping it can have.

* `bind_eq_error`, `map_eq_error`, `map_eq_ok`: two steps;
* `mapM_eq_ok_iff_forall₂`, `mapM_eq_ok_iff`, `mapM_eq_error_iff`: the items of a list;
* `Checked.toOutcome_eq_ok`, `Checked.toOutcome_eq_fault`: steps that can only fault;
* `Outcome.Settles.of_toOutcome_bind`: the first step of a computation that settles.
-/

namespace DrumPractice

variable {ε β γ : Type}

/-- Steps fail together at the first of them that does. -/
theorem bind_eq_error {x : Except ε β} {f : β → Except ε γ} {e : ε} :
    (x >>= f) = .error e ↔ x = .error e ∨ ∃ y, x = .ok y ∧ f y = .error e := by
  cases x with
  | error e' => simp [bind, Except.bind]
  | ok y => simp [bind, Except.bind]

theorem map_eq_error {x : Except ε β} {f : β → γ} {e : ε} : f <$> x = .error e ↔ x = .error e := by
  cases x with
  | error e' => simp [Functor.map, Except.map]
  | ok y => simp [Functor.map, Except.map]

theorem map_eq_ok {x : Except ε β} {f : β → γ} {z : γ} :
    f <$> x = .ok z ↔ ∃ y, x = .ok y ∧ f y = z := by
  cases x with
  | error e' => simp [Functor.map, Except.map]
  | ok y => simp [Functor.map, Except.map]

theorem mapError_eq_error {ε' : Type} {x : Except ε β} {f : ε → ε'} {e : ε'} :
    x.mapError f = .error e ↔ ∃ e', x = .error e' ∧ f e' = e := by
  cases x with
  | error e' => simp [Except.mapError]
  | ok y => simp [Except.mapError]

theorem exists_mapM_eq_ok_iff {f : β → Except ε γ} {xs : List β} :
    (∃ ys, xs.mapM f = .ok ys) ↔ ∀ x ∈ xs, ∃ y, f x = .ok y := by
  induction xs with
  | nil => exact ⟨fun _ => by simp, fun _ => ⟨[], rfl⟩⟩
  | cons x xs ih =>
    rw [List.mapM_cons, List.forall_mem_cons, ← ih]
    constructor
    · rintro ⟨ys, h⟩
      obtain ⟨y, hx, h⟩ := bind_eq_ok.1 h
      obtain ⟨ys, hxs, -⟩ := bind_eq_ok.1 h
      exact ⟨⟨y, hx⟩, ys, hxs⟩
    · rintro ⟨⟨y, hx⟩, ys, hxs⟩
      rw [hx, hxs]
      exact ⟨y :: ys, rfl⟩

/-- A list is mapped if and only if every item of it is. -/
theorem mapM_eq_ok_iff {f : β → Except ε γ} {g : β → γ} {xs : List β} {P : β → Prop}
    (hf : ∀ x ∈ xs, ∀ y, f x = .ok y ↔ P x ∧ y = g x) {ys : List γ} :
    xs.mapM f = .ok ys ↔ (∀ x ∈ xs, P x) ∧ ys = xs.map g := by
  constructor
  · intro h
    have hall : ∀ x ∈ xs, P x := by
      intro x hx
      obtain ⟨y, hy⟩ := exists_mapM_eq_ok_iff.1 ⟨ys, h⟩ x hx
      exact ((hf x hx y).1 hy).1
    rw [mapM_eq_ok fun x hx => (hf x hx _).2 ⟨hall x hx, rfl⟩] at h
    cases h
    exact ⟨hall, rfl⟩
  · rintro ⟨hall, rfl⟩
    exact mapM_eq_ok fun x hx => (hf x hx _).2 ⟨hall x hx, rfl⟩

/-- A list fails to be mapped if and only if an item does, those before it being mapped. -/
theorem mapM_eq_error_iff {f : β → Except ε γ} {xs : List β} {e : ε} :
    xs.mapM f = .error e ↔ ∃ earlier x later, xs = earlier ++ x :: later ∧
      (∀ y ∈ earlier, ∃ z, f y = .ok z) ∧ f x = .error e := by
  constructor
  · intro h
    induction xs with
    | nil => cases h
    | cons x xs ih =>
      rw [List.mapM_cons] at h
      rcases bind_eq_error.1 h with hx | ⟨y, hx, h⟩
      · exact ⟨[], x, xs, rfl, by simp, hx⟩
      · rcases bind_eq_error.1 h with hxs | ⟨ys, -, h⟩
        · obtain ⟨earlier, z, later, rfl, hearlier, hz⟩ := ih hxs
          exact ⟨x :: earlier, z, later, rfl, List.forall_mem_cons.2 ⟨⟨y, hx⟩, hearlier⟩, hz⟩
        · cases h
  · rintro ⟨earlier, x, later, rfl, hearlier, hx⟩
    induction earlier with
    | nil =>
      rw [List.nil_append, List.mapM_cons, hx]
      rfl
    | cons y earlier ih =>
      obtain ⟨z, hz⟩ := hearlier y (by simp)
      have hrest := ih fun y' hy' => hearlier y' (List.mem_cons_of_mem _ hy')
      rw [List.cons_append, List.mapM_cons, hz, hrest]
      rfl

/-- What is made of the items in a second step can be made of the list. -/
theorem mapM_map {δ : Type} {f : β → Except ε γ} (g : γ → δ) (xs : List β) :
    (xs.mapM fun x => g <$> f x) = List.map g <$> xs.mapM f := by
  induction xs with
  | nil => rfl
  | cons x xs ih =>
    rw [List.mapM_cons, List.mapM_cons, ih]
    cases f x with
    | error e => rfl
    | ok y => cases xs.mapM f <;> rfl

/-! ### Steps that can only fault -/

theorem Checked.toOutcome_eq_ok {x : Checked β} {y : β} : x.toOutcome = .ok y ↔ x = .ok y :=
  mapError_eq_ok

theorem Checked.toOutcome_eq_fault {x : Checked β} {f : Fault} :
    x.toOutcome = .error (.fault f) ↔ x = .error f := by
  cases x with
  | error f' =>
    constructor
    · rintro ⟨⟩
      rfl
    · rintro ⟨⟩
      rfl
  | ok y =>
    constructor
    · rintro ⟨⟩
    · rintro ⟨⟩

theorem Checked.toOutcome_ne_error (x : Checked β) (e : Error) :
    x.toOutcome ≠ .error (.error e) := by
  cases x <;> rintro ⟨⟩

/-! ### Computations that settle -/

theorem Outcome.Settles.of_toOutcome {x : Checked β} (h : x.toOutcome.Settles) :
    ∃ y, x = .ok y := by
  cases x with
  | error f => exact absurd rfl (h f)
  | ok y => exact ⟨y, rfl⟩

theorem Outcome.Settles.of_toOutcome_bind {x : Checked β} {g : β → Outcome γ}
    (h : (x.toOutcome >>= g).Settles) : ∃ y, x = .ok y ∧ (g y).Settles := by
  cases x with
  | error f => exact absurd rfl (h f)
  | ok y => exact ⟨y, rfl, h⟩

end DrumPractice
