import DrumPractice.Config
import DrumPractice.Proofs.Binary.Comparison
import Mathlib.Data.Nat.Notation

/-!
# Settings within their limits

Settings can be used if the tempo lies in its range, above zero, and a bar has beats: `InLimits` says
so by comparisons that succeed, so none of the numbers is a NaN. The tolerance is compared the other
way around, and a NaN passes.

* `isValid_iff`, `isValid_iff_inLimits`: when settings can be used;
* `IsValid.setBpm`: a new tempo in the range keeps them so;
* `beatsPerBar_lt_of_ofToml?`, `beatsPerBar_lt_of_override`: the beats of settings that are read are a
  number of 64 bits, and stay one.
-/

namespace DrumPractice

/-! ### What is read -/

theorem Numeral.natural?_lt {bound n : ℕ} {text : List Char} (h : natural? bound text = some n) :
    n < bound := by
  obtain ⟨-, hlt⟩ := Option.filter_eq_some_iff.1 h
  exact of_decide_eq_true hlt

theorem Toml.asNat?_lt {bound n : ℕ} {v : Toml} (h : v.asNat? bound = some n) : n < bound := by
  cases v with
  | integer k =>
    rw [asNat?] at h
    split at h
    · cases h
      omega
    · cases h
  | _ => cases h

/-- What is read has a property if the default has it and so has every value that can be read. -/
theorem Toml.read?_induction {α : Type} {P : α → Prop} {owner : Toml} {name : String} {place : ℕ}
    {default a : α} {read : Toml → Option α} (h : owner.read? name place default read = some a)
    (hdefault : P default) (hread : ∀ v b, read v = some b → P b) : P a := by
  rw [read?] at h
  obtain ⟨value, -, hvalue⟩ := Option.bind_eq_some_iff.1 h
  cases value with
  | none =>
    cases hvalue
    exact hdefault
  | some v => exact hread v a hvalue

namespace Config

variable {config : Config}

theorem isValid_iff : config.IsValid ↔
    (Binary.ofInt 0 : Single).lt config.tempo.minBpm = true ∧
    config.tempo.minBpm.le config.tempo.maxBpm = true ∧
    config.bpmInRange config.tempo.bpm = true ∧ config.beatsPerBar ≠ 0 ∧
    config.tolerance.le (Binary.ofInt 0) = false := by
  unfold IsValid problem?
  grind

/-- Settings that can be used can be used at any tempo in their range. -/
theorem IsValid.setBpm {bpm : Single} (h : config.IsValid)
    (hbpm : config.bpmInRange bpm = true) :
    ({ config with tempo.bpm := bpm } : Config).IsValid := by
  obtain ⟨hpositive, hrange, -, hbeats, htolerance⟩ := isValid_iff.1 h
  exact isValid_iff.2 ⟨hpositive, hrange, hbpm, hbeats, htolerance⟩

/-- The tempo lies in its range, above zero, and a bar has beats. -/
structure InLimits (config : Config) : Prop where
  positive : (Binary.ofInt 0 : Single).lt config.tempo.minBpm = true
  low : config.tempo.minBpm.le config.tempo.bpm = true
  high : config.tempo.bpm.le config.tempo.maxBpm = true
  beats : 1 ≤ config.beatsPerBar

theorem InLimits.not_isNaN (h : config.InLimits) : config.tempo.minBpm.isNaN = false ∧
    config.tempo.bpm.isNaN = false ∧ config.tempo.maxBpm.isNaN = false :=
  ⟨(Binary.isNaN_of_le h.low).1, (Binary.isNaN_of_le h.high).1, (Binary.isNaN_of_le h.high).2⟩

/-- The tolerance only has to be not below zero and not zero; a NaN is neither. -/
theorem tolerance_iff :
    config.tolerance.le (Binary.ofInt 0) = false ↔
      config.tolerance.isNaN = true ∨ (Binary.ofInt 0).lt config.tolerance = true := by
  cases hnan : config.tolerance.isNaN with
  | true => simp [Binary.le_of_isNaN (.inl hnan)]
  | false =>
    have hzero : (Binary.ofInt 0 : Double).isNaN = false := by decide +kernel
    rw [Binary.lt_eq_not_le hzero hnan]
    simp

theorem isValid_iff_inLimits : config.IsValid ↔
    config.InLimits ∧
      (config.tolerance.isNaN = true ∨ (Binary.ofInt 0).lt config.tolerance = true) := by
  rw [isValid_iff, tolerance_iff, bpmInRange, Bool.and_eq_true]
  constructor
  · rintro ⟨hpositive, -, ⟨hlow, hhigh⟩, hbeats, htolerance⟩
    exact ⟨⟨hpositive, hlow, hhigh, Nat.one_le_iff_ne_zero.2 hbeats⟩, htolerance⟩
  · rintro ⟨h, htolerance⟩
    exact ⟨h.positive, Binary.le_trans h.low h.high, ⟨h.low, h.high⟩,
      Nat.one_le_iff_ne_zero.1 h.beats, htolerance⟩

/-! ### Settings that are read -/

/-- Settings are read with as many beats to a bar as a number of 64 bits can tell. -/
theorem beatsPerBar_lt_of_ofToml? {text : String} (h : ofToml? text = .ok config) :
    config.beatsPerBar < 2 ^ 64 := by
  rw [ofToml?] at h
  split at h
  · rename_i found hfound
    cases h
    obtain ⟨entries, -, htable⟩ := Option.bind_eq_some_iff.1 hfound
    simp only [ofTable?, Option.bind_eq_bind, Option.bind_eq_some_iff] at htable
    obtain ⟨path, -, beats, hbeats, verbose, -, tempo, -, sensor, -, tolerance, -, hconfig⟩ :=
      htable
    cases hconfig
    exact Toml.read?_induction (P := (· < 2 ^ 64)) hbeats (by decide) fun v n => Toml.asNat?_lt
  · cases h

/-- A variable may set the beats of a bar to another number of 64 bits. -/
theorem beatsPerBar_lt_of_setVariable {after : Config} {key value : String}
    (h : config.beatsPerBar < 2 ^ 64) (hset : config.setVariable key value = .ok after) :
    after.beatsPerBar < 2 ^ 64 := by
  simp only [setVariable] at hset
  split at hset
  case h_5 =>
    split at hset
    · rename_i n hn
      cases hset
      exact Numeral.natural?_lt hn
    · cases hset
  -- all other variables leave the beats as they are
  case h_1 | h_3 | h_7 =>
    cases hset
    exact h
  case h_2 | h_4 | h_6 =>
    split at hset <;> cases hset
    exact h

theorem beatsPerBar_lt_of_overrideFrom {lookup : String → Option String} (keys : List String)
    (h : config.beatsPerBar < 2 ^ 64) :
    (overrideFrom lookup keys config).1.beatsPerBar < 2 ^ 64 := by
  induction keys generalizing config with
  | nil => exact h
  | cons key keys ih =>
    rw [overrideFrom]
    cases lookup key with
    | none => exact ih h
    | some value =>
      dsimp only
      cases hset : config.setVariable key value with
      | error problem => exact h
      | ok after => exact ih (beatsPerBar_lt_of_setVariable h hset)

theorem beatsPerBar_lt_of_override (h : config.beatsPerBar < 2 ^ 64)
    (lookup : String → Option String) : (config.override lookup).1.beatsPerBar < 2 ^ 64 :=
  beatsPerBar_lt_of_overrideFrom variableNames h

end Config
end DrumPractice
