import DrumPractice.Proofs.Binary.Comparison
import DrumPractice.Proofs.Binary.Neighbours
import DrumPractice.Proofs.Binary.Quotient
import DrumPractice.Proofs.Board.Choice

/-!
# A hit exactly on a target

Positions are computed with rounding, but a position equal to a target has no distance from it, and
no distance is below that, not even as a negative zero. So on a board whose tolerance is a number
above zero such a position is a hit, if the target is unhit; with a tolerance that is not a number
no position is (`judge_of_sameValue`, `judge_of_isNaN`).

* `Binary.exists_isBar_ofInt`: the beats of a bar are a positive number of the format;
* `rem_abs_cases`, `modulo_cases`: remainders by a bar are no numbers, or parts of the bar;
* `place_distance_nonneg`, `distance_of_sameValue`: distances around the bar.
-/

namespace DrumPractice

namespace Binary

variable {F : Format} {x y bar : Binary F} {units part n k : ℕ}

/-- A positive number of the format. -/
structure IsBar (bar : Binary F) (units : ℕ) : Prop where
  eq : bar = .finite false units
  pos : 0 < units
  has : F.Has units

theorem exists_isBar_ofInt (hF : 0 < F.precision) (hk : k < F.top) (hone : 2 ≤ F.one)
    (hpos : 0 < n) (hn : n ≤ 2 ^ k) : ∃ units, (ofInt n : Binary F).IsBar units := by
  have hfinite : (ofInt n : Binary F) = .finite false (F.nearest n 1 * F.one) :=
    ofInt_eq_finite hF hk hn
  have hhas : (ofInt n : Binary F).InFormat := inFormat_ofUnits hF _ _ Nat.one_pos
  rw [hfinite] at hhas
  refine ⟨_, hfinite, ?_, hhas⟩
  -- rounding keeps half of a number that has two units or more
  have hhalf := Format.half_le_nearest hF (n * F.one) Nat.one_pos
  have hlarge : (2 : ℚ) ≤ (n * F.one : ℕ) := by
    exact_mod_cast hone.trans (Nat.le_mul_of_pos_left _ hpos)
  rw [Nat.cast_one, div_one, Format.nearest_mul_one] at hhalf
  have hcast : (0 : ℚ) < (F.nearest n 1 * F.one : ℕ) := by linarith
  exact_mod_cast hcast

namespace IsBar

/-- A sum that is no longer than the bar is not rounded to more. -/
theorem exists_add (h : bar.IsBar units) {a b : Bool} {i j : ℕ} (hpos : 0 < n) (hn : n ≤ units)
    (hsum : signed a i + signed b j = n) :
    ∃ rest, (finite a i + finite b j : Binary F) = .finite false rest ∧ rest ≤ units := by
  have hle : F.nearest n 1 ≤ units := Format.nearest_le h.has.spacing_dvd Nat.one_pos (by omega)
  refine ⟨F.nearest n 1, ?_, hle⟩
  show add (finite a i) (finite b j) = _
  rw [add, hsum, if_neg (by omega), Int.natAbs_natCast, decide_eq_false (by omega)]
  exact if_neg (Nat.not_le.2 (hle.trans_lt h.has.lt_limit))

/-- The rest of the bar. -/
theorem exists_sub (h : bar.IsBar units) (hpart : part < units) :
    ∃ rest, bar - .finite false part = .finite false rest ∧ rest ≤ units := by
  rw [h.eq]
  refine h.exists_add (Nat.sub_pos_of_lt hpart) (Nat.sub_le units part) ?_
  simp only [signed, Bool.not_false, Bool.false_eq_true, if_false, if_true]
  omega

/-- The remainder of a distance by a bar. -/
theorem rem_abs_cases (h : bar.IsBar units) (x : Binary F) :
    x.abs.rem bar = .nan false ∨ ∃ part, x.abs.rem bar = .finite false part ∧ part < units := by
  rw [h.eq]
  cases x with
  | nan negative => exact .inl rfl
  | infinite negative => exact .inl rfl
  | finite negative count =>
    exact .inr ⟨count % units, if_neg h.pos.ne', Nat.mod_lt count h.pos⟩

end IsBar

theorem min_eq_or (x y : Binary F) : x.min y = x ∨ x.min y = y := by
  unfold min
  split_ifs <;> simp

/-- What is equal in value to a finite number has no difference from it. -/
theorem sub_of_sameValue {negative : Bool} (h : (finite negative part : Binary F).SameValue y)
    (hpart : part < F.limit) : ∃ zero, (finite negative part : Binary F) - y = finite zero 0 := by
  obtain ⟨r, hx, hy⟩ := sameValue_iff.1 h
  cases y with
  | nan other => cases hy
  | infinite other =>
    -- a finite number has not the rank of an infinity
    rw [← hx] at hy
    have hrank := Option.some.inj hy
    cases negative <;> cases other <;>
      simp only [signed, Bool.false_eq_true, if_false, if_true] at hrank <;> omega
  | finite other count =>
    rw [← hx] at hy
    have hrank : signed other count = signed negative part := Option.some.inj hy
    have hsum : signed negative part + signed (!other) count = 0 := by
      rw [← hrank]
      cases other <;> simp [signed]
    exact ⟨negative && !other, if_pos hsum⟩

end Binary

theorem ofInt_zero : (Binary.ofInt 0 : Double) = .finite false 0 := by decide +kernel

theorem scalar_zero_eq : (Scalar.zero : Double) = .finite false 0 := by
  have hzero : (Scalar.zero : Double) = Binary.ofInt (0 : ℕ) := by
    unfold Scalar.zero
    rfl
  rw [hzero, Binary.ofInt_natCast (by decide) (Nat.two_pow_pos _), Nat.zero_mul]

/-- A remainder by a bar is no number, or is no longer than the bar. -/
theorem modulo_cases {bar : Double} {units : ℕ} (h : bar.IsBar units) (x : Double) :
    (Scalar.modulo x bar).isNaN = true ∨
      ∃ negative part, Scalar.modulo x bar = .finite negative part ∧ part ≤ units := by
  have hmodulo : Scalar.modulo x bar =
      if (x.rem bar).lt Scalar.zero then x.rem bar + bar.abs else x.rem bar := rfl
  rw [hmodulo, scalar_zero_eq]
  cases x with
  | nan negative | infinite negative =>
    rw [h.eq]
    exact .inl rfl
  | finite negative count =>
    have hrem : (Binary.finite negative count : Double).rem bar
        = .finite negative (count % units) := by
      rw [h.eq]
      exact if_neg h.pos.ne'
    have hpart : count % units < units := Nat.mod_lt count h.pos
    rw [hrem]
    split
    · rename_i hneg
      obtain ⟨r, q, hr, hq, hlt⟩ := Binary.lt_iff.1 hneg
      cases hr
      cases hq
      rw [h.eq]
      cases negative with
      | false =>
        simp only [Binary.signed, Bool.false_eq_true, if_false] at hlt
        omega
      | true =>
        have hsum : Binary.signed true (count % units) + Binary.signed false units
            = (units - count % units : ℕ) := by
          simp only [Binary.signed, Bool.false_eq_true, if_false, if_true]
          omega
        obtain ⟨rest, hrest, hle⟩ :=
          h.exists_add (Nat.sub_pos_of_lt hpart) (Nat.sub_le units (count % units)) hsum
        exact .inr ⟨false, rest, hrest, hle⟩
    · exact .inr ⟨negative, count % units, rfl, hpart.le⟩

namespace Board

variable {board : Board Double} {units : ℕ} {x y : Double}

/-- A distance is no number, or has no sign. -/
theorem place_distance_nonneg (h : board.beatsPerBar.IsBar units) (x y : Double) :
    0 ≤ (board.distance x y).place := by
  set d := (x - y).abs.rem board.beatsPerBar
  have hd : 0 ≤ d.place ∧ 0 ≤ (board.beatsPerBar - d).place := by
    rcases h.rem_abs_cases (x - y) with heq | ⟨part, heq, hlt⟩
    · rw [show d = .nan false from heq, h.eq]
      have hplace : (0 : ℤ) ≤ (Binary.nan false : Double).place := Int.natCast_nonneg (_ + 1)
      exact ⟨hplace, hplace⟩
    · obtain ⟨rest, hrest, -⟩ := h.exists_sub hlt
      rw [show d = .finite false part from heq, hrest]
      exact ⟨Int.natCast_nonneg part, Int.natCast_nonneg rest⟩
  rcases d.min_eq_or (board.beatsPerBar - d) with hmin | hmin
  · exact hd.1.trans_eq (congrArg Binary.place hmin.symm)
  · exact hd.2.trans_eq (congrArg Binary.place hmin.symm)

/-- A position has no distance from a target of the same value. -/
theorem distance_of_sameValue {negative : Bool} {part : ℕ} (h : board.beatsPerBar.IsBar units)
    (hpart : part < Format.double.limit) (hsame : (Binary.finite negative part).SameValue y) :
    board.distance (.finite negative part) y = .finite false 0 := by
  obtain ⟨zero, hsub⟩ := Binary.sub_of_sameValue hsame hpart
  have hrem : (Binary.abs (.finite negative part - y)).rem board.beatsPerBar
      = .finite false 0 := by
    rw [hsub, h.eq, Binary.abs, Binary.rem, if_neg h.pos.ne', Nat.zero_mod]
  obtain ⟨rest, hrest, -⟩ := h.exists_sub h.pos
  have hdistance : board.distance (.finite negative part) y
      = Binary.min (.finite false 0) (board.beatsPerBar - .finite false 0) := by
    rw [← hrem]
    rfl
  have hlt : (Binary.finite false rest : Double).lt (.finite false 0) = false := by
    simp [Binary.lt, Binary.rank, Binary.signed]
  rw [hdistance, hrest, Binary.min, hlt]
  rfl

/-! ### Judging -/

variable {v : Voice} {position target : Double} {i : ℕ}

/-- With a tolerance that is not a number every position is a miss. -/
theorem judge_of_isNaN (h : board.tolerance.isNaN = true) :
    board.judge v position = (.miss v, board) := by
  refine judge_eq_miss fun c _ hreach => ?_
  have hle : c.distance.le board.tolerance = true := hreach
  rw [Binary.le_of_isNaN (.inr h)] at hle
  cases hle

/-- A position equal to an unhit target is a hit, if the tolerance is above zero. -/
theorem judge_of_sameValue {negative : Bool} {part : ℕ} (hflagged : board.Flagged)
    (hbar : board.beatsPerBar.IsBar units)
    (htolerance : (Binary.finite false 0).lt board.tolerance = true)
    (htarget : (board.frame.hits.get v)[i]? = some target)
    (hunhit : (board.struck.get v)[i]? = some false)
    (hpart : part < Format.double.limit) (hsame : (Binary.finite negative part).SameValue target) :
    ∃ met offset, (board.judge v (.finite negative part)).1 = .hit v met offset := by
  set position : Double := .finite negative part
  have hdistance := distance_of_sameValue hbar hpart hsame
  have hreach : Scalar.le (board.distance position target) board.tolerance = true := by
    rw [hdistance]
    exact Binary.le_of_lt htolerance
  obtain ⟨c, hc⟩ := hflagged.exists_meets (List.mem_of_getElem? htarget) hreach
  -- a struck target would have to be nearer than no distance
  have hfresh : c.struck = false := by
    rw [← Bool.not_eq_true]
    intro hstruck
    have hsees : board.Sees v position ⟨i, target, board.distance position target, false⟩ :=
      ⟨htarget, hunhit, rfl⟩
    have hnearer : c.distance.order (board.distance position target) = .lt :=
      hc.order_eq_lt hstruck hsees rfl hreach
    have hplace := place_distance_nonneg hbar position c.target
    rw [hdistance, Binary.order, Int.compare_eq_lt, hc.distance] at hnearer
    exact absurd hnearer (Int.not_lt.2 hplace)
  exact ⟨c.target, board.offset position c.target, by rw [judge_of_unhit hc hfresh]⟩

end Board
end DrumPractice
