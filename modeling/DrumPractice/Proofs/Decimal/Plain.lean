import DrumPractice.Proofs.Decimal.Shortest
import DrumPractice.Proofs.Text.Words

/-!
# Numbers without an exponent

What is written without an exponent is read as the number (`Binary.read?_plain`): the text has
digits, and perhaps a point between them or a sign in front, and the value of the decimal survives
wherever the point falls (`exists_write_plain`).

* `Scientific.read?_point`, `Scientific.read?_digits`: digits are read with or without a point;
* `Binary.isBlank_of_mem_plain`: there is no blank in the text;
* `Binary.inFormat_of_read?`: whatever text is read, the number is one of the format.
-/

namespace DrumPractice

variable {F : Format} {whole fraction digits text : List Char} {c : Char} {d : Decimal}
  {negative : Bool} {n : ℕ}

/-! ### Digits -/

theorem isDigit_of_mem_replicate {k : ℕ} (h : c ∈ List.replicate k '0') : c.isDigit = true := by
  rw [List.eq_of_mem_replicate h]
  rfl

namespace Numeral

theorem value_zeros_append (k : ℕ) (digits : List Char) :
    value (List.replicate k '0' ++ digits) = value digits := by
  show Nat.ofDigitChars 10 _ 0 = Nat.ofDigitChars 10 _ 0
  rw [Nat.ofDigitChars_append, Nat.ofDigitChars_replicate_zero, Nat.mul_zero]

theorem value_append_zeros (digits : List Char) (k : ℕ) :
    value (digits ++ List.replicate k '0') = value digits * 10 ^ k := by
  show Nat.ofDigitChars 10 _ 0 = Nat.ofDigitChars 10 _ 0 * _
  rw [Nat.ofDigitChars_append, Nat.ofDigitChars_replicate_zero, Nat.mul_comm]

theorem sign_of_isDigit (hne : text ≠ []) (h : ∀ c ∈ text.head?, c.isDigit = true) :
    sign text = (false, text) := by
  unfold sign
  split
  · cases h '+' rfl
  · cases h '-' rfl
  · rfl

end Numeral

namespace Scientific

theorem read?_digits (hne : whole ≠ []) (h : ∀ c ∈ whole, c.isDigit = true) :
    read? whole = some ⟨whole, [], 0⟩ := by
  have htake : whole.takeWhile Char.isDigit = whole := List.takeWhile_eq_self_iff.2 h
  have hdrop : whole.dropWhile Char.isDigit = [] := List.dropWhile_eq_nil_iff.2 h
  simp [read?, htake, hdrop, hne, exponent?]

theorem read?_point (hne : whole ≠ []) (hwhole : ∀ c ∈ whole, c.isDigit = true)
    (hfraction : ∀ c ∈ fraction, c.isDigit = true) :
    read? (whole ++ '.' :: fraction) = some ⟨whole, fraction, 0⟩ := by
  have htake : (whole ++ '.' :: fraction).takeWhile Char.isDigit = whole := by
    rw [List.takeWhile_append_of_pos hwhole, List.takeWhile_cons_of_neg (by decide),
      List.append_nil]
  have hdrop : (whole ++ '.' :: fraction).dropWhile Char.isDigit = '.' :: fraction := by
    rw [List.dropWhile_append_of_pos hwhole, List.dropWhile_cons_of_neg (by decide)]
  have htake' : fraction.takeWhile Char.isDigit = fraction := List.takeWhile_eq_self_iff.2 hfraction
  have hdrop' : fraction.dropWhile Char.isDigit = [] := List.dropWhile_eq_nil_iff.2 hfraction
  simp [read?, htake, hdrop, htake', hdrop', hne, exponent?]

end Scientific

/-! ### Where the point falls -/

/-- The text of a decimal without an exponent: digits, perhaps a point and more digits. -/
structure IsPlain (text whole fraction : List Char) : Prop where
  ne_nil : whole ≠ []
  isDigit : ∀ c ∈ whole ++ fraction, c.isDigit = true
  text_eq : text = whole ++ '.' :: fraction ∨ fraction = [] ∧ text = whole

theorem IsPlain.read? (h : IsPlain text whole fraction) :
    Scientific.read? text = some ⟨whole, fraction, 0⟩ := by
  obtain ⟨hwhole, hfraction⟩ := List.forall_mem_append.1 h.isDigit
  obtain heq | ⟨rfl, heq⟩ := h.text_eq
  · rw [heq]
    exact Scientific.read?_point h.ne_nil hwhole hfraction
  · rw [heq]
    exact Scientific.read?_digits h.ne_nil hwhole

theorem IsPlain.sign (h : IsPlain text whole fraction) : Numeral.sign text = (false, text) := by
  obtain ⟨c, rest, rfl⟩ := List.exists_cons_of_ne_nil h.ne_nil
  have hc : c.isDigit = true := h.isDigit c (by simp)
  obtain rfl | ⟨-, rfl⟩ := h.text_eq <;>
    exact Numeral.sign_of_isDigit (by simp) (by simpa using hc)

theorem IsPlain.isBlank (h : IsPlain text whole fraction) (hc : c ∈ text) : isBlank c = false := by
  have hmem : c ∈ whole ++ fraction ∨ c = '.' := by
    obtain rfl | ⟨rfl, rfl⟩ := h.text_eq
    · simp only [List.mem_append, List.mem_cons] at hc ⊢
      tauto
    · simpa using .inl hc
  obtain hmem | rfl := hmem
  · exact Numeral.isBlank_of_isDigit (h.isDigit c hmem)
  · decide

/-- Written without an exponent, a decimal keeps its value: its digits are kept together with the
place of the point, but for zeros that stand before the digits or behind a whole number. -/
theorem exists_write_plain (d : Decimal) : ∃ whole fraction,
    IsPlain (Layout.plain.write d).toList whole fraction ∧
      (Scientific.toDecimal ⟨whole, fraction, 0⟩).toRat = d.toRat := by
  obtain ⟨digits, hdigits⟩ : ∃ digits, Nat.toDigits 10 d.digits = digits := ⟨_, rfl⟩
  have hne : digits ≠ [] := hdigits ▸ Numeral.toDigits_ne_nil d.digits
  have hall : ∀ c ∈ digits, c.isDigit = true := fun c hc =>
    Numeral.isDigit_of_mem_toDigits (hdigits ▸ hc)
  have hvalue : Numeral.value digits = d.digits := hdigits ▸ Numeral.value_toDigits d.digits
  obtain ⟨point, hpoint⟩ : ∃ point : ℤ, digits.length + d.exponent = point := ⟨_, rfl⟩
  have hzeros (k : ℕ) : ∀ c ∈ List.replicate k '0', c.isDigit = true :=
    fun c => isDigit_of_mem_replicate
  unfold Layout.write
  simp only [hdigits, hpoint, Layout.plain, if_true]
  split
  · -- the point stands before all digits
    refine ⟨['0'], List.replicate (-point).toNat '0' ++ digits, ⟨by simp, ?_, .inl (by simp)⟩, ?_⟩
    · simp only [List.singleton_append, List.forall_mem_cons, List.forall_mem_append]
      exact ⟨rfl, hzeros _, hall⟩
    · have hcons :
          Numeral.value ('0' :: (List.replicate (-point).toNat '0' ++ digits)) = d.digits :=
        (Numeral.value_zeros_append 1 _).trans ((Numeral.value_zeros_append _ digits).trans hvalue)
      have hexp : (0 : ℤ) - (List.replicate (-point).toNat '0' ++ digits).length = d.exponent := by
        rw [List.length_append, List.length_replicate]
        push_cast
        omega
      rw [Scientific.toDecimal, hexp]
      exact congrArg (fun n : ℕ => (n : ℚ) * 10 ^ d.exponent) hcons
  · split
    · -- it stands behind all digits
      rename_i hlow hhigh
      refine ⟨digits ++ List.replicate (point - digits.length).toNat '0', [],
        ⟨by simp [hne], ?_, .inr ⟨rfl, by simp⟩⟩, ?_⟩
      · rw [List.append_nil, List.forall_mem_append]
        exact ⟨hall, hzeros _⟩
      · have hexp : d.exponent = (point - digits.length).toNat := by omega
        rw [Scientific.toDecimal, List.append_nil, Numeral.value_append_zeros, hvalue,
          Decimal.toRat, Decimal.toRat, hexp, zpow_natCast]
        simp
    · -- it falls between two digits
      rename_i hlow hhigh
      refine ⟨digits.take point.toNat, digits.drop point.toNat, ⟨?_, ?_, .inl (by simp)⟩, ?_⟩
      · rw [Ne, List.take_eq_nil_iff, not_or]
        exact ⟨by omega, hne⟩
      · rwa [List.take_append_drop]
      · have hexp : (0 : ℤ) - (digits.drop point.toNat).length = d.exponent := by
          rw [List.length_drop]
          omega
        rw [Scientific.toDecimal, List.take_append_drop, hvalue, hexp]

/-! ### Numbers -/

namespace Binary

variable {x : Binary F}

/-- The number without the sign of a NaN, which is not written. -/
def canonical : Binary F → Binary F
  | nan _ => nan false
  | x => x

/-- The size of a finite number is written in digits, with a value between the midpoints. -/
theorem exists_plain_finite (h : F.Has n) (negative : Bool) : ∃ text whole fraction,
    IsPlain text whole fraction ∧
      (finite negative n : Binary F).plain.toList = (if negative then ['-'] else []) ++ text ∧
      ∀ negative, 0 < F.precision → ofDecimal negative (Scientific.toDecimal ⟨whole, fraction, 0⟩)
        = (finite negative n : Binary F) := by
  by_cases hzero : n = 0
  · subst hzero
    refine ⟨['0'], ['0'], [], ⟨by simp, by simp, .inr ⟨rfl, rfl⟩⟩, ?_, fun negative hF => ?_⟩
    · cases negative <;> simp [plain, text, Layout.plain]
    · rfl
  · obtain ⟨whole, fraction, hplain, hvalue⟩ := exists_write_plain (F.shortest .up n)
    refine ⟨_, whole, fraction, hplain, ?_, fun negative hF => ?_⟩
    · rw [plain, text]
      simp only [if_neg hzero]
      cases negative
      · rfl
      · exact String.toList_append ..
    · refine ofDecimal_of_covers negative hF h hzero ?_
      rw [hvalue]
      exact Format.shortest_covers .up hzero h.spacing_dvd

/-- What is written without an exponent is read as the number. -/
theorem read?_plain (hF : 0 < F.precision) (h : x.InFormat) :
    read? x.plain.toList = some x.canonical := by
  cases x with
  | nan negative =>
    simp [plain, text, read?, Numeral.sign, Scientific.read?, word?, canonical]
  | infinite negative =>
    cases negative <;> simp [plain, text, read?, Numeral.sign, Scientific.read?, word?, canonical]
  | finite negative n =>
    obtain ⟨text, whole, fraction, hplain, htext, hread⟩ := exists_plain_finite h negative
    have hsign : Numeral.sign (finite negative n : Binary F).plain.toList = (negative, text) := by
      rw [htext]
      cases negative
      · exact hplain.sign
      · rfl
    simp only [read?, hsign, hplain.read?, hread negative hF]
    rfl

/-- There is no blank in the text of a number. -/
theorem isBlank_of_mem_plain (h : x.InFormat) (hc : c ∈ x.plain.toList) : isBlank c = false := by
  cases x with
  | nan negative =>
    have hall : ("NaN".toList.all fun c => !isBlank c) = true := by decide
    simpa using List.all_eq_true.1 hall c hc
  | infinite negative =>
    have hall : ∀ negative,
        ((if negative = true then "-inf" else "inf").toList.all fun c => !isBlank c) = true := by
      decide
    simpa using List.all_eq_true.1 (hall negative) c hc
  | finite negative n =>
    obtain ⟨text, whole, fraction, hplain, htext, -⟩ := exists_plain_finite h negative
    rw [htext, List.mem_append] at hc
    obtain hc | hc := hc
    · cases negative
      · cases hc
      · obtain rfl := List.mem_singleton.1 hc
        decide
    · exact hplain.isBlank hc

/-- Whatever text is read, the number is one of the format. -/
theorem inFormat_of_read? (hF : 0 < F.precision) (h : read? text = some x) : x.InFormat := by
  simp only [read?] at h
  split at h
  · cases h
    exact inFormat_ofDecimal _ hF _
  · unfold word? at h
    dsimp only at h
    split at h
    · cases h
      trivial
    · split at h
      · cases h
        trivial
      · cases h

end Binary

end DrumPractice
