import DrumPractice.Proofs.Text.Words
import DrumPractice.Rudiment

/-!
# The spellings of a rudiment

A name is compared in lower case and without spaces, dashes and underscores. A text that spells a
rudiment is plain, since the names of rudiments are: it can be squeezed character by character, and
its words, joined by spaces, spell the same rudiment.

* `lowerFrom_eq_flatMap`, `squeeze_eq_flatMap`: squeezing, character by character;
* `ofName?_eq_some_iff`, `ofName?_words`: what spells a rudiment, and that its words do;
* `last_word_of_ofName?`: names whose last word is a number.
-/

namespace DrumPractice

namespace Letters

variable {before text : List Char}

/-- Only a capital sigma looks at its neighbours. -/
theorem lowerFrom_eq_flatMap (h : 'Σ' ∉ text) : lowerFrom before text = text.flatMap lower := by
  induction text generalizing before with
  | nil => rfl
  | cons c text ih =>
    rw [List.mem_cons, not_or] at h
    rw [lowerFrom, if_neg (Ne.symm h.1), ih h.2, List.flatMap_cons]

theorem sigma_mem_lowerFrom (before : List Char) (h : 'Σ' ∈ text) :
    'ς' ∈ lowerFrom before text ∨ 'σ' ∈ lowerFrom before text := by
  induction text generalizing before with
  | nil => cases h
  | cons c text ih =>
    rw [lowerFrom, List.mem_append, List.mem_append]
    by_cases hc : c = 'Σ'
    · rw [if_pos hc]
      split
      · exact .inl (.inl List.mem_cons_self)
      · exact .inr (.inl List.mem_cons_self)
    · exact (ih (c :: before) ((List.mem_cons.1 h).resolve_left (Ne.symm hc))).imp .inr .inr

/-- The blanks, by number. -/
def blanks : List ℕ :=
  List.range' 9 5 ++ [32, 0x85, 0xA0, 0x1680] ++ List.range' 0x2000 11 ++
    [0x2028, 0x2029, 0x202F, 0x205F, 0x3000]

theorem toNat_mem_blanks {c : Char} (h : isBlank c = true) : c.toNat ∈ blanks := by
  simp only [isBlank, Bool.or_eq_true, Bool.and_eq_true, decide_eq_true_eq] at h
  simp only [blanks, List.mem_append, List.mem_range'_1, List.mem_cons, List.not_mem_nil]
  omega

/-- A blank has no other form. -/
theorem lower_of_isBlank {c : Char} (h : isBlank c = true) : lower c = [c] := by
  have hall : ∀ n ∈ blanks, lower (Char.ofNat n) = [Char.ofNat n] := by decide +kernel
  have hc := hall _ (toNat_mem_blanks h)
  rwa [Char.ofNat_toNat] at hc

end Letters

namespace Voice

variable {text : List Char} {c : Char}

/-- What is left of a character in a squeezed text. -/
def squeezeChar (c : Char) : List Char :=
  (Letters.lower c).filter fun c => c ≠ ' ' && c ≠ '_' && c ≠ '-'

theorem squeezeChar_space : squeezeChar ' ' = [] := by decide +kernel

theorem squeezeChar_dash : squeezeChar '-' = [] := by decide +kernel

theorem squeezeChar_plus : squeezeChar '+' = ['+'] := by decide +kernel

/-- Characters that stay as they are, and are all that names are left with. -/
def settled : List Char := "abcdefghijklmnopqrstuvwxyz0123456789".toList

theorem squeezeChar_of_mem_settled (h : c ∈ settled) : squeezeChar c = [c] := by
  have hall : (settled.all fun c => squeezeChar c = [c]) = true := by decide +kernel
  simpa using List.all_eq_true.1 hall c h

theorem isBlank_of_mem_settled (h : c ∈ settled) : isBlank c = false := by
  have hall : (settled.all fun c => !isBlank c) = true := by decide +kernel
  simpa using List.all_eq_true.1 hall c h

theorem mem_settled_of_isDigit (h : c.isDigit = true) : c ∈ settled := by
  have hrange : 48 ≤ c.toNat ∧ c.toNat ≤ 57 := by
    simpa [Char.isDigit, UInt32.le_iff_toNat_le] using h
  have hall : ∀ n ∈ List.range' 48 10, Char.ofNat n ∈ settled := by decide
  have hc := hall c.toNat (by rw [List.mem_range'_1]; omega)
  rwa [Char.ofNat_toNat] at hc

theorem flatMap_squeezeChar_of_settled (h : ∀ c ∈ text, c ∈ settled) :
    text.flatMap squeezeChar = text := by
  have hsame : ∀ c ∈ text, squeezeChar c = [c] := fun c hc => squeezeChar_of_mem_settled (h c hc)
  rw [List.flatMap_congr hsame, List.flatMap_singleton']

theorem squeezeChar_of_isBlank (h : isBlank c = true) (hne : c ≠ ' ') : squeezeChar c = [c] := by
  have hdash : c ≠ '_' ∧ c ≠ '-' := by
    constructor <;> rintro rfl <;> exact absurd h (by decide)
  rw [squeezeChar, Letters.lower_of_isBlank h]
  simp [hne, hdash]

theorem squeeze_eq_flatMap (h : 'Σ' ∉ text) :
    squeeze text = String.ofList (text.flatMap squeezeChar) := by
  rw [squeeze, Text.lowercase, Letters.lowerFrom_eq_flatMap h, List.filter_flatMap]
  rfl

/-- A text that can be squeezed character by character, with no blanks but spaces. -/
structure Plain (text : List Char) : Prop where
  sigma : 'Σ' ∉ text
  blank : ∀ c ∈ text, isBlank c = true → c = ' '

theorem Plain.of_settled (h : ∀ c ∈ (squeeze text).toList, c ∈ settled) : Plain text := by
  have hsigma : 'Σ' ∉ text := by
    intro hmem
    rw [squeeze, String.toList_ofList] at h
    rcases Letters.sigma_mem_lowerFrom [] hmem with hlower | hlower
    · exact absurd (h _ (List.mem_filter.2 ⟨hlower, by decide⟩)) (by decide)
    · exact absurd (h _ (List.mem_filter.2 ⟨hlower, by decide⟩)) (by decide)
  refine ⟨hsigma, fun c hc hblank => by_contra fun hne => ?_⟩
  rw [squeeze_eq_flatMap hsigma, String.toList_ofList] at h
  have hmem : c ∈ text.flatMap squeezeChar :=
    List.mem_flatMap.2 ⟨c, hc, by rw [squeezeChar_of_isBlank hblank hne]; simp⟩
  rw [isBlank_of_mem_settled (h c hmem)] at hblank
  cases hblank

/-! ### The words of a text -/

/-- A text is squeezed word by word. -/
theorem Plain.flatMap_words (h : Plain text) :
    (Text.words text).flatten.flatMap squeezeChar = text.flatMap squeezeChar := by
  rw [Text.flatten_words]
  refine Text.flatMap_filter fun c hc hblank => ?_
  rw [h.blank c hc (by simpa using hblank), squeezeChar_space]

/-- Some of the words, joined by spaces, are squeezed to their parts. -/
theorem Plain.squeeze_join (h : Plain text) {words : List (List Char)}
    (hwords : ∀ word ∈ words, word ∈ Text.words text) :
    squeeze ([' '].intercalate words) = String.ofList (words.flatten.flatMap squeezeChar) := by
  have hsigma : 'Σ' ∉ [' '].intercalate words := by
    rw [Text.mem_intercalate_iff (by decide)]
    intro hmem
    obtain ⟨word, hword, hc⟩ := List.mem_flatten.1 hmem
    exact h.sigma ((Text.of_mem_words (hwords word hword)).2 _ hc).1
  rw [squeeze_eq_flatMap hsigma, Text.flatMap_intercalate squeezeChar_space]

end Voice

namespace Rudiment

open Voice

variable {name : String} {r : Rudiment} {spelling word : List Char} {init : List (List Char)}
  {c : Char} {bound n : ℕ}

/-! ### Spellings -/

theorem mem_all (r : Rudiment) : r ∈ all := by
  cases r <;> decide

/-- What is left of a text that spells a rudiment: the name without dashes, or another spelling. -/
def spellings (r : Rudiment) : List (List Char) :=
  r.name.toList.filter (· ≠ '-') :: r.aliases.map String.toList

/-- What is left of a numbered name without its number. -/
def stem : List Char := "quartersoffset".toList

/-- The rudiments whose names end in a digit. -/
def numbered : List (Rudiment × Char) :=
  [(quartersOffset1, '1'), (quartersOffset2, '2'), (quartersOffset3, '3')]

theorem of_mem_spellings (h : spelling ∈ r.spellings) :
    spelling ≠ [] ∧ ∀ c ∈ spelling, c ∈ settled := by
  have hall : (r.spellings.all fun s => s ≠ [] && s.all (· ∈ settled)) = true := by
    cases r <;> cbv
  simpa using List.all_eq_true.1 hall spelling h

theorem numbered_of_isDigit (h : spelling ∈ r.spellings) (hc : spelling.getLast? = some c)
    (hdigit : c.isDigit = true) : (r, c) ∈ numbered ∧ spelling.dropLast = stem := by
  have hall : (r.spellings.all fun s => s.getLast?.all fun c =>
      !c.isDigit || ((r, c) ∈ numbered && s.dropLast = stem)) = true := by
    cases r <;> decide +kernel
  have hspelling := List.all_eq_true.1 hall spelling h
  rw [hc, Option.all_some, hdigit] at hspelling
  simpa using hspelling

theorem stem_notMem (r : Rudiment) : stem ∉ r.spellings := by
  have hnot : decide (stem ∈ r.spellings) = false := by
    cases r <;> cbv
  exact of_decide_eq_false hnot

/-- Names are in lower case, so only their dashes are left out. -/
theorem squeezed_name (r : Rudiment) :
    squeezed r.name = String.ofList (r.name.toList.filter (· ≠ '-')) := by
  have hsettled : ∀ c ∈ r.name.toList.filter (· ≠ '-'), c ∈ settled :=
    (of_mem_spellings List.mem_cons_self).2
  have hsigma : 'Σ' ∉ r.name.toList := fun hmem =>
    absurd (hsettled _ (List.mem_filter.2 ⟨hmem, by decide⟩)) (by decide)
  have hdashes : (r.name.toList.filter (· ≠ '-')).flatMap squeezeChar
      = r.name.toList.flatMap squeezeChar := by
    refine Text.flatMap_filter fun c _ hdash => ?_
    rw [show c = '-' by simpa using hdash, squeezeChar_dash]
  rw [squeezed, squeeze_eq_flatMap hsigma, ← hdashes, flatMap_squeezeChar_of_settled hsettled]

/-- No text spells two rudiments. -/
theorem eq_of_mem_spellings {r' : Rudiment} (h : spelling ∈ r.spellings)
    (h' : spelling ∈ r'.spellings) : r = r' := by
  have hall : (all.all fun r => all.all fun r' =>
      r = r' || r.spellings.all fun s => s ∉ r'.spellings) = true := by cbv
  have hr' := List.all_eq_true.1 (List.all_eq_true.1 hall r (mem_all r)) r' (mem_all r')
  rw [Bool.or_eq_true, decide_eq_true_eq] at hr'
  refine hr'.resolve_right fun hnone => ?_
  exact of_decide_eq_true (List.all_eq_true.1 hnone spelling h) h'

theorem ofName?_eq_find? (name : String) :
    ofName? name = all.find? fun r => (squeezed name).toList ∈ r.spellings := by
  refine congrArg (List.find? · all) (funext fun r => ?_)
  rw [Bool.eq_iff_iff, Bool.or_eq_true, decide_eq_true_eq, decide_eq_true_eq, decide_eq_true_eq,
    squeezed_name, spellings, List.mem_cons,
    List.mem_map_of_injective fun _ _ => String.toList_inj.1]
  refine or_congr_left ⟨fun h => ?_, fun h => ?_⟩
  · rw [← h, String.toList_ofList]
  · rw [← h, String.ofList_toList]

/-- A text spells a rudiment if what is left of it does. -/
theorem ofName?_eq_some_iff : ofName? name = some r ↔ (squeezed name).toList ∈ r.spellings := by
  rw [ofName?_eq_find?]
  have hspells {r : Rudiment}
      (h : (all.find? fun r => (squeezed name).toList ∈ r.spellings) = some r) :
      (squeezed name).toList ∈ r.spellings := by
    have htrue := List.find?_some h
    exact of_decide_eq_true htrue
  refine ⟨hspells, fun h => ?_⟩
  have hsome : (all.find? fun r => (squeezed name).toList ∈ r.spellings).isSome = true :=
    List.find?_isSome.2 ⟨r, mem_all r, decide_eq_true h⟩
  obtain ⟨r', hr'⟩ := Option.isSome_iff_exists.1 hsome
  rw [hr', eq_of_mem_spellings h (hspells hr')]

/-! ### The words of a name -/

theorem plain_of_ofName? (h : ofName? name = some r) : Plain name.toList :=
  .of_settled (of_mem_spellings (ofName?_eq_some_iff.1 h)).2

theorem toList_squeezed (h : ofName? name = some r) :
    (squeezed name).toList = (Text.words name.toList).flatten.flatMap squeezeChar := by
  have hplain := plain_of_ofName? h
  rw [squeezed, squeeze_eq_flatMap hplain.sigma, String.toList_ofList, hplain.flatMap_words]

/-- The words of a name, joined by spaces, spell the same rudiment. -/
theorem ofName?_words (h : ofName? name = some r) :
    ofName? (String.ofList ([' '].intercalate (Text.words name.toList))) = some r := by
  rw [ofName?_eq_some_iff, squeezed, String.toList_ofList,
    (plain_of_ofName? h).squeeze_join fun _ hword => hword, String.toList_ofList,
    ← toList_squeezed h]
  exact ofName?_eq_some_iff.1 h

theorem words_ne_nil_of_ofName? (h : ofName? name = some r) : Text.words name.toList ≠ [] := by
  intro hnil
  have hempty := toList_squeezed h
  rw [hnil] at hempty
  exact (of_mem_spellings (ofName?_eq_some_iff.1 h)).1 hempty

/-- If the last word is a number, then it is the digit at the end of the rudiment's name, and the
words before it spell no rudiment. -/
theorem last_word_of_ofName? (h : ofName? name = some r)
    (hwords : Text.words name.toList = init ++ [word])
    (hnumber : Numeral.natural? bound word = some n) :
    ∃ d, (r, d) ∈ numbered ∧ word = [d] ∧
      ofName? (String.ofList ([' '].intercalate init)) = none := by
  have hspelling := ofName?_eq_some_iff.1 h
  have hsqueezed := toList_squeezed h
  rw [hwords, List.flatten_append, List.flatMap_append, List.flatten_singleton] at hsqueezed
  obtain ⟨digits, hne, hdigits, rfl | rfl⟩ := Numeral.of_natural?_eq_some hnumber
  · obtain ⟨front, d, rfl⟩ := (List.eq_nil_or_concat' word).resolve_left hne
    rw [flatMap_squeezeChar_of_settled fun c hc => mem_settled_of_isDigit (hdigits c hc),
      ← List.append_assoc] at hsqueezed
    obtain ⟨hmem, hfront⟩ := numbered_of_isDigit hspelling
      (by rw [hsqueezed, List.getLast?_concat]) (hdigits d (by simp))
    rw [hsqueezed, List.dropLast_concat] at hfront
    -- in front of the digit there are only letters
    have hletters : (stem.all fun c => !c.isDigit) = true := by decide +kernel
    have hnil : front = [] := List.eq_nil_iff_forall_not_mem.2 fun c hc => by
      have hletter := List.all_eq_true.1 hletters c (hfront ▸ List.mem_append_right _ hc)
      rw [hdigits c (List.mem_append_left _ hc)] at hletter
      cases hletter
    rw [hnil, List.append_nil] at hfront
    refine ⟨d, hmem, by rw [hnil]; rfl, Option.eq_none_iff_forall_ne_some.2 fun r' hr' => ?_⟩
    rw [ofName?_eq_some_iff, squeezed, String.toList_ofList, (plain_of_ofName? h).squeeze_join,
      hfront, String.toList_ofList] at hr'
    · exact stem_notMem r' hr'
    · exact fun part hpart => hwords ▸ List.mem_append_left _ hpart
  · have hplus : '+' ∈ (squeezed name).toList := by
      rw [hsqueezed, List.flatMap_cons, squeezeChar_plus]
      simp
    exact absurd ((of_mem_spellings hspelling).2 _ hplus) (by decide)

end Rudiment
end DrumPractice
