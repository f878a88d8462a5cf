import DrumPractice.Hit
import DrumPractice.Proofs.Decimal.Plain

/-!
# Hits as lines

The line that reports a hit is read as the hit, with blanks around it or without, and what is read
from any line is written and read again as the same hit (`reads_what_is_written`). Amplitudes keep
their value exactly; of a NaN, the sign is not written.

* `Hit.ofLine_eq_ok_iff`: the lines that are read as hits, part by part;
* `Hit.Fits`: channels of 32 bits and amplitudes of the single format; nothing else is read.
-/

namespace DrumPractice

variable {τ : Type} {hit : Hit τ} {time : τ} {line text before after left right : List Char}
  {mark c : Char} {low high n : ℤ}

namespace Text

/-- What a trimmed text begins with, the text begins with behind its blanks. -/
theorem head?_trimLeft_of_trim (h : (trim text).head? = some c) :
    (trimLeft text).head? = some c := by
  have hfront : trim text <+: trimLeft text := List.rdropWhile_prefix isBlank _
  obtain ⟨rest, hrest⟩ := hfront
  rw [← hrest, List.head?_append, h]
  rfl

theorem splitOnce?_append (h : mark ∉ before) (after : List Char) :
    splitOnce? mark (before ++ mark :: after) = some (before, after) := by
  induction before with
  | nil => simp [splitOnce?]
  | cons c before ih =>
    rw [List.mem_cons, not_or] at h
    rw [List.cons_append, splitOnce?, if_neg (Ne.symm h.1), ih h.2]
    rfl

end Text

namespace Numeral

/-- A number as it is written, with a sign if it is negative. -/
def signed (n : ℤ) : List Char := (if n < 0 then ['-'] else []) ++ (numeral n.natAbs).toList

theorem mem_signed (h : c ∈ signed n) : c = '-' ∨ c.isDigit = true := by
  rw [signed, List.mem_append, numeral, String.toList_ofList] at h
  refine h.imp (fun h => ?_) isDigit_of_mem_toDigits
  split at h
  · exact List.mem_singleton.1 h
  · cases h

theorem isBlank_of_mem_signed (h : c ∈ signed n) : isBlank c = false := by
  obtain rfl | h := mem_signed h
  · decide
  · exact isBlank_of_isDigit h

theorem integer?_eq_some_iff : integer? low high text = some n ↔
    ∃ m, digits? (sign text).2 = some m ∧ (if (sign text).1 then -(m : ℤ) else m) = n ∧
      low ≤ n ∧ n ≤ high := by
  obtain ⟨negative, body, hsign⟩ : ∃ negative body, sign text = (negative, body) := ⟨_, _, rfl⟩
  simp only [integer?, hsign]
  cases digits? body with
  | none => simp
  | some m => simp

/-- An integer in range is read as it is written. -/
theorem integer?_signed (hlow : low ≤ n) (hhigh : n ≤ high) :
    integer? low high (signed n) = some n := by
  have hdigits : digits? (Nat.toDigits 10 n.natAbs) = some n.natAbs :=
    digits?_eq_some_iff.2 ⟨⟨toDigits_ne_nil _, fun c => isDigit_of_mem_toDigits⟩, value_toDigits _⟩
  have hsign : sign (signed n) = (decide (n < 0), Nat.toDigits 10 n.natAbs) := by
    rw [signed, numeral, String.toList_ofList]
    by_cases hneg : n < 0
    · simp [hneg, sign]
    · rw [if_neg hneg, List.nil_append, decide_eq_false hneg]
      refine sign_of_isDigit (toDigits_ne_nil _) fun c hc => ?_
      exact isDigit_of_mem_toDigits (List.mem_of_mem_head? hc)
  rw [integer?_eq_some_iff, hsign]
  refine ⟨n.natAbs, hdigits, ?_, hlow, hhigh⟩
  by_cases hneg : n < 0
  · rw [if_pos (decide_eq_true hneg)]
    omega
  · rw [if_neg (by simpa using hneg)]
    omega

end Numeral

namespace Hit

/-- The channel has 32 bits, and the amplitude is a number of its format. -/
structure Fits (hit : Hit τ) : Prop where
  low : -int32Bound ≤ hit.channel
  high : hit.channel ≤ int32Bound - 1
  amplitude : hit.amplitude.InFormat

/-- The lines that are read as hits. -/
theorem ofLine_eq_ok_iff : ofLine line time = .ok hit ↔ ∃ body channel amplitude,
    Text.trim line = 'h' :: body ∧ Text.splitOnce? 'a' body = some (channel, amplitude) ∧
    channel? channel = some hit.channel ∧
    Binary.read? (Text.trim amplitude) = some hit.amplitude ∧ time = hit.time := by
  unfold ofLine
  dsimp only
  constructor
  · intro h
    split at h
    · rename_i body hbody
      split at h
      · cases h
      · rename_i channel amplitude hsplit
        split at h
        · cases h
        · cases h
        · rename_i hchannel hamplitude
          cases h
          exact ⟨body, channel, amplitude, hbody, hsplit, hchannel, hamplitude, rfl⟩
    · cases h
  · rintro ⟨body, channel, amplitude, hbody, hsplit, hchannel, hamplitude, rfl⟩
    rw [hbody]
    simp only [hsplit, hchannel, hamplitude]

/-- Only lines that start like a hit are read as one. -/
theorem isHitLine_of_ofLine (h : ofLine line time = .ok hit) : isHitLine line = true := by
  obtain ⟨body, -, -, hbody, -⟩ := ofLine_eq_ok_iff.1 h
  exact decide_eq_true (Text.head?_trimLeft_of_trim (by rw [hbody, List.head?_cons]))

/-- What is read has a channel of 32 bits and an amplitude of the format. -/
theorem fits_of_ofLine (h : ofLine line time = .ok hit) : hit.Fits := by
  obtain ⟨body, channel, amplitude, -, -, hchannel, hamplitude, -⟩ := ofLine_eq_ok_iff.1 h
  obtain ⟨-, -, -, hlow, hhigh⟩ := Numeral.integer?_eq_some_iff.1 hchannel
  exact ⟨hlow, hhigh, Binary.inFormat_of_read? (by decide) hamplitude⟩

theorem toList_line (hit : Hit τ) : hit.line.toList
    = 'h' :: (Numeral.signed hit.channel ++ 'a' :: hit.amplitude.plain.toList) := by
  rw [line, Numeral.signed]
  split <;> simp

/-- The line of a hit is read as the hit, with blanks around it or without. -/
theorem ofLine_line (hfits : hit.Fits) (hleft : ∀ c ∈ left, isBlank c = true)
    (hright : ∀ c ∈ right, isBlank c = true) (time : τ) :
    ofLine (left ++ hit.line.toList ++ right) time
      = .ok ⟨hit.channel, hit.amplitude.canonical, time⟩ := by
  have hamplitude (c : Char) (hc : c ∈ hit.amplitude.plain.toList) : isBlank c = false :=
    Binary.isBlank_of_mem_plain hfits.amplitude hc
  have hline : ∀ c ∈ hit.line.toList, isBlank c = false := by
    rw [toList_line, List.forall_mem_cons, List.forall_mem_append, List.forall_mem_cons]
    exact ⟨by decide, fun c => Numeral.isBlank_of_mem_signed, by decide, hamplitude⟩
  -- the channel has no `a`, so the line is cut behind it whatever the amplitude holds
  have hsep : 'a' ∉ Numeral.signed hit.channel := fun h => by
    obtain h | h := Numeral.mem_signed h <;> cases h
  refine ofLine_eq_ok_iff.2 ⟨_, Numeral.signed hit.channel, hit.amplitude.plain.toList, ?_,
    Text.splitOnce?_append hsep _, ?_, ?_, rfl⟩
  · rw [Text.trim_padded hleft hright, Text.trim_of_forall_not hline, toList_line]
  · rw [channel?, Text.trim_of_forall_not fun c => Numeral.isBlank_of_mem_signed]
    exact Numeral.integer?_signed hfits.low hfits.high
  · rw [Text.trim_of_forall_not hamplitude]
    exact Binary.read?_plain (by decide) hfits.amplitude

/-- Hits survive being written as lines. The line of a hit, with any blanks around it, is read as
the hit at the time it is received. What is read from any line at all starts like a hit, and is
written and read again as the same hit. Of the amplitude, only the sign of a NaN is not written. -/
theorem reads_what_is_written :
    (∀ (hit : Hit τ) (left right : List Char) (time : τ), hit.Fits →
      (∀ c ∈ left, isBlank c = true) → (∀ c ∈ right, isBlank c = true) →
      ofLine (left ++ hit.line.toList ++ right) time
        = .ok ⟨hit.channel, hit.amplitude.canonical, time⟩) ∧
    (∀ (line : List Char) (time again : τ) (hit : Hit τ), ofLine line time = .ok hit →
      isHitLine line = true ∧ hit.Fits ∧ hit.time = time ∧
        ofLine hit.line.toList again = .ok ⟨hit.channel, hit.amplitude.canonical, again⟩) := by
  refine ⟨fun hit left right time hfits hleft hright => ofLine_line hfits hleft hright time,
    fun line time again hit h => ?_⟩
  have hfits := fits_of_ofLine h
  obtain ⟨-, -, -, -, -, -, -, htime⟩ := ofLine_eq_ok_iff.1 h
  have hagain := ofLine_line hfits (List.forall_mem_nil _) (List.forall_mem_nil _) again
  rw [List.nil_append, List.append_nil] at hagain
  exact ⟨isHitLine_of_ofLine h, hfits, htime.symm, hagain⟩

/-- The least channel with a NaN, and a line with blanks inside. -/
theorem reads_what_is_written_padded :
    ofLine (" \t".toList ++ (⟨-2147483648, .nan true, 3⟩ : Hit ℕ).line.toList ++ "\r\n".toList) 5
      = .ok ⟨-2147483648, .nan false, 5⟩ ∧
    ∃ hit, ofLine " h+2 a 734.5\r\n".toList 5 = .ok hit ∧
      isHitLine " h+2 a 734.5\r\n".toList = true ∧ hit.line = "h2a734.5" ∧
        ofLine hit.line.toList hit.time = .ok hit := by
  have hfits : (⟨-2147483648, .nan true, 3⟩ : Hit ℕ).Fits := ⟨by decide, by decide, trivial⟩
  refine ⟨reads_what_is_written.1 _ _ _ 5 hfits (List.all_eq_true.1 (by decide))
    (List.all_eq_true.1 (by decide)), ?_⟩
  obtain ⟨hit, hread, hhit⟩ : ∃ hit, ofLine " h+2 a 734.5\r\n".toList 5 = .ok hit ∧
      hit = (⟨2, .finite false (1469 * 2 ^ 148), 5⟩ : Hit ℕ) := ⟨_, by decide +kernel, rfl⟩
  obtain ⟨hstart, -, -, hagain⟩ := reads_what_is_written.2 _ 5 hit.time hit hread
  subst hhit
  exact ⟨_, hread, hstart, by decide +kernel, hagain⟩

end Hit
end DrumPractice
