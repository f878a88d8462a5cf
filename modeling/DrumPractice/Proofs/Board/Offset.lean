import DrumPractice.Proofs.Board.Choice
import DrumPractice.BeatString
import DrumPractice.Proofs.Scalar.Modulo
import Mathlib.Algebra.Order.Round

/-!
# How far a hit is from its target

The distance of two positions is measured around the bar as often as it takes: it is the least of
all ways from one to the other (`isLeast_distance`). The offset of a hit from its target is taken
around the bar once at most. Both are the same way as long as the positions are no more than one bar
and a half apart (`abs_offset_eq_distance_iff`), so for all targets in the first bar and the next
half. A bar may be written with more beats than it is played with, and a target farther on is hit
from the start of the bar with an offset of more than half a bar (`long_way_round`).
-/

namespace DrumPractice

/-! ### Exact numbers -/

namespace Scalar

theorem lt_iff {x y : ℚ} : lt x y = true ↔ x < y := decide_eq_true_iff

theorem abs_eq_abs (x : ℚ) : Scalar.abs x = |x| := by
  rcases lt_or_ge x 0 with h | h
  · rw [abs_of_neg h]
    exact if_pos h
  · rw [abs_of_nonneg h]
    exact if_neg h.not_gt

theorem min_eq_inf (x y : ℚ) : Scalar.min x y = x ⊓ y := by
  rw [inf_comm]
  exact (min_def_lt y x).symm

end Scalar

/-- A number is as far from the whole numbers as its size. -/
theorem isLeast_abs_sub_round (q : ℚ) :
    IsLeast (Set.range fun n : ℤ => |q - n|) |(|q| - round |q|)| := by
  rcases abs_cases q with ⟨heq, -⟩ | ⟨heq, -⟩
  · rw [heq]
    refine ⟨⟨round q, rfl⟩, ?_⟩
    rintro _ ⟨n, rfl⟩
    exact round_le q n
  · rw [heq]
    have hneg (n : ℤ) : |q - (-n : ℤ)| = |-q - n| := by
      rw [← abs_neg]
      congr 1
      push_cast
      ring
    refine ⟨⟨-round (-q), hneg _⟩, ?_⟩
    rintro _ ⟨n, rfl⟩
    have hle := round_le (-q) (-n)
    rwa [← hneg (-n), neg_neg] at hle

namespace Board

variable {board : Board ℚ} {x y position target : ℚ}

/-! ### The distance -/

/-- The distance in bars is that to the nearest whole number of bars. -/
theorem distance_eq (hb : 0 < board.beatsPerBar) (x y : ℚ) :
    board.distance x y = board.beatsPerBar
      * |(|(x - y) / board.beatsPerBar| - round |(x - y) / board.beatsPerBar|)| := by
  have hrem : Scalar.rem |x - y| board.beatsPerBar
      = board.beatsPerBar * Int.fract (|x - y| / board.beatsPerBar) := by
    rw [Scalar.rem_eq, Rational.truncate_of_nonneg (by positivity), ← Int.self_sub_floor, mul_sub,
      mul_div_cancel₀ _ hb.ne', mul_comm]
  rw [distance, Scalar.abs_eq_abs, hrem, Scalar.min_eq_inf, abs_div, abs_of_pos hb,
    abs_sub_round_eq_min, mul_min_of_nonneg _ _ hb.le, mul_sub, mul_one]

/-- The distance is the least of all ways from one position to the other. -/
theorem isLeast_distance (hb : 0 < board.beatsPerBar) (x y : ℚ) :
    IsLeast (Set.range fun bars : ℤ => |x - y - bars * board.beatsPerBar|)
      (board.distance x y) := by
  have hway (bars : ℤ) : |x - y - bars * board.beatsPerBar|
      = board.beatsPerBar * |(x - y) / board.beatsPerBar - bars| := by
    rw [← abs_of_pos hb, ← abs_mul, abs_of_pos hb, mul_sub, mul_div_cancel₀ _ hb.ne', mul_comm]
  obtain ⟨⟨nearest, hnearest⟩, hleast⟩ := isLeast_abs_sub_round ((x - y) / board.beatsPerBar)
  rw [distance_eq hb]
  refine ⟨⟨nearest, ?_⟩, ?_⟩
  · dsimp only at hnearest ⊢
    rw [hway, hnearest]
  · rintro _ ⟨bars, rfl⟩
    dsimp only
    rw [hway]
    exact mul_le_mul_of_nonneg_left (hleast ⟨bars, rfl⟩) hb.le

theorem distance_le_half (hb : 0 < board.beatsPerBar) (x y : ℚ) :
    board.distance x y ≤ board.beatsPerBar / 2 := by
  rw [distance_eq hb]
  have hround := abs_sub_round |(x - y) / board.beatsPerBar|
  calc board.beatsPerBar *
        |(|(x - y) / board.beatsPerBar| - round |(x - y) / board.beatsPerBar|)|
      ≤ board.beatsPerBar * (1 / 2) := mul_le_mul_of_nonneg_left hround hb.le
    _ = board.beatsPerBar / 2 := by ring

/-! ### The offset -/

/-- The three ways that an offset can be taken. -/
theorem offset_cases (board : Board ℚ) (position target : ℚ) :
    (board.beatsPerBar / 2 < position - target ∧
      board.offset position target = position - target - board.beatsPerBar) ∨
    (position - target < -(board.beatsPerBar / 2) ∧
      board.offset position target = position - target + board.beatsPerBar) ∨
    (|position - target| ≤ board.beatsPerBar / 2 ∧
      board.offset position target = position - target) := by
  have hhalf : board.beatsPerBar / (Scalar.ofNat 2 : ℚ) = board.beatsPerBar / 2 := rfl
  unfold offset
  dsimp only
  rw [hhalf]
  by_cases hbehind : board.beatsPerBar / 2 < position - target
  · rw [if_pos (Scalar.lt_iff.2 hbehind)]
    exact .inl ⟨hbehind, rfl⟩
  rw [if_neg (mt Scalar.lt_iff.1 hbehind)]
  by_cases hahead : position - target < -(board.beatsPerBar / 2)
  · rw [if_pos (Scalar.lt_iff.2 hahead)]
    exact .inr (.inl ⟨hahead, rfl⟩)
  · rw [if_neg (mt Scalar.lt_iff.1 hahead)]
    exact .inr (.inr ⟨abs_le.2 ⟨not_lt.1 hahead, not_lt.1 hbehind⟩, rfl⟩)

/-- An offset is one of the ways. -/
theorem exists_offset_eq (board : Board ℚ) (position target : ℚ) :
    ∃ bars : ℤ, board.offset position target
      = position - target - bars * board.beatsPerBar := by
  rcases board.offset_cases position target with ⟨-, heq⟩ | ⟨-, heq⟩ | ⟨-, heq⟩
  · exact ⟨1, by rw [heq]; push_cast; ring⟩
  · exact ⟨-1, by rw [heq]; push_cast; ring⟩
  · exact ⟨0, by rw [heq]; push_cast; ring⟩

theorem abs_offset_le_half_iff (hb : 0 < board.beatsPerBar) (position target : ℚ) :
    |board.offset position target| ≤ board.beatsPerBar / 2 ↔
      |position - target| ≤ 3 / 2 * board.beatsPerBar := by
  rw [abs_le, abs_le]
  rcases board.offset_cases position target with ⟨hraw, heq⟩ | ⟨hraw, heq⟩ | ⟨hraw, heq⟩
  · rw [heq]
    constructor <;> rintro ⟨hlow, hhigh⟩ <;> constructor <;> linarith
  · rw [heq]
    constructor <;> rintro ⟨hlow, hhigh⟩ <;> constructor <;> linarith
  · rw [heq]
    rw [abs_le] at hraw
    constructor <;> rintro ⟨hlow, hhigh⟩ <;> constructor <;> linarith

/-- A way of half a bar at most is a shortest one. -/
theorem abs_offset_eq_distance_iff (hb : 0 < board.beatsPerBar) (position target : ℚ) :
    |board.offset position target| = board.distance position target ↔
      |position - target| ≤ 3 / 2 * board.beatsPerBar := by
  rw [← abs_offset_le_half_iff hb]
  obtain ⟨⟨nearest, hnearest⟩, hleast⟩ := isLeast_distance hb position target
  obtain ⟨bars, hbars⟩ := board.exists_offset_eq position target
  constructor
  · intro heq
    rw [heq]
    exact distance_le_half hb _ _
  · intro hhalf
    refine le_antisymm ?_ (hleast ⟨bars, by rw [hbars]⟩)
    -- the other ways are longer by a bar or more, less the offset
    rcases eq_or_ne nearest bars with rfl | hne
    · rw [← hnearest, hbars]
    · have hint : (1 : ℚ) ≤ |((nearest - bars : ℤ) : ℚ)| := by
        exact_mod_cast Int.one_le_abs (sub_ne_zero.2 hne)
      have hway : position - target - nearest * board.beatsPerBar
          = board.offset position target - (nearest - bars : ℤ) * board.beatsPerBar := by
        rw [hbars]
        push_cast
        ring
      have hlong : board.beatsPerBar ≤ |((nearest - bars : ℤ) : ℚ) * board.beatsPerBar| := by
        rw [abs_mul, abs_of_pos hb]
        exact le_mul_of_one_le_left hb.le hint
      have htri := abs_sub_abs_le_abs_sub (((nearest - bars : ℤ) : ℚ) * board.beatsPerBar)
        (board.offset position target)
      dsimp only at hnearest
      rw [← hnearest, hway, abs_sub_comm]
      linarith

/-! ### Hits -/

/-- **Which way the offset of a hit is taken.** Let a position be judged a hit of a target, on the
board of a bar on which any positions have been judged before. Their distance is the least of all
ways around the bar and within the tolerance. The offset is one of these ways. It is as long as the
distance if and only if target and position are at most one and a half bars apart, and only then
at most half a bar. So it is for a position in the bar and a target up to the middle of the next
one. -/
theorem offset_of_hit (frame : Frame ℚ) (beatsPerBar : ℕ) (tolerance : ℚ)
    (earlier : List (Voice × ℚ)) (v w : Voice) (position target offset : ℚ)
    (h : (((ofFrame frame beatsPerBar tolerance).after earlier).judge v position).1
      = .hit w target offset) :
    let bar : ℚ := (max beatsPerBar 1 : ℕ)
    let distance := ((ofFrame frame beatsPerBar tolerance).after earlier).distance position target
    IsLeast (Set.range fun bars : ℤ => |position - target - bars * bar|) distance ∧
    distance ≤ tolerance ∧
    (∃ bars : ℤ, position - target - offset = bars * bar) ∧
    (|offset| = distance ↔ |position - target| ≤ 3 / 2 * bar) ∧
    (|offset| ≤ bar / 2 ↔ |position - target| ≤ 3 / 2 * bar) ∧
    (0 ≤ position → position < bar → -(bar / 2) ≤ target → target ≤ 3 / 2 * bar →
      |offset| = distance ∧ |offset| ≤ tolerance ∧ |offset| ≤ bar / 2) := by
  intro bar distance
  obtain ⟨struck, heq⟩ := (ofFrame frame beatsPerBar tolerance).exists_after_eq earlier
  obtain ⟨c, hsees, hreach, -, rfl, rfl⟩ := of_judge_eq_hit h
  set board := (ofFrame frame beatsPerBar tolerance).after earlier
  have hbar : board.beatsPerBar = bar := congrArg Board.beatsPerBar heq
  have htolerance : board.tolerance = tolerance := congrArg Board.tolerance heq
  have hpos : 0 < board.beatsPerBar := by
    rw [hbar, Nat.cast_pos]
    exact Nat.lt_of_lt_of_le Nat.one_pos (Nat.le_max_right _ _)
  have hwithin : distance ≤ tolerance := by
    rw [InReach, hsees.distance, htolerance] at hreach
    exact of_decide_eq_true hreach
  have hshort := abs_offset_eq_distance_iff hpos position c.target
  have hhalf := abs_offset_le_half_iff hpos position c.target
  have hleast := isLeast_distance hpos position c.target
  obtain ⟨bars, hbars⟩ := board.exists_offset_eq position c.target
  rw [hbar] at hshort hhalf hleast hbars
  refine ⟨hleast, hwithin, ⟨bars, by rw [hbars]; ring⟩, hshort, hhalf, ?_⟩
  intro hstart hend hlow hhigh
  have hapart : |position - c.target| ≤ 3 / 2 * bar := by
    rw [abs_le]
    constructor <;> linarith
  have hdistance := hshort.2 hapart
  exact ⟨hdistance, hdistance.le.trans hwithin, hhalf.2 hapart⟩

/-- A bar with hits of the foot at its start and in its middle. -/
def kicks : Frame ℚ :=
  ⟨"Kicks", 0, 0, .ofFn fun v => if v = .rightFoot then [0, 5 / 2] else []⟩

theorem offset_of_hit_beforeBarLine :
    (((ofFrame kicks 4 (1 / 5)).after []).judge .rightFoot (39 / 10)).1
      = .hit .rightFoot 0 (-1 / 10) ∧
    |(-1 / 10 : ℚ)| = ((ofFrame kicks 4 (1 / 5)).after []).distance (39 / 10) 0 ∧
    |(-1 / 10 : ℚ)| ≤ 1 / 5 ∧ |(-1 / 10 : ℚ)| ≤ (max 4 1 : ℕ) / 2 := by
  have hhit : (((ofFrame kicks 4 (1 / 5)).after []).judge .rightFoot (39 / 10)).1
      = .hit .rightFoot 0 (-1 / 10) := by decide +kernel
  obtain ⟨-, -, -, -, -, hinside⟩ := offset_of_hit kicks 4 (1 / 5) [] _ _ _ _ _ hhit
  exact ⟨hhit, hinside (by norm_num) (by norm_num) (by norm_num) (by norm_num)⟩

/-- A bar of nine beats with a hit on the last one. -/
def ninth : Frame ℚ :=
  ⟨"Ninth", 0, 0, .ofFn fun v => if v = .rightHand then [8] else []⟩

/-- Played with four beats to the bar, the ninth beat falls on the first one, and is hit there from
no distance, but with an offset of a whole bar. -/
theorem long_way_round :
    BeatString.decode "-,-,-,-,-,-,-,-,x".toList = .ok (ninth.hits.get .rightHand) ∧
    ((ofFrame ninth 4 (3 / 20)).judge .rightHand 0).1 = .hit .rightHand 8 (-4) ∧
    (ofFrame ninth 4 (3 / 20)).distance 0 8 = 0 ∧
    |(-4 : ℚ)| ≠ (ofFrame ninth 4 (3 / 20)).distance 0 8 ∧
    ¬ |(-4 : ℚ)| ≤ 3 / 20 ∧ ¬ |(-4 : ℚ)| ≤ 4 / 2 := by
  have hdistance : (ofFrame ninth 4 (3 / 20)).distance 0 8 = 0 := by decide +kernel
  refine ⟨by decide +kernel, by decide +kernel, hdistance, ?_, by norm_num, by norm_num⟩
  rw [hdistance]
  norm_num

end Board
end DrumPractice
