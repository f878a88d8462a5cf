import DrumPractice.Registry
import Mathlib.Data.List.Infix

/-!
# Which command a line runs

A registry keeps its commands by the number of bytes of their names, and takes the first whose name
starts the line. Names that start the same line are prefixes of each other, so this is the longest
name, in bytes as in characters.

* `Sorts`: the entries of a registry are the commands as they were registered, put in order;
* `eq_of_starts`, `length_le_of_utf8ByteSize_le`: names that start the same line;
* `dispatches_longest`: the command of a line, and that the order of registration has no say in it.
-/

namespace DrumPractice
namespace Registry

variable {κ : Type} {entries commands : List (String × κ)} {entry : String × κ}
  {name other line rest : String} {command : κ}

/-- The line is the name, or goes on with a space after it. -/
def Starts (name line : String) : Prop := line = name ∨ ∃ rest, line = name ++ " " ++ rest

/-- The longest of the names that start the line. -/
structure Longest (commands : List (String × κ)) (line name : String) : Prop where
  registered : ∃ command, (name, command) ∈ commands
  starts : Starts name line
  length_le : ∀ e ∈ commands, Starts e.1 line → e.1.length ≤ name.length

/-! ### Names that start a line -/

theorem startsWith_iff : startsWith name.toList line.toList = true ↔ Starts name line := by
  rw [startsWith, Bool.or_eq_true, decide_eq_true_eq, String.toList_inj, List.isPrefixOf_iff_prefix]
  refine or_congr_right ⟨?_, ?_⟩
  · rintro ⟨rest, hrest⟩
    refine ⟨String.ofList rest, String.toList_inj.1 ?_⟩
    simp only [String.toList_append, String.toList_ofList, ← hrest]
    rfl
  · rintro ⟨rest, rfl⟩
    refine ⟨rest.toList, ?_⟩
    rw [String.toList_append, String.toList_append]
    rfl

theorem Starts.exists_eq_append (h : Starts name line) : ∃ rest, line = name ++ rest := by
  rcases h with rfl | ⟨rest, rfl⟩
  · exact ⟨"", by simp⟩
  · exact ⟨" " ++ rest, String.append_assoc⟩

theorem Starts.isPrefix (h : Starts name line) : name.toList <+: line.toList := by
  obtain ⟨rest, rfl⟩ := h.exists_eq_append
  rw [String.toList_append]
  exact List.prefix_append _ _

/-- Of two names that start a line, the one with no more characters starts the other. -/
theorem exists_eq_append_of_length_le (hname : Starts name line) (hother : Starts other line)
    (hle : name.length ≤ other.length) : ∃ rest, other = name ++ rest := by
  rw [← String.length_toList, ← String.length_toList] at hle
  obtain ⟨rest, hrest⟩ := List.prefix_of_prefix_length_le hname.isPrefix hother.isPrefix hle
  refine ⟨String.ofList rest, String.toList_inj.1 ?_⟩
  rw [String.toList_append, String.toList_ofList, hrest]

/-- No two names of the same length start a line. -/
theorem eq_of_starts (hname : Starts name line) (hother : Starts other line)
    (hlength : name.length = other.length) : name = other := by
  obtain ⟨rest, rfl⟩ := exists_eq_append_of_length_le hname hother hlength.le
  rw [String.length_append] at hlength
  have hrest : rest = "" := String.length_eq_zero_iff.1 (by omega)
  rw [hrest, String.append_empty]

/-- Fewer bytes are fewer characters. -/
theorem length_le_of_utf8ByteSize_le (hname : Starts name line) (hother : Starts other line)
    (hle : name.utf8ByteSize ≤ other.utf8ByteSize) : name.length ≤ other.length := by
  rcases Nat.le_total name.length other.length with h | h
  · exact h
  · obtain ⟨rest, rfl⟩ := exists_eq_append_of_length_le hother hname h
    rw [String.utf8ByteSize_append] at hle
    have hrest : rest = "" := String.utf8ByteSize_eq_zero_iff.1 (by omega)
    rw [hrest, String.append_empty]

theorem Longest.eq (h : Longest commands line name) (h' : Longest commands line other) :
    name = other := by
  obtain ⟨command, hmem⟩ := h.registered
  obtain ⟨command', hmem'⟩ := h'.registered
  exact eq_of_starts h.starts h'.starts
    (Nat.le_antisymm (h'.length_le _ hmem h.starts) (h.length_le _ hmem' h'.starts))

/-! ### The entries of a registry -/

/-- The commands in order, those of the same name as they were registered. -/
structure Sorts (entries commands : List (String × κ)) : Prop where
  sorted : entries.Pairwise fun e e' => e'.1.utf8ByteSize ≤ e.1.utf8ByteSize
  filter_eq : ∀ name, entries.filter (·.1 = name) = commands.filter (·.1 = name)

theorem mem_of_filter_eq (h : ∀ name, entries.filter (·.1 = name) = commands.filter (·.1 = name)) :
    entry ∈ entries ↔ entry ∈ commands := by
  have hmem := congrArg (entry ∈ ·) (h entry.1)
  simpa using hmem

theorem find?_of_filter_eq
    (h : ∀ name, entries.filter (·.1 = name) = commands.filter (·.1 = name)) (name : String) :
    entries.find? (·.1 = name) = commands.find? (·.1 = name) := by
  rw [← List.head?_filter, ← List.head?_filter, h]

theorem mem_insert {e : String × κ} : e ∈ insert entry entries ↔ e = entry ∨ e ∈ entries := by
  induction entries with
  | nil => simp [insert]
  | cons e' entries ih =>
    rw [insert]
    split
    · rw [List.mem_cons, ih, List.mem_cons, or_left_comm]
    · rw [List.mem_cons]

theorem sorted_insert (h : entries.Pairwise fun e e' => e'.1.utf8ByteSize ≤ e.1.utf8ByteSize) :
    (insert entry entries).Pairwise fun e e' => e'.1.utf8ByteSize ≤ e.1.utf8ByteSize := by
  induction entries with
  | nil => simp [insert]
  | cons e entries ih =>
    obtain ⟨hfirst, hrest⟩ := List.pairwise_cons.1 h
    rw [insert]
    split
    · rename_i hle
      refine List.pairwise_cons.2 ⟨fun e' he' => ?_, ih hrest⟩
      rcases mem_insert.1 he' with rfl | he'
      · exact hle
      · exact hfirst e' he'
    · rename_i hlt
      refine List.pairwise_cons.2 ⟨fun e' he' => ?_, h⟩
      rcases List.mem_cons.1 he' with rfl | he'
      · omega
      · have := hfirst e' he'
        omega

/-- A command is put behind all of its name. -/
theorem filter_insert (h : entries.Pairwise fun e e' => e'.1.utf8ByteSize ≤ e.1.utf8ByteSize)
    (name : String) : (insert entry entries).filter (·.1 = name)
      = entries.filter (·.1 = name) ++ [entry].filter (·.1 = name) := by
  induction entries with
  | nil => rfl
  | cons e entries ih =>
    obtain ⟨hfirst, hrest⟩ := List.pairwise_cons.1 h
    rw [insert]
    split
    · rw [List.filter_cons, List.filter_cons, ih hrest]
      split <;> rfl
    · rename_i hlt
      by_cases hname : entry.1 = name
      · -- the entries from here on have fewer bytes, so none of them has the name
        have hnone : (e :: entries).filter (·.1 = name) = [] := by
          refine List.filter_eq_nil_iff.2 fun e' he' => ?_
          rw [decide_eq_true_eq]
          rintro rfl
          rw [hname] at hlt
          rcases List.mem_cons.1 he' with rfl | he'
          · omega
          · have := hfirst e' he'
            omega
        rw [List.filter_cons, hnone, List.nil_append, List.filter_cons, List.filter_nil]
      · simp [hname]

theorem Sorts.register {registry : Registry κ} (h : Sorts registry.entries commands) (name : String)
    (command : κ) :
    Sorts (registry.register name command).entries (commands ++ [(name, command)]) where
  sorted := sorted_insert h.sorted
  filter_eq name' := by
    rw [List.filter_append, ← h.filter_eq name']
    exact filter_insert h.sorted name'

theorem sorts_ofList (commands : List (String × κ)) : Sorts (ofList commands).entries commands := by
  induction commands using List.reverseRecOn with
  | nil => exact ⟨List.Pairwise.nil, fun _ => rfl⟩
  | append_singleton commands c ih =>
    rw [ofList, List.foldl_append]
    exact ih.register c.1 c.2

/-! ### The command of a line -/

/-- The first entry that starts the line has the longest name, and is the first of this name. -/
theorem Sorts.of_find? (h : Sorts entries commands)
    (hfind : (entries.find? fun e => startsWith e.1.toList line.toList) = some entry) :
    Longest commands line entry.1 ∧ commands.find? (·.1 = entry.1) = some entry := by
  obtain ⟨hstarts, before, after, hsplit, hbefore⟩ := List.find?_eq_some_iff_append.1 hfind
  rw [startsWith_iff] at hstarts
  have hnot : ∀ e ∈ before, ¬ Starts e.1 line := by
    intro e he
    rw [← startsWith_iff, Bool.not_eq_true]
    simpa using hbefore e he
  have hsorted := h.sorted
  rw [hsplit, List.pairwise_append, List.pairwise_cons] at hsorted
  refine ⟨⟨⟨entry.2, ?_⟩, hstarts, fun e he hstart => ?_⟩, ?_⟩
  · rw [← mem_of_filter_eq h.filter_eq, hsplit]
    simp
  · rw [← mem_of_filter_eq h.filter_eq, hsplit, List.mem_append, List.mem_cons] at he
    rcases he with he | rfl | he
    · exact absurd hstart (hnot e he)
    · exact le_rfl
    · exact length_le_of_utf8ByteSize_le hstart hstarts (hsorted.2.1.1 e he)
  · have hnone : before.find? (·.1 = entry.1) = none := by
      refine List.find?_eq_none.2 fun e he heq => hnot e he ?_
      rw [decide_eq_true_eq] at heq
      rwa [heq]
    rw [← find?_of_filter_eq h.filter_eq, hsplit, List.find?_append, hnone, Option.none_or,
      List.find?_cons_of_pos (by simp)]

/-- The arguments are what is left of the line behind the name. -/
theorem find?_ofList_eq_some {args : String}
    (h : (ofList commands).find? line = some (command, args)) :
    ∃ name rest, Longest commands line name ∧
      commands.find? (·.1 = name) = some (name, command) ∧
      line = name ++ rest ∧ args = String.ofList (Text.trim rest.toList) := by
  obtain ⟨⟨name, command'⟩, hfind, heq⟩ := Option.map_eq_some_iff.1 h
  obtain ⟨rfl, rfl⟩ := Prod.mk.inj heq
  obtain ⟨hlongest, hfirst⟩ := (sorts_ofList commands).of_find? hfind
  obtain ⟨rest, rfl⟩ := hlongest.starts.exists_eq_append
  refine ⟨name, rest, hlongest, hfirst, rfl, ?_⟩
  rw [String.toList_append, List.drop_left]

theorem find?_ofList_eq_none_iff :
    (ofList commands).find? line = none ↔ ∀ e ∈ commands, ¬ Starts e.1 line := by
  rw [find?, Option.map_eq_none_iff, List.find?_eq_none]
  constructor
  · intro h e he
    rw [← startsWith_iff]
    exact h e ((mem_of_filter_eq (sorts_ofList commands).filter_eq).2 he)
  · intro h e he
    rw [startsWith_iff]
    exact h e ((mem_of_filter_eq (sorts_ofList commands).filter_eq).1 he)

theorem find?_ofList_eq_some_iff {args : String} :
    (ofList commands).find? line = some (command, args) ↔
      ∃ name rest, Longest commands line name ∧
        commands.find? (·.1 = name) = some (name, command) ∧
        line = name ++ rest ∧ args = String.ofList (Text.trim rest.toList) := by
  refine ⟨find?_ofList_eq_some, ?_⟩
  rintro ⟨name, rest, hlongest, hfirst, hline, rfl⟩
  cases hfind : (ofList commands).find? line with
  | none =>
    obtain ⟨command', hmem⟩ := hlongest.registered
    exact absurd hlongest.starts (find?_ofList_eq_none_iff.1 hfind _ hmem)
  | some found =>
    obtain ⟨name', rest', hlongest', hfirst', hline', hargs⟩ := find?_ofList_eq_some hfind
    obtain rfl := hlongest.eq hlongest'
    rw [hfirst, Option.some.injEq, Prod.mk.injEq] at hfirst'
    obtain rfl : rest' = rest := by
      have hsame := congrArg String.toList (hline'.symm.trans hline)
      rw [String.toList_append, String.toList_append, List.append_cancel_left_eq] at hsame
      exact String.toList_inj.1 hsame
    rw [hfirst'.2, ← hargs]

theorem longest_of_filter_eq {others : List (String × κ)}
    (h : ∀ name, others.filter (·.1 = name) = commands.filter (·.1 = name)) :
    Longest others line name ↔ Longest commands line name := by
  have hmem (e : String × κ) : e ∈ others ↔ e ∈ commands := mem_of_filter_eq h
  constructor
  · rintro ⟨⟨command, hc⟩, hstarts, hle⟩
    exact ⟨⟨command, (hmem _).1 hc⟩, hstarts, fun e he => hle e ((hmem e).2 he)⟩
  · rintro ⟨⟨command, hc⟩, hstarts, hle⟩
    exact ⟨⟨command, (hmem _).2 hc⟩, hstarts, fun e he => hle e ((hmem e).1 he)⟩

/-- **The longest name is dispatched.** Commands are registered one after another, under any names. A
line runs the command with the longest name that is the whole line or stands before a space at its
start, the first one that was registered under this name. Its arguments are the rest of the line
behind the name, trimmed. There is no command if and only if no name starts the line. Commands of
different names may be registered in any order. -/
theorem dispatches_longest (commands : List (String × κ)) (line : String) :
    (∀ command args, (ofList commands).find? line = some (command, args) ↔
      ∃ name rest, Longest commands line name ∧
        commands.find? (·.1 = name) = some (name, command) ∧
        line = name ++ rest ∧ args = String.ofList (Text.trim rest.toList)) ∧
    ((ofList commands).find? line = none ↔ ∀ e ∈ commands, ¬ Starts e.1 line) ∧
    ∀ others : List (String × κ),
      (∀ name, others.filter (·.1 = name) = commands.filter (·.1 = name)) →
      (ofList others).find? line = (ofList commands).find? line := by
  refine ⟨fun command args => find?_ofList_eq_some_iff, find?_ofList_eq_none_iff,
    fun others h => Option.ext ?_⟩
  rintro ⟨command, args⟩
  rw [find?_ofList_eq_some_iff, find?_ofList_eq_some_iff]
  simp only [longest_of_filter_eq h, find?_of_filter_eq h]

/-- Commands under names that start each other, one of them registered twice. -/
def rehearsal : List (String × ℕ) := [("é", 0), ("practice", 1), ("practice start", 2), ("practice", 3)]

/-- Whether the longer name comes before the shorter one or behind it, it is found; and so is the
first of the two commands of the shorter name. -/
theorem dispatches_longest_rehearsal :
    (∀ name, [("practice start", 2), ("practice", 1), ("practice", 3), ("é", 0)].filter (·.1 = name)
      = rehearsal.filter (·.1 = name)) ∧
    (ofList [("practice start", 2), ("practice", 1), ("practice", 3), ("é", 0)]).find?
      "practice start  rock" = some (2, "rock") ∧
    Longest rehearsal "practice stop" "practice" ∧
    (ofList rehearsal).find? "practice stop" = some (1, "stop") ∧
    (∀ e ∈ rehearsal, ¬ Starts e.1 "practiced") ∧
    (ofList rehearsal).find? "practiced" = none := by
  have hsame : ∀ name,
      [("practice start", 2), ("practice", 1), ("practice", 3), ("é", 0)].filter (·.1 = name)
        = rehearsal.filter (·.1 = name) := by
    intro name
    by_cases hstart : "practice start" = name
    · subst hstart
      decide
    by_cases haccent : "é" = name
    · subst haccent
      decide
    · simp only [rehearsal, List.filter_cons, List.filter_nil, hstart, haccent, decide_false,
        Bool.false_eq_true, if_false]
  have hlong : Longest rehearsal "practice start  rock" "practice start" := by
    refine ⟨⟨2, by decide⟩, .inr ⟨" rock", by decide⟩, fun e he _ => ?_⟩
    have hall : ∀ e ∈ rehearsal, e.1.length ≤ "practice start".length := by decide
    exact hall e he
  have hshort : Longest rehearsal "practice stop" "practice" := by
    refine ⟨⟨1, by decide⟩, .inr ⟨"stop", by decide⟩, fun e he hstarts => ?_⟩
    rw [← startsWith_iff] at hstarts
    have hall : ∀ e ∈ rehearsal, startsWith e.1.toList "practice stop".toList = true →
        e.1.length ≤ "practice".length := by decide
    exact hall e he hstarts
  have hnone : ∀ e ∈ rehearsal, ¬ Starts e.1 "practiced" := by
    intro e he hstarts
    rw [← startsWith_iff] at hstarts
    have hall : ∀ e ∈ rehearsal, startsWith e.1.toList "practiced".toList = false := by decide
    rw [hall e he] at hstarts
    cases hstarts
  refine ⟨hsame, ?_, hshort, ?_, hnone, (dispatches_longest rehearsal "practiced").2.1.2 hnone⟩
  · obtain ⟨hsome, -, horder⟩ := dispatches_longest rehearsal "practice start  rock"
    rw [horder _ hsame]
    exact (hsome 2 "rock").2 ⟨_, "  rock", hlong, by decide, by decide, by decide⟩
  · obtain ⟨hsome, -, -⟩ := dispatches_longest rehearsal "practice stop"
    exact (hsome 1 "stop").2 ⟨_, " stop", hshort, by decide, by decide, by decide⟩

end Registry
end DrumPractice
