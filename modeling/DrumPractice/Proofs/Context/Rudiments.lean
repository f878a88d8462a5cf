import DrumPractice.Proofs.Context.Runs
import DrumPractice.Proofs.Registry.Dispatch
import DrumPractice.Proofs.Rudiment.Drawing
import DrumPractice.Proofs.Rudiment.Names

/-!
# Rudiments by name

The words behind `rudiment` are a name, and perhaps a number of beats: the last word if it is a
number and not the only word. Names may be spelled with spaces, so a name whose last word is a number
loses it.

* `execute_rudiment`: what the line does, by the name and the beats that are split off;
* `understands_rudiment_names`: how the names of rudiments are understood;
* `digit_apart_not_understood`: a name that is not.
-/

namespace DrumPractice

namespace Action

variable {words init : List (List Char)} {word : List Char} {beats n : ℕ}

theorem nameAndBeats_of_number (hinit : init ≠ [])
    (hnumber : Numeral.natural? (2 ^ 64) word = some n) :
    nameAndBeats (init ++ [word]) beats = (init, n) := by
  have hlength : 1 < (init ++ [word]).length := by
    have := List.length_pos_iff.2 hinit
    rw [List.length_append, List.length_singleton]
    omega
  rw [nameAndBeats, List.getLast?_concat, Option.bind_some, hnumber]
  simp only [if_pos hlength, List.dropLast_concat]

theorem nameAndBeats_of_not_number (h : ∀ init word n, words = init ++ [word] → init ≠ [] →
    Numeral.natural? (2 ^ 64) word ≠ some n) : nameAndBeats words beats = (words, beats) := by
  rcases List.eq_nil_or_concat' words with rfl | ⟨init, word, rfl⟩
  · rfl
  · rw [nameAndBeats, List.getLast?_concat, Option.bind_some]
    cases hnumber : Numeral.natural? (2 ^ 64) word with
    | none => rfl
    | some n =>
      have hinit : init = [] := by_contra fun hne => h init word n rfl hne hnumber
      rw [hinit]
      rfl

end Action

namespace Context

open Rudiment

variable {name rest : String} {r : Rudiment} {init words : List (List Char)} {d : Char} {n : ℕ}

/-- Longer names of commands begin with another letter. -/
theorem find?_rudiment (rest : String) : Command.registry.find? ("rudiment " ++ rest)
    = some (.rudiment, String.ofList (Text.trim (' ' :: rest.toList))) := by
  have hname : "rudiment " = "rudiment" ++ " " := by decide
  have hstarts : Registry.Starts "rudiment" ("rudiment " ++ rest) := .inr ⟨rest, by rw [hname]⟩
  rw [Command.registry, Registry.find?_ofList_eq_some_iff]
  refine ⟨"rudiment", " " ++ rest, ⟨⟨.rudiment, by decide⟩, hstarts, fun e he hother => ?_⟩,
    by decide, ?_, ?_⟩
  · by_contra hlonger
    obtain ⟨more, hmore⟩ := Registry.exists_eq_append_of_length_le hstarts hother (by omega)
    have hfront : e.1.toList.head? = some 'r' := by rw [hmore, String.toList_append]; rfl
    refine hlonger ?_
    clear hother hlonger hmore
    revert e
    decide
  · rw [← String.append_assoc, hname]
  · rw [String.toList_append]
    rfl

theorem execute_rudiment (ctx : Context) (world : Surroundings)
    (hne : Text.words rest.toList ≠ []) (hn : 1 ≤ n)
    (hargs : Action.nameAndBeats (Text.words rest.toList) ctx.config.beatsPerBar = (words, n)) :
    ctx.execute world ("rudiment " ++ rest) = Action.read (fun ctx =>
      match ofName? (String.ofList ([' '].intercalate words)) with
      | none => pure (.error ("Unknown rudiment '" ++ String.ofList ([' '].intercalate words) ++
          "' (try 'rudiment')"))
      | some r => Action.showRudiment r n ctx) ctx := by
  have hwords : Text.words (Text.trim (' ' :: rest.toList)) = Text.words rest.toList := by
    rw [Text.words_trim]
    exact Text.words_append_cons (by decide) [] rest.toList
  rw [execute, find?_rudiment]
  show Action.rudiment _ ctx = _
  rw [Action.rudiment, Action.read, Action.read, String.toList_ofList, hwords]
  simp only [if_neg hne, hargs, if_neg (Nat.one_le_iff_ne_zero.1 hn)]
  cases ofName? (String.ofList ([' '].intercalate words)) with
  | none => rfl
  | some r => rfl

/-- The digit at the end of the rudiment's name is a word of its own. -/
structure DigitApart (r : Rudiment) (name : String) (init : List (List Char)) (d : Char) : Prop where
  words : Text.words name.toList = init ++ [[d]]
  ne_nil : init ≠ []
  numbered : (r, d) ∈ Rudiment.numbered

theorem not_digitApart_of_word {word : List Char} (hword : Text.words name.toList = [word]) :
    ¬ ∃ init d, DigitApart r name init d := by
  rintro ⟨init, d, hwords, hinit, -⟩
  have hlength := congrArg List.length (hword.symm.trans hwords)
  have hpos := List.length_pos_iff.2 hinit
  rw [List.length_append, List.length_singleton, List.length_singleton] at hlength
  omega

theorem DigitApart.natural? (h : DigitApart r name init d) :
    ∃ n, 1 ≤ n ∧ Numeral.natural? (2 ^ 64) [d] = some n := by
  have hall : ∀ p ∈ Rudiment.numbered, ∃ n ∈ [1, 2, 3],
      1 ≤ n ∧ Numeral.natural? (2 ^ 64) [p.2] = some n := by decide
  obtain ⟨n, -, hn⟩ := hall _ h.numbered
  exact ⟨n, hn⟩

/-- If the digit is a word of its own, it is taken for the beats, and no name is left. -/
theorem DigitApart.execute_rudiment (h : DigitApart r name init d)
    (hname : ofName? name = some r) (ctx : Context) (world : Surroundings) :
    ctx.execute world ("rudiment " ++ name) = .ok (.error ("Unknown rudiment '" ++
      String.ofList ([' '].intercalate init) ++ "' (try 'rudiment')"), ctx) := by
  obtain ⟨n, hn, hnumber⟩ := h.natural?
  obtain ⟨-, -, -, hnone⟩ := last_word_of_ofName? hname h.words hnumber
  rw [Context.execute_rudiment ctx world (words_ne_nil_of_ofName? hname) hn
    (by rw [h.words]; exact Action.nameAndBeats_of_number h.ne_nil hnumber)]
  simp only [hnone]
  rfl

/-- Other names are read as a whole. -/
theorem execute_rudiment_of_not_digitApart (hname : ofName? name = some r)
    (hapart : ¬ ∃ init d, DigitApart r name init d) (ctx : Context) (world : Surroundings)
    (hbeats : 1 ≤ ctx.config.beatsPerBar) : ctx.execute world ("rudiment " ++ name)
      = Action.read (Action.showRudiment r ctx.config.beatsPerBar) ctx := by
  have hargs : Action.nameAndBeats (Text.words name.toList) ctx.config.beatsPerBar
      = (Text.words name.toList, ctx.config.beatsPerBar) := by
    refine Action.nameAndBeats_of_not_number fun init word n hwords hinit hnumber => hapart ?_
    obtain ⟨d, hmem, rfl, -⟩ := last_word_of_ofName? hname hwords hnumber
    exact ⟨init, d, hwords, hinit, hmem⟩
  rw [execute_rudiment ctx world (words_ne_nil_of_ofName? hname) hbeats hargs]
  simp only [ofName?_words hname]

/-- With the beats behind it, every name is read as a whole. -/
theorem execute_rudiment_of_beats (hname : ofName? name = some r) {word : String}
    (hnumber : Numeral.natural? (2 ^ 64) word.toList = some n) (hn : 1 ≤ n) (ctx : Context)
    (world : Surroundings) : ctx.execute world ("rudiment " ++ name ++ " " ++ word)
      = Action.read (Action.showRudiment r n) ctx := by
  obtain ⟨hword, hblank⟩ := Numeral.isBlank_of_natural?_eq_some hnumber
  have hwords : Text.words (name ++ " " ++ word).toList = Text.words name.toList ++ [word.toList] := by
    rw [← Text.words_of_forall_not hword hblank, String.toList_append, String.toList_append,
      List.append_assoc]
    exact Text.words_append_cons (by decide) name.toList word.toList
  have hne : Text.words (name ++ " " ++ word).toList ≠ [] := by
    rw [hwords]
    exact List.append_ne_nil_of_right_ne_nil _ (List.cons_ne_nil _ _)
  have hline : "rudiment " ++ name ++ " " ++ word = "rudiment " ++ (name ++ " " ++ word) := by
    simp only [String.append_assoc]
  rw [hline, execute_rudiment ctx world hne hn
    (by rw [hwords]; exact Action.nameAndBeats_of_number (words_ne_nil_of_ofName? hname) hnumber)]
  simp only [ofName?_words hname]

/-- Up to `2 ^ 39` beats, a rudiment is shown by its notation and its drawing. -/
theorem read_showRudiment (r : Rudiment) (hone : 1 ≤ n) (hn : n ≤ 2 ^ 39) (ctx : Context) :
    Action.read (Action.showRudiment r n) ctx = .ok (.message (r.drawing ctx.colors n), ctx) := by
  rw [Action.read, showRudiment_eq r hone hn]
  rfl

/-- **Every name is understood, unless its digit is a word of its own.** Let a text spell a rudiment.
Behind `rudiment`, with a word that is read as a number after it (a numeral is, by
`Numeral.natural?_numeral`), it shows the rudiment over so many beats. Without a number it shows the
rudiment over the beats of a bar, unless the digit that ends the rudiment's name is a word of its own
behind others: then the digit is taken for the beats, and no rudiment has the name that is left. Up to
`2 ^ 39` beats the answer is the notation of the rudiment and its drawing. The state does not change.
-/
theorem understands_rudiment_names (hname : ofName? name = some r) (ctx : Context)
    (world : Surroundings) :
    (∀ (word : String) (n : ℕ), Numeral.natural? (2 ^ 64) word.toList = some n → 1 ≤ n →
      ctx.execute world ("rudiment " ++ name ++ " " ++ word)
        = Action.read (Action.showRudiment r n) ctx) ∧
    ((¬ ∃ init d, DigitApart r name init d) → 1 ≤ ctx.config.beatsPerBar →
      ctx.execute world ("rudiment " ++ name)
        = Action.read (Action.showRudiment r ctx.config.beatsPerBar) ctx) ∧
    (∀ init d, DigitApart r name init d → ctx.execute world ("rudiment " ++ name)
      = .ok (.error ("Unknown rudiment '" ++ String.ofList ([' '].intercalate init) ++
          "' (try 'rudiment')"), ctx)) ∧
    ∀ n, 1 ≤ n → n ≤ 2 ^ 39 →
      Action.read (Action.showRudiment r n) ctx = .ok (.message (r.drawing ctx.colors n), ctx) :=
  ⟨fun _ _ hnumber hn => execute_rudiment_of_beats hname hnumber hn ctx world,
    fun hapart => execute_rudiment_of_not_digitApart hname hapart ctx world,
    fun _ _ hapart => hapart.execute_rudiment hname ctx world,
    fun _ hone hn => read_showRudiment r hone hn ctx⟩

/-- What is answered to a name with a space, in any case, and two beats. -/
def twoBeats : String :=
  "xx-x,--x-\n" ++
  "reverse-paradiddle (bar 1, pass 1)\n" ++
  "  rh xx.x|..x.\n" ++
  "  lh ..x.|xx.x\n" ++
  "  rf ....|....\n" ++
  "  lf ....|...."

theorem understands_rudiment_names_twoBeats :
    ofName? "Reverse PARADIDDLE" = some reverseParadiddle ∧
    Numeral.natural? (2 ^ 64) "2".toList = some 2 ∧
    idle.execute drills "rudiment Reverse PARADIDDLE 2" = .ok (.message twoBeats, idle) := by
  have hname : ofName? "Reverse PARADIDDLE" = some reverseParadiddle :=
    ofName?_eq_some_iff.2 (by decide +kernel)
  have hnumber : Numeral.natural? (2 ^ 64) "2".toList = some 2 :=
    Numeral.natural?_numeral (n := 2) (by decide)
  have hline : "rudiment " ++ "Reverse PARADIDDLE" ++ " " ++ "2"
      = "rudiment Reverse PARADIDDLE 2" := by decide
  have htext : reverseParadiddle.drawing idle.colors 2 = twoBeats := by decide +kernel
  obtain ⟨hbeats, -, -, hshown⟩ := understands_rudiment_names hname idle drills
  refine ⟨hname, hnumber, ?_⟩
  rw [← hline, hbeats "2" 2 hnumber (by decide), hshown 2 (by decide) (by decide), htext]

/-- What is answered to the name of the quarters that come a step late. -/
def quartersLate : String :=
  "-x--,-x--,-x--,-x--\n" ++
  "quarters-offset-1 (bar 1, pass 1)\n" ++
  "  rh .x..|.x..|.x..|.x..\n" ++
  "  lh x.xx|x.xx|x.xx|x.xx\n" ++
  "  rf ....|....|....|....\n" ++
  "  lf ....|....|....|...."

/-- With spaces, the same name is not found. -/
theorem digit_apart_not_understood :
    ofName? "quarters offset 1" = some quartersOffset1 ∧
    idle.execute drills "rudiment quarters offset 1"
      = .ok (.error "Unknown rudiment 'quarters offset' (try 'rudiment')", idle) ∧
    ofName? "quarters-offset-1" = some quartersOffset1 ∧
    idle.execute drills "rudiment quarters-offset-1" = .ok (.message quartersLate, idle) ∧
    ¬ ∀ (name : String) (r : Rudiment) (ctx : Context) (world : Surroundings),
      ofName? name = some r → 1 ≤ ctx.config.beatsPerBar →
        ctx.execute world ("rudiment " ++ name)
          = Action.read (Action.showRudiment r ctx.config.beatsPerBar) ctx := by
  have hspaced : ofName? "quarters offset 1" = some quartersOffset1 :=
    ofName?_eq_some_iff.2 (by decide +kernel)
  have hdashed : ofName? "quarters-offset-1" = some quartersOffset1 :=
    ofName?_eq_some_iff.2 (by decide +kernel)
  have hapart : DigitApart quartersOffset1 "quarters offset 1"
      ["quarters".toList, "offset".toList] '1' := ⟨by decide, by decide, by decide⟩
  have hword : Text.words "quarters-offset-1".toList = ["quarters-offset-1".toList] := by decide
  have htext : quartersOffset1.drawing idle.colors 4 = quartersLate := by decide +kernel
  have hshown : Action.read (Action.showRudiment quartersOffset1 4) idle
      = .ok (.message quartersLate, idle) := by
    rw [read_showRudiment quartersOffset1 (by decide) (by decide), htext]
  have herror := hapart.execute_rudiment hspaced idle drills
  refine ⟨hspaced, herror, hdashed, ?_, fun hclaim => ?_⟩
  · exact (execute_rudiment_of_not_digitApart hdashed (not_digitApart_of_word hword) idle drills
      (by decide)).trans hshown
  · have hfound := hclaim _ _ idle drills hspaced (by decide)
    rw [herror] at hfound
    cases hfound.trans hshown

end Context
end DrumPractice
