import DrumPractice.Proofs.Context.Runs
import DrumPractice.Proofs.Library.Lookup

/-!
# The loaded exercises and the selected one

The selected exercise is a copy, and the library under it can be replaced at any time. Yet it always
is an exercise of the library, some bars of it having been played.

* `Context.Listed`: the library is that of a document, and the selected exercise is in it;
* `finds_by_name`: what names find in a loaded library, during any run;
* `selection_is_listed`: the selected exercise is in the library, and `list` marks it and no other.
-/

namespace DrumPractice

namespace Exercise

variable {α : Type} {e e' : Exercise α}

/-- The exercises have the same name and the same patterns, whatever has been played of them. -/
structure SameUpToCursors (e e' : Exercise α) : Prop where
  name : e.name = e'.name
  patterns : e.patterns.map (fun p => (p.name, p.table, p.loops)) =
    e'.patterns.map (fun p => (p.name, p.table, p.loops))

theorem SameUpToCursors.symm (h : e.SameUpToCursors e') : e'.SameUpToCursors e :=
  ⟨h.name.symm, h.patterns.symm⟩

theorem sameUpToCursors_reset (e : Exercise α) : e.SameUpToCursors e.reset where
  name := rfl
  patterns := by
    rw [reset, List.map_map]
    rfl

end Exercise

namespace Context

variable {start ctx ctx' : Context} {world : Surroundings} {e : Exercise Double}

/-! ### The library is that of a document -/

/-- The library is that of a document. -/
def Loaded (ctx : Context) : Prop := ∃ document, Library.load document = .ok ctx.library

theorem Loaded.wellFormed (h : ctx.Loaded) : ctx.library.WellFormed := by
  obtain ⟨document, hload⟩ := h
  exact Library.wellFormed_of_load hload

theorem loaded_of_load {read : String → Except FileProblem String} {path summary : String}
    (h : ctx.load read path = .ok (.ok (summary, ctx'))) : ctx'.Loaded := by
  obtain ⟨text, library, hload, rfl⟩ := load_eq_ok h
  exact ⟨text.toList, hload⟩

theorem Loaded.change {command : Command} (h : ctx.Loaded)
    (hchange : Change world ctx command ctx') : ctx'.Loaded := by
  cases hchange with
  | load hload => exact loaded_of_load hload
  | _ => exact h

theorem Loaded.step (h : ctx.Loaded) (hstep : Step ctx ctx') : ctx'.Loaded := by
  obtain rfl | ⟨world, command, hchange⟩ | rfl | ⟨s, s', -, -, rfl⟩ | ⟨sensor, rfl⟩ |
    ⟨turn, m, -, rfl⟩ := step_cases hstep
  · exact h
  · exact h.change hchange
  all_goals exact h

/-- **Names find their exercises.** The normalized names of a loaded library are all different, and a
name finds the exercise with the same normalized name, if there is one; so every exercise is found by
its own name. Whatever a run plays, selects or loads, a copy of an exercise is at its start: no pattern
has been played, and as many bars are to come as the exercise has. -/
theorem finds_by_name {document : List Char} {library : Library Double}
    (hload : Library.load document = .ok library) :
    (library.exercises.map Exercise.normalizedName).Nodup ∧
    (∀ (name : String) (e : Exercise Double), library.byName? name = some e ↔
      e ∈ library.exercises ∧ normalizeName e.name = normalizeName name) ∧
    (∀ e ∈ library.exercises, library.byName? e.name = some e) ∧
    ∀ {start ctx : Context}, start.library = library → Run start ctx → ∀ name,
      (∃ e ∈ ctx.library.exercises, normalizeName e.name = normalizeName name ∧
        ctx.library.exercise name = .ok e ∧ e.index = 0 ∧ (∀ p ∈ e.patterns, p.cursor = 0) ∧
        e.remaining = e.length) ∨
      ((∀ e ∈ ctx.library.exercises, normalizeName e.name ≠ normalizeName name) ∧
        ctx.library.exercise name = .error (.lookup name)) := by
  have hwell := Library.wellFormed_of_load hload
  refine ⟨hwell.distinct, fun name e => hwell.byName?_eq_some_iff, fun e he => ?_, ?_⟩
  · exact hwell.byName?_eq_some_iff.2 ⟨he, rfl⟩
  · rintro start ctx rfl hrun name
    have hloaded : ctx.Loaded := hrun.preserves ⟨document, hload⟩ Loaded.step
    obtain ⟨e, he, hname, hrewound, hok⟩ | hunknown := hloaded.wellFormed.exercise_cases name
    · exact .inl ⟨e, he, hname, hok, hrewound.index, hrewound.cursor, hrewound.remaining_eq⟩
    · exact .inr hunknown

/-- An exercise is played, another one selected, and the sheet replaced while it is stepped through. -/
def playingDrills : List Input := [
  .line drills "load drills.tsv", .line drills "practice start rest",
  .tick (.ofBeat 4 0 (Binary.ofInt 10)), .line drills "select SINGLESTROKE", .line drills "next",
  .line drills "load others.tsv", .line drills "next"]

theorem exists_handleAll_playingDrills : ∃ ctx, idle.handleAll playingDrills = .ok ctx ∧
    ctx.selected.isSome = true ∧ (ctx.library.exercise "single stroke").isOk = true := by
  have hleft : (idle.handleAll playingDrills).toOption.map (fun ctx =>
      (ctx.selected.isSome, (ctx.library.exercise "single stroke").isOk)) = some (true, true) := by
    decide +kernel
  obtain ⟨ctx, hrun, hpair⟩ := map_toOption_eq_some.1 hleft
  obtain ⟨hselected, hfound⟩ := Prod.mk.inj hpair
  exact ⟨ctx, hrun, hselected, hfound⟩

theorem finds_by_name_playingDrills : ∃ ctx e,
    Library.load [] = .ok idle.library ∧ idle.handleAll playingDrills = .ok ctx ∧
    ctx.library.exercise "single stroke" = .ok e ∧ e.index = 0 ∧ e.remaining = e.length := by
  obtain ⟨ctx, hrun, -, hfound⟩ := exists_handleAll_playingDrills
  have hempty : Library.load [] = .ok idle.library := rfl
  obtain ⟨-, -, -, hcopy⟩ := finds_by_name hempty
  obtain ⟨e, -, -, he, hindex, -, hremaining⟩ | ⟨-, hunknown⟩ :=
    hcopy rfl (Run.start.handleAll hrun) "single stroke"
  · exact ⟨ctx, e, hempty, hrun, he, hindex, hremaining⟩
  · rw [hunknown] at hfound
    cases hfound

/-! ### The selected exercise is in the library -/

/-- The library is that of a document, and the selected exercise is in it, but for what has been
played of it. -/
structure Listed (ctx : Context) : Prop where
  loaded : ctx.Loaded
  selected : ∀ e, ctx.selected = some e → e.reset ∈ ctx.library.exercises

theorem Listed.congr (h : ctx.Listed) (hlibrary : ctx'.library = ctx.library)
    (hselected : ctx'.selected = ctx.selected) : ctx'.Listed where
  loaded := by rw [Loaded, hlibrary]; exact h.loaded
  selected := by rw [hlibrary, hselected]; exact h.selected

theorem listed_start (hloaded : ctx.Loaded) (hselected : ctx.selected = none) : ctx.Listed where
  loaded := hloaded
  selected e he := by cases hselected.symm.trans he

/-- A copy from the library may be selected. -/
theorem Listed.select (h : ctx.Listed) {name : String} (hname : ctx.library.exercise name = .ok e) :
    Listed { ctx with selected := some e } where
  loaded := h.loaded
  selected := by
    obtain ⟨hmem, hrewound⟩ := h.loaded.wellFormed.of_exercise_eq_ok hname
    rintro _ ⟨⟩
    rwa [hrewound.reset_eq]

/-- The selected exercise may be played and rewound. -/
theorem Listed.replay (h : ctx.Listed) (he : ctx.selected = some e) {e' : Exercise Double}
    (hreset : e'.reset = e.reset) : Listed { ctx with selected := some e' } where
  loaded := h.loaded
  selected := by
    rintro _ ⟨⟩
    rw [hreset]
    exact h.selected e he

/-- Another library brings its own copy of the selected exercise, or none. -/
theorem listed_of_load {read : String → Except FileProblem String} {path summary : String}
    (h : ctx.load read path = .ok (.ok (summary, ctx'))) : ctx'.Listed where
  loaded := loaded_of_load h
  selected e he := by
    have hwell := (loaded_of_load h).wellFormed
    obtain ⟨-, library, -, rfl⟩ := load_eq_ok h
    obtain ⟨previous, -, hfind⟩ := Option.bind_eq_some_iff.1 he
    obtain ⟨hmem, -⟩ := hwell.byName?_eq_some_iff.1 hfind
    rw [(hwell.rewound e hmem).reset_eq]
    exact hmem

theorem Listed.change {command : Command} (h : ctx.Listed)
    (hchange : Change world ctx command ctx') : ctx'.Listed := by
  cases hchange with
  | load hload => exact listed_of_load hload
  | select hname => exact h.select hname
  | next he => exact h.replay he (Exercise.reset_advance _)
  | reset he => exact h.replay he (Exercise.reset_reset _)
  | startNamed _ hname => exact (h.select hname).congr rfl rfl
  | start _ _ | stop _ _ | hit _ | tempo _ => exact h.congr rfl rfl

theorem Listed.step (h : ctx.Listed) (hstep : Step ctx ctx') : ctx'.Listed := by
  obtain rfl | ⟨world, command, hchange⟩ | rfl | ⟨s, s', -, -, rfl⟩ | ⟨sensor, rfl⟩ |
    ⟨turn, m, -, rfl⟩ := step_cases hstep
  · exact h
  · exact h.change hchange
  all_goals exact h.congr rfl rfl

end Context

/-! ### The list of exercises -/

namespace Action

variable {ctx : Context} {e : Exercise Double}

/-- The line starts with the marker of the selected exercise. -/
def IsMarked (ctx : Context) (line : List Char) : Prop :=
  (ctx.paint .brightGreen "*").toList <+: line

theorem toList_listLine (ctx : Context) (e : Exercise Double) : (listLine ctx e).toList =
    (if ctx.selected.any fun s => s.normalizedName = e.normalizedName then
      ctx.paint .brightGreen "*" else " ").toList ++ ' ' :: ((ctx.paint .cyan e.name).toList ++
        " (".toList ++ (numeral e.patterns.length).toList ++ " sections, ".toList ++
        (numeral e.length).toList ++ " bars)".toList) := by
  simp [listLine, String.toList_append, toString]

theorem not_isMarked_cons {c : Char} {line : List Char} (hstar : c ≠ '*') (hescape : c ≠ '\x1b') :
    ¬ IsMarked ctx (c :: line) := by
  unfold IsMarked Context.paint
  cases ctx.colors with
  | false =>
    rintro ⟨rest, h⟩
    exact hstar (List.cons.inj h).1.symm
  | true =>
    rintro ⟨rest, h⟩
    exact hescape (List.cons.inj h).1.symm

/-- The line of an exercise is marked if the selected exercise has its name. -/
theorem isMarked_listLine_iff : IsMarked ctx (listLine ctx e).toList ↔
    ∃ s, ctx.selected = some s ∧ s.normalizedName = e.normalizedName := by
  have hany : (ctx.selected.any fun s => s.normalizedName = e.normalizedName) = true ↔
      ∃ s, ctx.selected = some s ∧ s.normalizedName = e.normalizedName := by
    simp [Option.any_eq_true]
  rw [toList_listLine, ← hany]
  by_cases h : (ctx.selected.any fun s => s.normalizedName = e.normalizedName) = true
  · rw [if_pos h]
    exact iff_of_true (List.prefix_append _ _) h
  · rw [if_neg h]
    exact iff_of_false (not_isMarked_cons (by decide) (by decide)) h

theorem newline_notMem_listLine (h : '\n' ∉ e.name.toList) : '\n' ∉ (listLine ctx e).toList := by
  have hstar : '\n' ∉ (ctx.paint .brightGreen "*").toList :=
    Style.newline_notMem_paint ctx.colors (by decide) (by decide)
  have hname : '\n' ∉ (ctx.paint .cyan e.name).toList :=
    Style.newline_notMem_paint ctx.colors (by decide) h
  have hmarker : '\n' ∉ (if ctx.selected.any fun s => s.normalizedName = e.normalizedName then
      ctx.paint .brightGreen "*" else " ").toList := by
    split
    · exact hstar
    · decide
  rw [toList_listLine]
  simp [hmarker, hname, newline_notMem_numeral]

/-- The list has a line for each exercise. -/
theorem lines_list (ctx : Context) {es : List (Exercise Double)}
    (h : ∀ e ∈ es, '\n' ∉ e.name.toList) (hne : es ≠ []) :
    Text.lines (String.intercalate "\n" (es.map (listLine ctx))).toList =
      es.map fun e => (listLine ctx e).toList := by
  have hlines : ∀ text ∈ es.map (listLine ctx), '\n' ∉ text.toList := by
    intro text htext
    obtain ⟨e, he, rfl⟩ := List.mem_map.1 htext
    exact newline_notMem_listLine (h e he)
  rw [Text.lines_intercalate hlines (by simpa using hne), List.map_map]
  rfl

end Action

namespace Context

open DrumPractice.Action (IsMarked listLine)

variable {start ctx : Context} {e : Exercise Double}

/-- The list has the lines of the exercises in their order, and marks no other line. -/
theorem Listed.execute_list (h : ctx.Listed) (world : Surroundings) :
    ∃ text, ctx.execute world "list" = .ok (.message text, ctx) ∧
      (∀ (i : ℕ) e, ctx.library.exercises[i]? = some e →
        (Text.lines text.toList)[i]? = some (listLine ctx e).toList) ∧
      ∀ (i : ℕ) line, (Text.lines text.toList)[i]? = some line → IsMarked ctx line →
        ∃ e s : Exercise Double, ctx.library.exercises[i]? = some e ∧ ctx.selected = some s ∧
          s.normalizedName = e.normalizedName := by
  have hfind : Command.registry.find? "list" = some (.list, "") := by decide +kernel
  have hexecute : ctx.execute world "list" = Action.list ctx := by rw [execute, hfind]; rfl
  rw [hexecute, Action.list, Action.read]
  cases hexercises : ctx.library.exercises with
  | nil =>
    refine ⟨_, rfl, by simp, fun i line hline hmarked => ?_⟩
    have hlines : Text.lines "No exercises loaded (try 'load <path>')".toList =
        ["No exercises loaded (try 'load <path>')".toList] := by decide
    rw [hlines, List.getElem?_singleton] at hline
    split at hline
    · cases hline
      exact absurd hmarked (Action.not_isMarked_cons (by decide) (by decide))
    · cases hline
  | cons first rest =>
    refine ⟨_, rfl, ?_⟩
    have hlines := Action.lines_list ctx (hexercises ▸ h.loaded.wellFormed.oneLine)
      (List.cons_ne_nil first rest)
    rw [hlines]
    refine ⟨fun i e he => by rw [List.getElem?_map, he]; rfl, fun i line hline hmarked => ?_⟩
    rw [List.getElem?_map] at hline
    obtain ⟨e, he, rfl⟩ := Option.map_eq_some_iff.1 hline
    obtain ⟨s, hs, hname⟩ := Action.isMarked_listLine_iff.1 hmarked
    exact ⟨e, s, he, hs, hname⟩

/-- **The selected exercise is in the library.** Along every run that starts with nothing selected,
the selected exercise has the name and the patterns of an exercise in the library, whatever has been
played of it. The answer to `list` marks the line of this exercise and no other one; and no line, if
nothing is selected. -/
theorem selection_is_listed {document : List Char}
    (hlibrary : Library.load document = .ok start.library) (hselected : start.selected = none)
    (hrun : Run start ctx) (world : Surroundings) :
    (∀ e, ctx.selected = some e → ∃ e' ∈ ctx.library.exercises,
      e'.normalizedName = e.normalizedName ∧ e'.SameUpToCursors e) ∧
    ∃ text, ctx.execute world "list" = .ok (.message text, ctx) ∧
      (ctx.selected = none → ∀ line ∈ Text.lines text.toList, ¬ IsMarked ctx line) ∧
      ∀ e, ctx.selected = some e → ∃ (i : ℕ) (e' : Exercise Double),
        ctx.library.exercises[i]? = some e' ∧
        e'.normalizedName = e.normalizedName ∧ e'.SameUpToCursors e ∧
        (Text.lines text.toList)[i]? = some (listLine ctx e').toList ∧
        ∀ (j : ℕ) line, (Text.lines text.toList)[j]? = some line → (IsMarked ctx line ↔ j = i) := by
  have hlisted : ctx.Listed := hrun.preserves (listed_start ⟨document, hlibrary⟩ hselected) .step
  have hsame (e : Exercise Double) : e.reset.SameUpToCursors e :=
    (Exercise.sameUpToCursors_reset e).symm
  obtain ⟨text, hexecute, hlines, hmarked⟩ := hlisted.execute_list world
  refine ⟨fun e he => ⟨e.reset, hlisted.selected e he, rfl, hsame e⟩, text, hexecute, ?_, ?_⟩
  · intro hnone line hline hmark
    obtain ⟨i, hi⟩ := List.mem_iff_getElem?.1 hline
    obtain ⟨-, s, -, hs, -⟩ := hmarked i line hi hmark
    cases hnone.symm.trans hs
  · intro e he
    obtain ⟨i, hi⟩ := List.mem_iff_getElem?.1 (hlisted.selected e he)
    refine ⟨i, e.reset, hi, rfl, hsame e, hlines i _ hi, fun j line hj => ⟨fun hmark => ?_, ?_⟩⟩
    · -- another exercise would have the same normalized name
      obtain ⟨e', s, he', hs, hname⟩ := hmarked j line hj hmark
      cases he.symm.trans hs
      exact hlisted.loaded.wellFormed.index_eq he' hi hname.symm
    · rintro rfl
      rw [hlines j _ hi] at hj
      cases hj
      exact Action.isMarked_listLine_iff.2 ⟨e, he, rfl⟩

theorem selection_is_listed_playingDrills : ∃ ctx e text,
    Library.load [] = .ok idle.library ∧ idle.selected = none ∧
    idle.handleAll playingDrills = .ok ctx ∧ ctx.selected = some e ∧
    (∃ e' ∈ ctx.library.exercises, e'.SameUpToCursors e) ∧
    ctx.execute drills "list" = .ok (.message text, ctx) ∧
    ∃ i : ℕ, ∀ (j : ℕ) line, (Text.lines text.toList)[j]? = some line →
      (IsMarked ctx line ↔ j = i) := by
  obtain ⟨ctx, hrun, hsome, -⟩ := exists_handleAll_playingDrills
  obtain ⟨e, he⟩ := Option.isSome_iff_exists.1 hsome
  have hempty : Library.load [] = .ok idle.library := rfl
  obtain ⟨hlisted, text, htext, -, hmarked⟩ :=
    selection_is_listed hempty rfl (Run.start.handleAll hrun) drills
  obtain ⟨e', he', -, hsame⟩ := hlisted e he
  obtain ⟨i, -, -, -, -, -, hunique⟩ := hmarked e he
  exact ⟨ctx, e, text, hempty, rfl, hrun, he, ⟨e', he', hsame⟩, htext, i, hunique⟩

end Context
end DrumPractice
