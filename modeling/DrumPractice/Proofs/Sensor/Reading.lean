import DrumPractice.Proofs.Hit.Lines
import DrumPractice.Sensor

/-!
# Reading the sensor

A sensor queues one hit for each line that reports one, in the order of the lines, and nothing else;
it is ready if a line was the ready message (`Hears`). `takeLine_eq` says what one line does,
`ofText_eq` what a whole text does.

What a `Reader` has queued and what is still unread are together what the text reports, after every
turn (`Reader.Keeps`).
-/

namespace DrumPractice

variable {τ σ : Type} {message line text before after : List Char} {time : τ} {again : σ}

/-- What a hit says, but for its time. -/
def Hit.report (hit : Hit τ) : ℤ × Single := (hit.channel, hit.amplitude)

theorem Hit.ofLine_trim (line : List Char) (time : τ) :
    ofLine (Text.trim line) time = ofLine line time := by
  simp only [ofLine, Text.trim_trim]

/-- The time has no part in what is read. -/
theorem Hit.mem_report_ofLine {x : ℤ × Single} (again : σ)
    (h : (ofLine line time).toOption.map report = some x) :
    (ofLine line again).toOption.map report = some x := by
  obtain ⟨hit, hread, rfl⟩ := Option.map_eq_some_iff.1 h
  cases hline : ofLine line time with
  | error e => simp [hline, Except.toOption] at hread
  | ok hit' =>
    rw [hline] at hread
    cases hread
    obtain ⟨body, channel, amplitude, hbody, hsplit, hchannel, hamplitude, -⟩ :=
      ofLine_eq_ok_iff.1 hline
    have hagain : ofLine line again = .ok ⟨hit.channel, hit.amplitude, again⟩ :=
      ofLine_eq_ok_iff.2 ⟨body, channel, amplitude, hbody, hsplit, hchannel, hamplitude, rfl⟩
    rw [hagain]
    rfl

namespace Sensor

/-- Is the line the ready message? -/
def announces (message line : List Char) : Bool :=
  decide (Text.trim line ≠ [] ∧ Text.trim line = Text.trim message)

/-- The hit that a line reports at a time, unless it is the ready message. -/
def hit? (message : List Char) (time : τ) (line : List Char) : Option (Hit τ) :=
  if Text.trim line = [] ∨ Text.trim line = Text.trim message then none
  else (Hit.ofLine line time).toOption

/-- What a line reports. -/
def report? (message line : List Char) : Option (ℤ × Single) :=
  (hit? message () line).map Hit.report

theorem map_report_hit? (message line : List Char) (time : τ) :
    (hit? message time line).map Hit.report = report? message line := by
  rw [report?, hit?, hit?]
  split
  · rfl
  · exact Option.ext fun x => ⟨Hit.mem_report_ofLine (), Hit.mem_report_ofLine time⟩

theorem report?_nil (message : List Char) : report? message [] = none := by
  rw [report?, hit?, if_pos (.inl rfl), Option.map_none]

/-- What one line does to a sensor. -/
theorem takeLine_eq (message line : List Char) (time : τ) (sensor : Sensor τ) :
    takeLine (Text.trim message) time sensor (Text.trim line)
      = { sensor with
          ready := sensor.ready || announces message line
          queue := sensor.queue ++ (hit? message time line).toList } := by
  rw [takeLine, announces, hit?]
  by_cases hblank : Text.trim line = []
  · simp [hblank]
  · by_cases hready : Text.trim line = Text.trim message
    · simp [hready, hready ▸ hblank]
    · simp only [hblank, hready, Hit.ofLine_trim]
      cases hread : Hit.ofLine line time with
      | error e => simp [Except.toOption]
      | ok hit =>
        have hstart : Hit.isHitLine (Text.trim line) = true :=
          Hit.isHitLine_of_ofLine (by rw [Hit.ofLine_trim, hread])
        simp [hstart, Except.toOption]

/-- What some lines do to a sensor. -/
theorem foldl_takeLine (message : List Char) (time : τ) (lines : List (List Char))
    (sensor : Sensor τ) :
    (lines.map Text.trim).foldl (takeLine (Text.trim message) time) sensor
      = { sensor with
          ready := sensor.ready || lines.any (announces message)
          queue := sensor.queue ++ lines.filterMap (hit? message time) } := by
  induction lines generalizing sensor with
  | nil => simp
  | cons line lines ih =>
    rw [List.map_cons, List.foldl_cons, takeLine_eq, ih]
    cases hhit : hit? message time line <;> simp [hhit, Bool.or_assoc]

/-- What a text does to a sensor. -/
theorem ofText_eq (source : String) (message text : List Char) (time : τ) :
    ofText source message text time = ⟨source, (Text.lines text).any (announces message),
      (Text.lines text).filterMap (hit? message time)⟩ := by
  rw [ofText, foldl_takeLine]
  simp

/-- What a text reports. -/
def reports (message text : List Char) : List (ℤ × Single) :=
  (Text.lines text).filterMap (report? message)

/-- Is a line of the text the ready message? -/
def announced (message text : List Char) : Bool := (Text.lines text).any (announces message)

/-- The sensor has queued what each line of the text reports, in order and nothing else, and is
ready if a line was the ready message. -/
structure Hears (message text : List Char) (sensor : Sensor τ) : Prop where
  queue : sensor.queue.map Hit.report = (Text.lines text).filterMap (report? message)
  ready : sensor.ready = true ↔ ∃ line ∈ Text.lines text,
    Text.trim line ≠ [] ∧ Text.trim line = Text.trim message

theorem announced_iff : announced message text = true ↔
    ∃ line ∈ Text.lines text, Text.trim line ≠ [] ∧ Text.trim line = Text.trim message := by
  simp only [announced, announces, List.any_eq_true, decide_eq_true_eq]

theorem hears_iff {sensor : Sensor τ} : Hears message text sensor ↔
    sensor.queue.map Hit.report = reports message text ∧
      sensor.ready = announced message text :=
  ⟨fun h => ⟨h.queue, Bool.eq_iff_iff.2 (h.ready.trans announced_iff.symm)⟩,
    fun h => ⟨h.1, (Bool.eq_iff_iff.1 h.2).trans announced_iff⟩⟩

theorem hears_ofText (source : String) (message text : List Char) (time : τ) :
    Hears message text (ofText source message text time) := by
  rw [hears_iff, ofText_eq]
  refine ⟨?_, rfl⟩
  rw [List.map_filterMap, reports]
  exact congrArg (fun f => (Text.lines text).filterMap f)
    (funext fun line => map_report_hit? message line time)

/-! ### Texts in parts -/

theorem lines_append_cons (before after : List Char) :
    Text.lines (before ++ '\n' :: after) = Text.lines before ++ Text.lines after := by
  rw [Text.lines, Text.lines, Text.lines, Text.pieces_eq_splitOnP, Text.pieces_eq_splitOnP,
    Text.pieces_eq_splitOnP, List.splitOnP_append_cons _ _ (by simp)]

theorem lines_of_notMem (h : '\n' ∉ text) : Text.lines text = [text] := by
  rw [Text.lines, Text.pieces_eq_splitOnP, List.splitOnP_eq_singleton]
  intro c hc
  exact decide_eq_false fun heq => h (heq ▸ hc)

@[simp] theorem reports_nil (message : List Char) : reports message [] = [] := by
  rw [reports, lines_of_notMem (by simp), List.filterMap_cons_none (report?_nil message),
    List.filterMap_nil]

@[simp] theorem announced_nil (message : List Char) : announced message [] = false := rfl

/-- Behind a line feed, a text is read as if it began there. -/
theorem reports_append_cons (message before after : List Char) :
    reports message (before ++ '\n' :: after)
      = reports message before ++ reports message after := by
  rw [reports, lines_append_cons, List.filterMap_append, reports, reports]

theorem announced_append_cons (message before after : List Char) :
    announced message (before ++ '\n' :: after)
      = (announced message before || announced message after) := by
  rw [announced, lines_append_cons, List.any_append, announced, announced]

/-- After a text that ends with a line, another one is heard as if it stood alone. -/
theorem Hears.append {first second : List Char} {s₁ s₂ s : Sensor τ}
    (hend : first.getLast? = some '\n') (h₁ : Hears message first s₁)
    (h₂ : Hears message second s₂) (h : Hears message (first ++ second) s) :
    s.queue.map Hit.report = s₁.queue.map Hit.report ++ s₂.queue.map Hit.report ∧
      s.ready = (s₁.ready || s₂.ready) := by
  obtain ⟨before, rfl⟩ := List.getLast?_eq_some_iff.1 hend
  rw [List.append_assoc, List.singleton_append] at h
  rw [hears_iff] at h₁ h₂ h
  rw [h.1, h.2, h₁.1, h₁.2, h₂.1, h₂.2]
  rw [reports_append_cons, reports_append_cons, announced_append_cons, announced_append_cons]
  simp

/-! ### The loop -/

theorem notMem_cut (text : List Char) : '\n' ∉ (cut text).1 := by
  intro h
  have hne := List.mem_takeWhile_imp h
  simp at hne

theorem cut_cases (text : List Char) :
    text = (cut text).1 ++ '\n' :: (cut text).2 ∨ text = (cut text).1 ∧ (cut text).2 = [] := by
  have htext := (List.takeWhile_append_dropWhile (p := (· ≠ '\n')) (l := text)).symm
  cases hrest : text.dropWhile (· ≠ '\n') with
  | nil =>
    rw [hrest, List.append_nil] at htext
    exact .inr ⟨htext, by rw [cut, hrest, List.drop_nil]⟩
  | cons c rest =>
    obtain rfl : c = '\n' := by
      have hhead := List.head?_dropWhile_not (· ≠ '\n') text
      rw [hrest] at hhead
      simpa using hhead
    rw [hrest] at htext
    exact .inl (by rw [cut, hrest]; exact htext)

theorem length_cut_lt (hne : text ≠ []) : (cut text).2.length < text.length := by
  have hpos := List.length_pos_of_ne_nil hne
  have hle := List.length_dropWhile_le (· ≠ '\n') text
  rw [cut, List.length_drop]
  omega

/-- A text reports what its first line reports, and then what stands behind it does. -/
theorem reports_cut (message text : List Char) :
    reports message text
      = (report? message (cut text).1).toList ++ reports message (cut text).2 := by
  have hline : reports message (cut text).1 = (report? message (cut text).1).toList := by
    rw [reports, lines_of_notMem (notMem_cut text), List.filterMap_eq_flatMap_toList,
      List.flatMap_singleton]
  rcases cut_cases text with htext | ⟨htext, hrest⟩
  · rw [← hline, ← reports_append_cons, ← htext]
  · rw [hrest, reports_nil, List.append_nil, ← hline, ← htext]

theorem announced_cut (message text : List Char) :
    announced message text
      = (announces message (cut text).1 || announced message (cut text).2) := by
  have hline : announced message (cut text).1 = announces message (cut text).1 := by
    rw [announced, lines_of_notMem (notMem_cut text), List.any_cons, List.any_nil, Bool.or_false]
  rcases cut_cases text with htext | ⟨htext, hrest⟩
  · rw [← hline, ← announced_append_cons, ← htext]
  · rw [hrest, announced_nil, Bool.or_false, ← hline, ← htext]

namespace Reader

variable {reader : Reader τ}

/-- What has been queued and what is unread are together what the text reports. -/
structure Keeps (message text : List Char) (reader : Reader τ) : Prop where
  queue : reader.sensor.queue.map Hit.report ++ reports message reader.unread = reports message text
  ready : (reader.sensor.ready || announced message reader.unread) = announced message text

theorem keeps_opened (source : String) (message text : List Char) :
    Keeps message text (opened source text : Reader τ) := ⟨rfl, rfl⟩

/-- Nothing is lost or invented in a turn. -/
theorem Keeps.step (h : Keeps message text reader) (event : ReaderEvent τ) :
    Keeps message text (reader.step message event) := by
  cases event with
  | disconnect => exact ⟨h.queue, h.ready⟩
  | turn time =>
    unfold Reader.step
    dsimp only
    split
    · exact h
    · split
      · exact ⟨h.queue, h.ready⟩
      · have hqueue := h.queue
        have hready := h.ready
        rw [reports_cut, ← map_report_hit? message _ time] at hqueue
        rw [announced_cut] at hready
        constructor
        all_goals rw [takeLine_eq]
        · rw [← hqueue, List.map_append, List.append_assoc, Option.toList_map]
        · rw [← hready, Bool.or_assoc]

/-- Nor in a run, wherever it ends. -/
theorem Keeps.run (h : Keeps message text reader) (events : List (ReaderEvent τ)) :
    Keeps message text (reader.run message events) := by
  induction events generalizing reader with
  | nil => exact h
  | cons event events ih => exact ih (h.step event)

/-- When all has been read, the sensor has heard the text. -/
theorem Keeps.hears (h : Keeps message text reader) (hread : reader.unread = []) :
    Hears message text reader.sensor := by
  have hqueue := h.queue
  have hready := h.ready
  rw [hread, reports_nil, List.append_nil] at hqueue
  rw [hread, announced_nil, Bool.or_false] at hready
  exact hears_iff.2 ⟨hqueue, hready⟩

theorem run_of_stopped (hstop : reader.running = false) (times : List τ) :
    reader.run message (times.map .turn) = reader := by
  induction times with
  | nil => rfl
  | cons time times ih =>
    have hstep : reader.step message (.turn time) = reader := by
      rw [step, if_pos hstop]
    rw [List.map_cons, run, List.foldl_cons, hstep]
    exact ih

/-- A reader that nobody stops comes to the end of the text. -/
theorem run_turns {times : List τ} (hlong : reader.unread.length < times.length)
    (hrun : reader.running = true) :
    (reader.run message (times.map .turn)).unread = [] ∧
      (reader.run message (times.map .turn)).running = false := by
  induction times generalizing reader with
  | nil => exact absurd hlong (Nat.not_lt_zero _)
  | cons time times ih =>
    by_cases hend : reader.unread = []
    · have hstep : reader.step message (.turn time) = { reader with running := false } := by
        simp [step, hrun, hend]
      have hstopped : run message { reader with running := false } (times.map .turn)
          = { reader with running := false } := run_of_stopped rfl times
      rw [List.map_cons, run, List.foldl_cons, hstep]
      rw [run] at hstopped
      rw [hstopped]
      exact ⟨hend, rfl⟩
    · have hstep : (reader.step message (.turn time)).unread = (cut reader.unread).2 := by
        simp [step, hrun, hend]
      have hlength := length_cut_lt hend
      rw [List.length_cons] at hlong
      exact ih (by rw [hstep]; omega) (by simp [step, hrun, hend])

end Reader

/-- A sensor loses and invents no hits. After a text it has queued one hit for each line that
reports one, in order, and is ready if a line was the ready message. So it is, too, once the loop
has read the whole text, whenever its turns come, and unless it is told to stop it does. What
follows a text that ends with a line is heard as if it stood alone. -/
theorem hears_every_line :
    (∀ (source : String) (message text : List Char) (time : τ),
      Hears message text (ofText source message text time)) ∧
    (∀ (source : String) (message text : List Char) (events : List (ReaderEvent τ)),
      ((Reader.opened source text).run message events).unread = [] →
      Hears message text ((Reader.opened source text).run message events).sensor) ∧
    (∀ (source : String) (message text : List Char) (times : List τ), text.length < times.length →
      ((Reader.opened source text).run message (times.map .turn)).unread = []) ∧
    ∀ (message first second : List Char) (s₁ s₂ s : Sensor τ), first.getLast? = some '\n' →
      Hears message first s₁ → Hears message second s₂ → Hears message (first ++ second) s →
      s.queue.map Hit.report = s₁.queue.map Hit.report ++ s₂.queue.map Hit.report ∧
        s.ready = (s₁.ready || s₂.ready) := by
  refine ⟨hears_ofText, fun source message text events hread => ?_,
    fun source message text times hlong => ?_, fun message first second s₁ s₂ s => Hears.append⟩
  · exact ((Reader.keeps_opened source message text).run events).hears hread
  · exact (Reader.run_turns hlong rfl).1

/-- A text with a blank line, an unknown one, malformed ones and the ready message, then a second
text with a last line that does not end. -/
theorem hears_every_line_malformed : ∃ (first second : List Char) (reader : Reader ℕ),
    first = "booting\n h0a812\r\n\nh1\n ready \n".toList ∧
    second = "hxa5\nh1aloud\nh3a99.5".toList ∧
    reader = (Reader.opened "test" (first ++ second)).run "ready".toList
      ((List.replicate 60 7).map .turn) ∧
    reader.unread = [] ∧ reader.sensor.ready = true ∧
    reader.sensor.queue.map Hit.report
      = [(0, .finite false (812 * 2 ^ 149)), (3, .finite false (199 * 2 ^ 148))] := by
  obtain ⟨htext, hrun, hend, happend⟩ := @hears_every_line ℕ
  refine ⟨_, _, _, rfl, rfl, rfl, ?_⟩
  have hread := hend "test" "ready".toList
    ("booting\n h0a812\r\n\nh1\n ready \n".toList ++ "hxa5\nh1aloud\nh3a99.5".toList)
    (List.replicate 60 7) (by decide +kernel)
  have hhears := hrun _ _ _ _ hread
  obtain ⟨hqueue, hready⟩ := happend _ _ _ _ _ _ (by decide +kernel)
    (htext "first" _ _ 7) (htext "second" _ _ 8) hhears
  refine ⟨hread, ?_, ?_⟩
  · rw [hready]
    decide +kernel
  · rw [hqueue]
    decide +kernel

end Sensor

end DrumPractice
