import DrumPractice.Proofs.Binary.Comparison
import DrumPractice.Proofs.Session.Schedule

/-!
# Quiet hits are not heard

During practice a session is sent ticks, new tempos and the lines of the sensor. `hearAll` reads the
lines, makes the calls and keeps a log of the messages and the replies.

* `hear_of_isQuiet`: a line that reports a hit below the threshold changes nothing;
* `hearAll_without`: so any of these lines may be left out, and nothing else is different;
* `hears_loud_hits`: if every amplitude is a number, only hits at or above the threshold count;
* `hears_hit_without_amplitude`: the sensor may also report a hit of which the amplitude is not a
  number. It is not below the threshold, and it counts.
-/

namespace DrumPractice

namespace Session

/-- A message to a session during practice. -/
inductive Message (α : Type)
  | tick (tick : Tick α)
  | setBpm (bpm : Single)
  | line (text : List Char) (time : α)

namespace Message

variable {α : Type}

/-- The call that a message makes. A line makes one if it can be read. -/
def call? : Message α → Except Error (Call α)
  | .tick t => .ok (.tick t)
  | .setBpm bpm => .ok (.setBpm bpm)
  | .line text time => (Hit.ofLine text time).map .hit

/-- The amplitude of the hit that a message reports. -/
def amplitude? : Message α → Option Single
  | .tick _ | .setBpm _ => none
  | .line text time => (Hit.ofLine text time).toOption.map (·.amplitude)

/-- The amplitude that a message reports, if it does, is a number. -/
def isNumeric (message : Message α) : Bool :=
  message.amplitude?.all fun amplitude => !amplitude.isNaN

/-- The message reports a hit below the threshold. -/
def isQuiet (threshold : Single) (message : Message α) : Bool :=
  message.amplitude?.any fun amplitude => amplitude.lt threshold

/-- The message reports a hit that is not at or above the threshold. -/
def fallsShort (threshold : Single) (message : Message α) : Bool :=
  message.amplitude?.any fun amplitude => !threshold.le amplitude

theorem exists_of_amplitude? {message : Message α} {amplitude : Single}
    (h : message.amplitude? = some amplitude) :
    ∃ hit, message.call? = .ok (.hit hit) ∧ hit.amplitude = amplitude := by
  cases message with
  | tick tick => cases h
  | setBpm bpm => cases h
  | line text time =>
    obtain ⟨hit, hhit, rfl⟩ := map_toOption_eq_some.1 h
    refine ⟨hit, ?_, rfl⟩
    rw [call?, hhit]
    rfl

/-- Among numbers, what falls short is below. -/
theorem fallsShort_eq_isQuiet {threshold : Single} {message : Message α}
    (hthreshold : threshold.isNaN = false) (hnumeric : message.isNumeric = true) :
    message.fallsShort threshold = message.isQuiet threshold := by
  unfold isNumeric at hnumeric
  unfold fallsShort isQuiet
  cases hamplitude : message.amplitude? with
  | none => rfl
  | some amplitude =>
    have hnumber : amplitude.isNaN = false := by simpa [hamplitude] using hnumeric
    exact (Binary.lt_eq_not_le hnumber hthreshold).symm

end Message

variable {α : Type} [Scalar α]

/-- A message and what came of it: a reply, or the error of a line that cannot be read. -/
abbrev Entry (α : Type) := Message α × Except Error (Reply α)

/-- Takes a message. -/
def hear (s : Session α) (message : Message α) : Checked (Except Error (Reply α) × Session α) :=
  match message.call? with
  | .error e => pure (.error e, s)
  | .ok c => do
    let (reply, s) ← s.call c
    pure (.ok reply, s)

/-- Takes some messages, one after another. -/
def hearAll (s : Session α) : List (Message α) → Checked (List (Entry α) × Session α)
  | [] => pure ([], s)
  | message :: messages => do
    let (answer, s) ← s.hear message
    let (log, s) ← s.hearAll messages
    pure ((message, answer) :: log, s)

/-- A log without the messages of a kind. -/
def without (kind : Message α → Bool) (log : List (Entry α)) : List (Entry α) :=
  log.filter fun entry => !kind entry.1

variable {s next : Session α} {message : Message α} {messages : List (Message α)}

/-! ### One message -/

theorem threshold_of_call {c : Call α} {reply : Reply α} (h : s.call c = .ok (reply, next)) :
    next.threshold = s.threshold := by
  cases c with
  | tick tick =>
    obtain ⟨event, -, htick⟩ := call_tick_eq_ok h
    rcases onTick_cases htick with ⟨-, -, rfl⟩ | ⟨-, -, -, rfl⟩ |
      ⟨-, -, frame, exercise, score, -, -, rfl⟩ | ⟨-, -, exercise, score, -, -, rfl⟩ <;> rfl
  | hit hit =>
    obtain ⟨judgement, -, hhit⟩ := call_hit_eq_ok h
    rcases onHit_cases hhit with ⟨-, -, rfl⟩ |
      ⟨v, position, board, judgement, after, score, -, -, -, -, rfl⟩
    · rfl
    · rfl
  | setBpm bpm =>
    cases h
    rfl

/-- The threshold stays as it is. -/
theorem threshold_of_hear {answer : Except Error (Reply α)}
    (h : s.hear message = .ok (answer, next)) : next.threshold = s.threshold := by
  unfold hear at h
  cases hcall : message.call? with
  | error e =>
    rw [hcall] at h
    cases h
    rfl
  | ok c =>
    rw [hcall] at h
    obtain ⟨⟨reply, after⟩, hreply, hpure⟩ := bind_eq_ok.1 h
    cases hpure
    exact threshold_of_call hreply

/-- A hit below the threshold is judged nowhere. -/
theorem onHit_of_lt {hit : Hit α} (h : hit.amplitude.lt s.threshold = true) :
    s.onHit hit = .ok (none, s) :=
  onHit_of_none (if_pos h)

theorem hear_of_isQuiet (h : message.isQuiet s.threshold = true) :
    s.hear message = .ok (.ok (.judgement none), s) := by
  obtain ⟨amplitude, hamplitude, hlt⟩ := (Option.any_eq_true _ _).1 h
  obtain ⟨hit, hcall, rfl⟩ := Message.exists_of_amplitude? hamplitude
  rw [hear, hcall]
  dsimp only
  rw [call, onHit_of_lt hlt]
  rfl

/-- A hit of which the amplitude is not a number counts as one that is just loud enough. -/
theorem onHit_of_isNaN {hit : Hit α} (h : hit.amplitude.isNaN = true) :
    s.onHit hit = s.onHit { hit with amplitude := s.threshold } := by
  have htarget : s.target? hit = s.target? { hit with amplitude := s.threshold } := by
    unfold target?
    rw [Binary.lt_of_isNaN h, Binary.lt_irrefl]
    rfl
  unfold onHit
  rw [htarget]

/-! ### Runs -/

theorem hearAll_cons {answer : Except Error (Reply α)} (h : s.hear message = .ok (answer, next)) :
    s.hearAll (message :: messages)
      = (next.hearAll messages).map fun (log, last) => ((message, answer) :: log, last) := by
  rw [hearAll, h]
  show (next.hearAll messages >>= fun (log, last) => pure ((message, answer) :: log, last)) = _
  cases next.hearAll messages with
  | error fault => rfl
  | ok run => rfl

/-- Messages that report hits below the threshold can be left out. -/
theorem hearAll_without {kind : Message α → Bool}
    (h : ∀ message ∈ messages, kind message = true → message.isQuiet s.threshold = true) :
    ((s.hearAll messages).map fun (log, last) => (without kind log, last))
      = s.hearAll (messages.filter fun message => !kind message) := by
  induction messages generalizing s with
  | nil => rfl
  | cons message messages ih =>
    rw [List.forall_mem_cons] at h
    cases hkind : kind message with
    | true =>
      rw [List.filter_cons_of_neg (by simp [hkind]), ← ih h.2,
        hearAll_cons (hear_of_isQuiet (h.1 hkind))]
      cases s.hearAll messages with
      | error fault => rfl
      | ok run => simp [Except.map, without, hkind]
    | false =>
      rw [List.filter_cons_of_pos (by simp [hkind])]
      cases hhear : s.hear message with
      | error fault =>
        rw [hearAll, hearAll, hhear]
        rfl
      | ok answer =>
        obtain ⟨answer, next⟩ := answer
        have hlater := ih (s := next) (by rw [threshold_of_hear hhear]; exact h.2)
        rw [hearAll_cons hhear, hearAll_cons hhear, ← hlater]
        cases next.hearAll messages with
        | error fault => rfl
        | ok run => simp [Except.map, without, hkind]

/-- **Which hits are heard.** Let a session be sent ticks, new tempos and lines of the sensor. If
the lines that report a hit below the threshold are left out, all other messages are answered as
before, and the session ends up the same, with the same score. If the threshold and all amplitudes
are numbers, these are all the lines with a hit that is not at or above the threshold. A hit of
which the amplitude is not a number counts as one that is just loud enough. -/
theorem hears_loud_hits (s : Session α) (messages : List (Message α)) :
    ((s.hearAll messages).map fun (log, last) => (without (Message.isQuiet s.threshold) log, last))
      = s.hearAll (messages.filter fun message => !message.isQuiet s.threshold) ∧
    (s.threshold.isNaN = false →
      (∀ message ∈ messages, message.isNumeric = true) →
      ((s.hearAll messages).map fun (log, last) =>
          (without (Message.fallsShort s.threshold) log, last))
        = s.hearAll (messages.filter fun message => !message.fallsShort s.threshold)) ∧
    ∀ hit : Hit α, hit.amplitude.isNaN = true →
      s.onHit hit = s.onHit { hit with amplitude := s.threshold } := by
  refine ⟨hearAll_without fun _ _ hquiet => hquiet, fun hthreshold hnumeric => ?_,
    fun hit => onHit_of_isNaN⟩
  refine hearAll_without fun message hmem hshort => ?_
  rwa [← Message.fallsShort_eq_isQuiet hthreshold (hnumeric message hmem)]

/-- The downbeat of a bar, then a soft hit and a loud one on its second beat. -/
def softAndLoud : List (Message ℚ) :=
  [.tick ⟨0, 0, 0, 100⟩, .line "h0a100".toList 101, .line " h0a7e2 ".toList 101]

theorem hears_loud_hits_softAndLoud :
    let s := start offbeat {}
    s.threshold.isNaN = false ∧ (∀ message ∈ softAndLoud, message.isNumeric = true) ∧
    (((s.hearAll softAndLoud).map fun (log, last) =>
        (without (Message.fallsShort s.threshold) log, last))
      = s.hearAll (softAndLoud.filter fun message => !message.fallsShort s.threshold)) ∧
    (⟨0, .nan false, 101⟩ : Hit ℚ).amplitude.isNaN = true ∧
    s.onHit ⟨0, .nan false, 101⟩ = s.onHit ⟨0, s.threshold, 101⟩ := by
  intro s
  have hthreshold : s.threshold.isNaN = false := by decide +kernel
  have hnumeric : ∀ message ∈ softAndLoud, message.isNumeric = true := by decide +kernel
  obtain ⟨-, hloud, hnan⟩ := hears_loud_hits s softAndLoud
  exact ⟨hthreshold, hnumeric, hloud hthreshold hnumeric, rfl, hnan ⟨0, .nan false, 101⟩ rfl⟩

/-- The downbeat of a bar, and a hit on its second beat without an amplitude. -/
def noAmplitude : List (Message ℚ) := [.tick ⟨0, 0, 0, 100⟩, .line "h0anan".toList 101]

/-- A hit whose amplitude is not a number is not at or above the threshold, but it is judged, and
without it the score is another. -/
theorem hears_hit_without_amplitude :
    let s := start offbeat {}
    s.threshold.isNaN = false ∧
    ((s.hearAll noAmplitude).map fun (log, last) =>
        (without (Message.fallsShort s.threshold) log, last))
      ≠ s.hearAll (noAmplitude.filter fun message => !message.fallsShort s.threshold) := by
  intro s
  refine ⟨by decide +kernel, fun h => ?_⟩
  have hwith : ((s.hearAll noAmplitude).map fun run => run.2.score.score) = .ok 1 := by
    decide +kernel
  have hwithout : ((s.hearAll (noAmplitude.filter fun message =>
      !message.fallsShort s.threshold)).map fun run => run.2.score.score) = .ok 0 := by
    decide +kernel
  rw [← h] at hwithout
  cases hrun : s.hearAll noAmplitude with
  | error fault =>
    rw [hrun] at hwith
    cases hwith
  | ok run =>
    rw [hrun] at hwith hwithout
    exact absurd ((Except.ok.inj hwith).symm.trans (Except.ok.inj hwithout)) (by decide)

end Session
end DrumPractice
