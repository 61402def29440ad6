import FrameFeed.Proofs.Outcome
/-!
# Sessions with a writer

A session is any steps with one writer: frames sent through it, frames sent past it to the same
sink, flushes, and changes made to the sink from outside. `moments` lists the steps of a run, each
with the writer before it and with what came of it. The count follows one kind of step and one
result of it (`Moment.counted`); the bytes held grow at each frame sent by the beginning of its
message, however it was sent.

Main statements: `framesWritten_of_moments`, what the count counts, `extends_of_outcome`, what
sending a frame adds to a store, and `lawful_of_run`, what holds after every step of a session.
-/

namespace FrameFeed

open Wire

variable {σ β : Type}

namespace Writer

/-! ## The steps of a run -/

/-- One step of a session: the writer before it, the step and what came of it. -/
structure Moment (σ : Type) where
  before : Writer σ
  step : Step σ
  after : Stepped σ

/-- The steps of a run that starts from a writer, each with the writer before it. -/
def moments (w : Writer σ) : List (Step σ) → List (Stepped σ) → List (Moment σ)
  | step :: steps, o :: os => ⟨w, step, o⟩ :: moments o.writer steps os
  | _, _ => []

/-- The frame that a step sends, through the writer or past it. -/
def Step.frame? : Step σ → Option Frame
  | writeFrame f => some f
  | sendApart _ f => some f
  | flush => none
  | adjust _ => none

/-- Whether a step sent a frame through the writer and the frame arrived. -/
def Moment.counted (m : Moment σ) : Bool :=
  match m.step with
  | .writeFrame _ => m.after.result.isOk
  | _ => false

/-- A run of a step and more steps is what came of the step and a run of the others. -/
theorem exists_of_run_cons {offering : Offering} {sink : Sink σ} {w : Writer σ} {step : Step σ}
    {steps : List (Step σ)} {os : List (Stepped σ)}
    (h : w.run offering sink (step :: steps) = some os) :
    ∃ o rest, os = o :: rest ∧ w.step offering sink step = some o ∧
      o.writer.run offering sink steps = some rest := by
  obtain ⟨o, ho, h⟩ := Option.bind_eq_some_iff.mp h
  obtain ⟨rest, hrest, h⟩ := Option.bind_eq_some_iff.mp h
  exact ⟨o, rest, (Option.some.inj h).symm, ho, hrest⟩

/-- **The moments of a run are its steps, in order, with what came of each.** -/
theorem map_moments {offering : Offering} {sink : Sink σ} {w : Writer σ} {steps : List (Step σ)}
    {os : List (Stepped σ)} (h : w.run offering sink steps = some os) :
    (w.moments steps os).map Moment.step = steps ∧ (w.moments steps os).map Moment.after = os := by
  induction steps generalizing w os with
  | nil =>
    cases h
    exact ⟨rfl, rfl⟩
  | cons step steps ih =>
    obtain ⟨o, rest, rfl, -, hrest⟩ := exists_of_run_cons h
    obtain ⟨hsteps, hafter⟩ := ih hrest
    rw [moments, List.map_cons, List.map_cons, hsteps, hafter]
    exact ⟨rfl, rfl⟩

/-! ## One step -/

/-- No step changes the limit. -/
theorem limit_of_step {offering : Offering} {sink : Sink σ} {w : Writer σ} {step : Step σ}
    {o : Stepped σ} (h : w.step offering sink step = some o) : o.writer.limit = w.limit := by
  cases step with
  | writeFrame f => exact limit_of_writeFrame h
  | flush =>
    obtain ⟨sent, -, rfl⟩ := Option.map_eq_some_iff.mp h
    rfl
  | sendApart limit f =>
    obtain ⟨sent, -, rfl⟩ := Option.map_eq_some_iff.mp h
    rfl
  | adjust change =>
    cases h
    rfl

/-- **The count moves at a counted step, and by one.** -/
theorem framesWritten_of_step {offering : Offering} {sink : Sink σ} {w : Writer σ} {step : Step σ}
    {o : Stepped σ} (h : w.step offering sink step = some o) :
    o.writer.framesWritten = w.framesWritten + (Moment.counted ⟨w, step, o⟩).toNat := by
  cases step with
  | writeFrame f =>
    rw [framesWritten_writeFrame h, Moment.counted]
    cases o.result.isOk <;> rfl
  | flush =>
    obtain ⟨sent, -, rfl⟩ := Option.map_eq_some_iff.mp h
    rfl
  | sendApart limit f =>
    obtain ⟨sent, -, rfl⟩ := Option.map_eq_some_iff.mp h
    rfl
  | adjust change =>
    cases h
    rfl

/-! ## Every step -/

/-- **Each moment of a run is a step of its writer**, under the limit of the first. -/
theorem step_of_moments {offering : Offering} {sink : Sink σ} {w : Writer σ}
    {steps : List (Step σ)} {os : List (Stepped σ)} (h : w.run offering sink steps = some os)
    {m : Moment σ} (hm : m ∈ w.moments steps os) :
    m.before.limit = w.limit ∧ m.before.step offering sink m.step = some m.after := by
  induction steps generalizing w os with
  | nil => cases hm
  | cons step steps ih =>
    obtain ⟨o, rest, rfl, ho, hrest⟩ := exists_of_run_cons h
    rcases List.mem_cons.mp hm with rfl | hm
    · exact ⟨rfl, ho⟩
    · rw [← limit_of_step ho]
      exact ih hrest hm

/-- **The count after a step is what it was at first and the steps counted since.** -/
theorem framesWritten_of_moments {offering : Offering} {sink : Sink σ} {w : Writer σ}
    {steps : List (Step σ)} {os : List (Stepped σ)} (h : w.run offering sink steps = some os)
    {front back : List (Moment σ)} {m : Moment σ}
    (hm : w.moments steps os = front ++ m :: back) :
    m.after.writer.framesWritten =
      w.framesWritten + (front ++ [m]).countP Moment.counted := by
  induction steps generalizing w os front with
  | nil => simp [moments] at hm
  | cons step steps ih =>
    obtain ⟨o, rest, rfl, ho, hrest⟩ := exists_of_run_cons h
    have hcount := framesWritten_of_step ho
    rw [moments] at hm
    cases front with
    | nil =>
      obtain ⟨rfl, -⟩ := List.cons.inj hm
      rw [hcount, List.nil_append, List.countP_singleton]
      cases Moment.counted ⟨w, step, o⟩ <;> rfl
    | cons first front =>
      rw [List.cons_append] at hm
      obtain ⟨rfl, hlater⟩ := List.cons.inj hm
      rw [ih hrest hlater, hcount, List.cons_append, List.countP_cons, Nat.add_assoc,
        Nat.add_comm (Bool.toNat _)]
      cases Moment.counted ⟨w, step, o⟩ <;> rfl

end Writer

/-! ## What a store holds -/

/-- What sending a frame made of the bytes held: the first bytes of its message are behind those
that were there. -/
def Extends (f : Frame) (result : Except EncodeError Unit) (held held' : Array UInt8) : Prop :=
  ∃ k ≤ (message f).length, held'.toList = held.toList ++ (message f).take k ∧
    (k = (message f).length ↔ result = .ok () ∨ ∃ fault, result = .error (.sinkFlush fault)) ∧
    (∀ jpegSize max, result = .error (.frameTooLarge jpegSize max) → k = 0) ∧
    ∀ phase fault, result = .error (.sinkWrite phase fault) → k < (message f).length

/-- **A frame that was sent extends the bytes held**, as its result says. -/
theorem extends_of_outcome {b : Behaviour β} {limit : Nat} {f : Frame}
    {result : Except EncodeError Unit} {calls : List Call} {s s' : Store β}
    (h : Outcome limit f result calls) (ht : b.sink.Transcript s calls s') :
    Extends f result s.held s'.held := by
  obtain ⟨k, law⟩ := h.law
  obtain ⟨hle, htaken⟩ := law.taken_eq
  have hheld := ht.toList_held
  rw [htaken] at hheld
  have hpos : 0 < (message f).length := by rw [length_message]; omega
  cases h with
  | refused hfits =>
    -- no byte was offered, so none was taken
    have hzero : k = 0 := by
      have hnil := congrArg List.length htaken
      rw [List.length_take_of_le hle] at hnil
      exact hnil.symm
    exact ⟨k, hle, hheld, ⟨fun hall => by omega, by simp⟩, fun _ _ _ => hzero, by simp⟩
  | arrived hfits hall hlast =>
    have hk := (law.ok_iff.mp rfl).1
    exact ⟨k, hle, hheld, by simp [hk], by simp, by simp⟩
  | @unflushed calls answer fault hfits hall hlast hf =>
    have hk := ((law.sinkFlush_iff fault).mp rfl).1
    exact ⟨k, hle, hheld, by simp [hk], by simp, by simp⟩
  | cutOff hfits =>
    have hk := (law.sinkWrite_iff.mp ⟨_, _, rfl⟩).2
    exact ⟨k, hle, hheld, ⟨fun hall => by omega, by simp⟩, by simp, fun _ _ _ => hk⟩

/-- **Flushing adds no byte** and fails in no other way than by being unable to flush. -/
theorem held_of_flush {b : Behaviour β} {s : Store β} {sent : Sent (Store β)}
    (h : flush b.sink s = some sent) :
    sent.sink.held = s.held ∧
      (sent.result = .ok () ∨ ∃ fault, sent.result = .error (.sinkFlush fault)) := by
  obtain ⟨d, hd, rfl⟩ := Option.map_eq_some_iff.mp h
  have ha := accounts_of_deliverAll hd
  have htaken := List.prefix_nil.mp ha.taken_prefix_bytesOf
  refine ⟨?_, ?_⟩
  · apply Array.toList_inj.mp
    rw [(transcript_of_deliver hd).toList_held, htaken, List.append_nil]
  · rcases d with ⟨ending, s', calls⟩
    cases ending with
    | delivered => exact Or.inl rfl
    | unflushed fault => exact Or.inr ⟨fault, rfl⟩
    | cutOff left fault =>
      -- there was no piece that could have been left
      obtain ⟨⟨rest, hleft, -⟩, -⟩ := ha
      cases hleft

namespace Writer

/-- **A step that sends a frame extends the bytes held**, whether it counts or not. -/
theorem extends_of_step {b : Behaviour β} {offering : Offering} {w : Writer (Store β)}
    {step : Step (Store β)} {o : Stepped (Store β)} {f : Frame}
    (h : w.step offering b.sink step = some o) (hf : step.frame? = some f) :
    Extends f o.result w.sink.held o.writer.sink.held := by
  cases step with
  | writeFrame g =>
    obtain rfl := Option.some.inj hf
    obtain ⟨sent, hsent, rfl⟩ := Option.map_eq_some_iff.mp h
    exact extends_of_outcome (outcome_of_send hsent) (transcript_of_send hsent)
  | sendApart limit g =>
    obtain rfl := Option.some.inj hf
    obtain ⟨sent, hsent, rfl⟩ := Option.map_eq_some_iff.mp h
    exact extends_of_outcome (outcome_of_send hsent) (transcript_of_send hsent)
  | flush => cases hf
  | adjust change => cases hf

/-! ## Sessions -/

/-- What holds after a step of a session under a limit, given the moments before it. -/
structure Moment.Lawful (limit : Nat) (earlier : List (Moment (Store β)))
    (m : Moment (Store β)) : Prop where
  /-- The count is the number of frames sent through the writer so far that arrived. -/
  framesWritten_eq : m.after.writer.framesWritten = (earlier ++ [m]).countP Moment.counted
  /-- No other step and no other result moves it. -/
  framesWritten_of_not_counted : m.counted = false →
    m.after.writer.framesWritten = m.before.framesWritten
  /-- A frame that was sent, however it was sent, extends the bytes held. -/
  extends_of_frame : ∀ f, m.step.frame? = some f →
    Extends f m.after.result m.before.sink.held m.after.writer.sink.held
  /-- A flush leaves the bytes held and the count as they are. -/
  held_of_flush : m.step = .flush →
    m.after.writer.framesWritten = m.before.framesWritten ∧
      m.after.writer.sink.held = m.before.sink.held ∧
      (m.after.result = .ok () ∨ ∃ fault, m.after.result = .error (.sinkFlush fault))
  /-- A change to the sink is made as it was asked for. -/
  sink_of_adjust : ∀ change, m.step = .adjust change →
    m.after.writer.sink = change m.before.sink
  /-- The limit is the one that the writer was made with. -/
  limit_eq : m.after.writer.limit = limit

/-- **What holds after every step of a session**: the count is that of the frames sent through the
writer that arrived, whatever else was done; a frame sent through it or past it puts the beginning
of its message behind the bytes held, all of it exactly when it arrived or only flushing failed; a
flush adds nothing; and the limit stays. -/
theorem lawful_of_run {b : Behaviour β} {limit : Nat} {store : Store β}
    {steps : List (Step (Store β))} {os : List (Stepped (Store β))}
    (h : (new store limit).run .byPiece b.sink steps = some os) :
    (moments (new store limit) steps os).map Moment.step = steps ∧
      (moments (new store limit) steps os).map Moment.after = os ∧
      ∀ front m back, moments (new store limit) steps os = front ++ m :: back →
        m.Lawful limit front := by
  obtain ⟨hsteps, hafter⟩ := map_moments h
  refine ⟨hsteps, hafter, fun front m back hm => ?_⟩
  have hmem : m ∈ moments (new store limit) steps os := by rw [hm]; simp
  obtain ⟨hlimit, hstep⟩ := step_of_moments h hmem
  have hcount := framesWritten_of_moments h hm
  have hstill : m.counted = false → m.after.writer.framesWritten = m.before.framesWritten := by
    intro hnot
    rw [framesWritten_of_step hstep, hnot]
    rfl
  refine
    { framesWritten_eq := ?_
      framesWritten_of_not_counted := hstill
      extends_of_frame := fun f hf => extends_of_step hstep hf
      held_of_flush := ?_
      sink_of_adjust := ?_
      limit_eq := ?_ }
  · rw [hcount]
    exact Nat.zero_add _
  · intro hflush
    have hnot : m.counted = false := by rw [Moment.counted, hflush]
    rw [hflush] at hstep
    obtain ⟨sent, hsent, hafter⟩ := Option.map_eq_some_iff.mp hstep
    refine ⟨hstill hnot, ?_⟩
    rw [← hafter]
    exact FrameFeed.held_of_flush hsent
  · intro change hadjust
    rw [hadjust] at hstep
    rw [← Option.some.inj hstep]
  · rw [limit_of_step hstep, hlimit]
    rfl

/-- A session with every kind of step: a frame arrives, one is taken and not flushed, bytes are put
into the store from outside, a frame sent past the writer is cut off, the store is cleared and given
another script, a frame is too large for an encoder of its own, and one more arrives. -/
theorem lawful_of_run_mixed :
    ∃ steps os,
      steps = [.writeFrame ⟨[0x01], 0⟩, .writeFrame ⟨[0x02], 40⟩, .flush,
        .adjust (Store.push [0xFF]), .sendApart maxDocumentSize ⟨[], 80⟩, .adjust Store.clear,
        .adjust fun store => { store with behaviour := {} }, .sendApart 36 ⟨[0x01, 0x02, 0x03], 0⟩,
        .writeFrame ⟨[0x03], 120⟩] ∧
      (new ⟨#[], { flushes := [.done, .failed (.ofKind .timedOut)], limit := some 100 }⟩
        maxDocumentSize).run .byPiece Script.sink steps = some os ∧
      os.map (fun o => (o.result, o.writer.framesWritten)) =
        [(.ok (), 1), (.error (.sinkFlush (.ofKind .timedOut)), 1), (.ok (), 1), (.ok (), 1),
          (.error (.sinkWrite .fieldName (.ofKind .writeZero)), 1), (.ok (), 1), (.ok (), 1),
          (.error (.frameTooLarge 3 36), 1), (.ok (), 2)] ∧
      ∀ front m back,
        moments (new ⟨#[], { flushes := [.done, .failed (.ofKind .timedOut)], limit := some 100 }⟩
          maxDocumentSize) steps os = front ++ m :: back → m.Lawful maxDocumentSize front := by
  obtain ⟨os, hos, hresults⟩ := Option.map_eq_some_iff.mp
    (show ((new ⟨#[], { flushes := [.done, .failed (.ofKind .timedOut)], limit := some 100 }⟩
        maxDocumentSize).run .byPiece Script.sink
          [.writeFrame ⟨[0x01], 0⟩, .writeFrame ⟨[0x02], 40⟩, .flush, .adjust (Store.push [0xFF]),
            .sendApart maxDocumentSize ⟨[], 80⟩, .adjust Store.clear,
            .adjust fun store => { store with behaviour := {} },
            .sendApart 36 ⟨[0x01, 0x02, 0x03], 0⟩, .writeFrame ⟨[0x03], 120⟩]).map
          (List.map fun o => (o.result, o.writer.framesWritten)) =
      some [(.ok (), 1), (.error (.sinkFlush (.ofKind .timedOut)), 1), (.ok (), 1), (.ok (), 1),
        (.error (.sinkWrite .fieldName (.ofKind .writeZero)), 1), (.ok (), 1), (.ok (), 1),
        (.error (.frameTooLarge 3 36), 1), (.ok (), 2)] by rfl)
  exact ⟨_, os, rfl, hos, hresults, (lawful_of_run hos).2.2⟩

end Writer

end FrameFeed
