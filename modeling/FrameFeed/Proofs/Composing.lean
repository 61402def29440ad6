import FrameFeed.Composer
import FrameFeed.Proofs.Session
/-!
# Sessions with a composer

What a composer keeps in its buffer is never seen: before a message goes in, the buffer is cleared,
and what is offered is the message alone. So a composer does, step after step, what a writer does
that offers its messages whole (`forget_run`), and obeys the same laws. The phase of a cut is always
found, since a frame whose message was offered at all has a layout under any limit
(`exists_phaseAt?`).

Main statement: `Composer.composed_of_run`, what holds after every step of a session.
-/

namespace FrameFeed

open Wire

variable {σ : Type}

/-- **Every byte of a message has a phase**, under whatever limit its frame was admitted. -/
theorem Frame.exists_phaseAt? {limit : Nat} {f : Frame} {offset : Nat} (hfits : f.Fits limit)
    (h : offset < (message f).length) : ∃ phase, f.phaseAt? offset = some phase := by
  obtain ⟨l, hl⟩ := exists_layout_of_fits hfits
  obtain ⟨p, hp⟩ := @exists_pieceAt (pieces f) offset h
  refine ⟨p.phase, ?_⟩
  rw [phaseAt?, hl]
  show l.phaseAt offset = some p.phase
  rw [phaseAt_eq hl, hp]
  rfl

/-- A layout that knows the phase of a byte is the one that is asked. -/
theorem Frame.phaseAt?_of_ofSize {f : Frame} {l : Layout} {offset : Nat} {phase : Phase}
    (hl : Layout.ofSize f.jpegSize = .ok l) (h : l.phaseAt offset = some phase) :
    f.phaseAt? offset = some phase := by
  rw [phaseAt?, hl]
  exact h

/-- What a delivery leaves when it is cut off holds bytes. -/
theorem ne_nil_of_cutOff {sink : Sink σ} {ps : List Piece} {s : σ} {d : Delivered σ} {left : Piece}
    {fault : Fault} (h : deliverAll sink ps s = some d) (hend : d.ending = .cutOff left fault) :
    left.bytes ≠ [] := by
  have ha := accounts_of_deliverAll h
  rw [hend] at ha
  obtain ⟨⟨rest, hleft, -⟩, -⟩ := ha
  exact after_ne_nil (by simp) left (hleft ▸ List.mem_cons_self)

namespace Composer

/-! ## One frame -/

/-- A frame that fits is composed to its message and nothing else. -/
theorem compose_of_fits {c : Composer σ} {f : Frame} (h : f.Fits c.limit) :
    c.clear.compose f = (.ok (), { c with buffer := (message f).toArray }) := by
  have hbuffer : (#[] : Array UInt8) ++ message f = (message f).toArray :=
    Array.toList_inj.mp Array.toList_appendList
  simp only [compose, append, clear, documentLength_of_fits h, hbuffer]

/-- A frame that does not fit leaves the buffer empty. -/
theorem compose_of_not_fits {c : Composer σ} {f : Frame} (h : ¬ f.Fits c.limit) :
    c.clear.compose f =
      (.error (.frameTooLarge f.jpegSize (cap c.limit)), { c with buffer := #[] }) := by
  have hlarge : documentLength c.limit f.jpegSize =
      .error (.frameTooLarge f.jpegSize (cap c.limit)) :=
    documentLength_eq_error_iff.mpr ⟨rfl, Nat.lt_of_not_le h⟩
  simp only [compose, append, clear, hlarge]

/-- **The phase of a cut is found**, so it does not matter that a buffer has none of its own. -/
theorem phase_eq {limit : Nat} {f : Frame} {left : Piece} (hfits : f.Fits limit)
    (hleft : left.bytes ≠ []) :
    phase f (message f).toArray left = Offering.whole.phase f left := by
  have hplace : (message f).length - left.bytes.length < (message f).length := by
    have hpos := List.length_pos_iff.mpr hleft
    have hlen := length_message f
    omega
  obtain ⟨found, hfound⟩ := Frame.exists_phaseAt? hfits hplace
  rw [Composer.phase, List.size_toArray, hfound]
  show found = (f.phaseAt? _).getD left.phase
  rw [hfound]
  rfl

/-- **A composer sends a frame as a writer does that offers messages whole.** -/
theorem forget_writeFrame (sink : Sink σ) (c : Composer σ) (f : Frame) :
    (c.writeFrame sink f).map Stepped.forget = c.toWriter.writeFrame .whole sink f := by
  by_cases hfits : f.Fits c.limit
  · rw [writeFrame, compose_of_fits hfits, Writer.writeFrame, send, documentLength_of_fits hfits]
    show Option.map _ (Option.map _ (deliverAll sink (Offering.whole.pieces f) c.sink)) = _
    cases hd : deliverAll sink (Offering.whole.pieces f) c.sink with
    | none => rfl
    | some d =>
      have hresult : d.ending.result (phase f (message f).toArray) =
          d.ending.result (Offering.whole.phase f) := by
        cases hend : d.ending with
        | delivered => rfl
        | unflushed fault => rfl
        | cutOff left fault =>
          rw [Ending.result, Ending.result, phase_eq hfits (ne_nil_of_cutOff hd hend)]
      simp only [Option.map_some, Stepped.forget, hresult]
  · rw [writeFrame, compose_of_not_fits hfits, Writer.writeFrame,
      send_frameTooLarge (Nat.lt_of_not_le hfits)]
    rfl

/-- **A frame leaves nothing in the buffer but its own message**, and nothing at all where it does
not fit, whatever was in it before. -/
theorem buffer_of_writeFrame {sink : Sink σ} {c : Composer σ} {f : Frame} {o : Stepped σ}
    (h : c.writeFrame sink f = some o) :
    o.composer.buffer.toList = if f.Fits c.limit then message f else [] := by
  by_cases hfits : f.Fits c.limit
  · rw [writeFrame, compose_of_fits hfits] at h
    obtain ⟨d, -, rfl⟩ := Option.map_eq_some_iff.mp h
    rw [if_pos hfits]
  · rw [writeFrame, compose_of_not_fits hfits] at h
    obtain rfl := Option.some.inj h
    rw [if_neg hfits]

/-! ## Sessions -/

/-- And so it does every other step. -/
theorem forget_step (sink : Sink σ) (c : Composer σ) (step : Writer.Step σ) :
    (c.step sink step).map Stepped.forget = c.toWriter.step .whole sink step := by
  cases step with
  | writeFrame f => exact forget_writeFrame sink c f
  | flush => exact (Option.map_map ..).trans (Option.map_id' ..)
  | sendApart limit f => exact (Option.map_map ..).trans (Option.map_id' ..)
  | adjust change => rfl

/-- No step changes the limit. -/
theorem limit_of_step {sink : Sink σ} {c : Composer σ} {step : Writer.Step σ} {o : Stepped σ}
    (h : c.step sink step = some o) : o.composer.limit = c.limit := by
  have hforget := forget_step sink c step
  rw [h] at hforget
  exact Writer.limit_of_step hforget.symm

theorem run_cons_of_step {sink : Sink σ} {c : Composer σ} {step : Writer.Step σ}
    {steps : List (Writer.Step σ)} {o : Stepped σ} {os : List (Stepped σ)}
    (h : c.step sink step = some o) (hos : o.composer.run sink steps = some os) :
    c.run sink (step :: steps) = some (o :: os) := by
  simp only [run, h, Option.bind_eq_bind, Option.bind_some, hos]
  rfl

/-- A run of a step and more steps is what came of the step and a run of the others. -/
theorem exists_of_run_cons {sink : Sink σ} {c : Composer σ} {step : Writer.Step σ}
    {steps : List (Writer.Step σ)} {os : List (Stepped σ)}
    (h : c.run sink (step :: steps) = some os) :
    ∃ o rest, os = o :: rest ∧ c.step sink step = some o ∧
      o.composer.run sink steps = some rest := by
  obtain ⟨o, ho, h⟩ := Option.bind_eq_some_iff.mp h
  obtain ⟨rest, hrest, h⟩ := Option.bind_eq_some_iff.mp h
  exact ⟨o, rest, (Option.some.inj h).symm, ho, hrest⟩

/-- Whenever a frame was sent, the buffer then holds what that frame left in it. -/
theorem buffer_of_run {sink : Sink σ} {c : Composer σ} {steps : List (Writer.Step σ)}
    {os : List (Stepped σ)} (h : c.run sink steps = some os) {f : Frame} {o : Stepped σ}
    (hmem : (.writeFrame f, o) ∈ steps.zip os) :
    o.composer.buffer.toList = if f.Fits c.limit then message f else [] := by
  induction steps generalizing c os with
  | nil => cases hmem
  | cons step steps ih =>
    obtain ⟨o', rest, rfl, ho', hrest⟩ := exists_of_run_cons h
    rcases List.mem_cons.mp hmem with heq | hmem
    · obtain ⟨rfl, rfl⟩ := Prod.mk.inj heq
      exact buffer_of_writeFrame ho'
    · rw [← limit_of_step ho']
      exact ih hrest hmem

/-- **A session with a composer is one with a writer that offers messages whole**, whatever is in
the buffer at first. -/
theorem forget_run (sink : Sink σ) (c : Composer σ) (steps : List (Writer.Step σ)) :
    (c.run sink steps).map (List.map Stepped.forget) = c.toWriter.run .whole sink steps := by
  induction steps generalizing c with
  | nil => rfl
  | cons step steps ih =>
    rw [run, Writer.run, ← forget_step]
    cases c.step sink step with
    | none => rfl
    | some o =>
      simp only [Option.map_some, Option.bind_eq_bind, Option.bind_some, Stepped.forget, ← ih]
      cases o.composer.run sink steps <;> rfl

end Composer

/-! ## What holds after every step -/

/-- The calls of a send say how many bytes of the message were taken. -/
theorem Outcome.law_taken {limit : Nat} {f : Frame} {result : Except EncodeError Unit}
    {calls : List Call} (h : Outcome limit f result calls) :
    SendLaw limit f (taken calls).length result calls := by
  obtain ⟨k, law⟩ := h.law
  obtain ⟨hle, htaken⟩ := law.taken_eq
  have hk : (taken calls).length = k := by rw [htaken, List.length_take_of_le hle]
  rwa [hk]

/-- What holds after a step of a session under a limit, given the moments before it, where messages
are composed before they are offered. -/
structure Writer.Moment.Composed (sink : Sink σ) (limit : Nat) (earlier : List (Moment σ))
    (m : Moment σ) : Prop where
  /-- The count is the number of frames sent so far that arrived. -/
  framesWritten_eq : m.after.writer.framesWritten = (earlier ++ [m]).countP Moment.counted
  /-- The calls that a frame comes to are calls that the sink did answer. -/
  transcript : ∀ f, m.step = .writeFrame f →
    sink.Transcript m.before.sink m.after.calls m.after.writer.sink
  /-- What the sink took of a frame is the beginning of its own message, and says with the answers
  which result there was. -/
  law : ∀ f, m.step = .writeFrame f →
    SendLaw limit f (taken m.after.calls).length m.after.result m.after.calls
  /-- The phase of a cut is the one that was found for the first byte not taken, never the one that
  is named when none is found. -/
  phaseAt?_eq_some : ∀ f phase fault, m.step = .writeFrame f →
    m.after.result = .error (.sinkWrite phase fault) →
      f.phaseAt? (taken m.after.calls).length = some phase
  /-- The limit is the one that the composer was made with. -/
  limit_eq : m.after.writer.limit = limit

namespace Composer

/-- **What holds after every step of a session with a composer**: whatever the buffer held at first
and whatever earlier frames left in it, a frame that is sent puts the first bytes of its own message
on the sink, and the calls say which result there was; the phase of a cut is always found in the
layout; and the count is that of the frames that arrived. Nothing of an earlier frame is in the
buffer then. -/
theorem composed_of_run {sink : Sink σ} {s : σ} {limit : Nat} {buffer : Array UInt8}
    {steps : List (Writer.Step σ)} {os : List (Stepped σ)}
    (h : (⟨Writer.new s limit, buffer⟩ : Composer σ).run sink steps = some os) :
    (Writer.moments (Writer.new s limit) steps (os.map Stepped.forget)).map Writer.Moment.step =
        steps ∧
      (Writer.moments (Writer.new s limit) steps (os.map Stepped.forget)).map Writer.Moment.after =
        os.map Stepped.forget ∧
      (∀ front m back,
        Writer.moments (Writer.new s limit) steps (os.map Stepped.forget) = front ++ m :: back →
          m.Composed sink limit front) ∧
      ∀ f o, (.writeFrame f, o) ∈ steps.zip os →
        o.composer.buffer.toList = if f.Fits limit then message f else [] := by
  have hrun : (Writer.new s limit).run .whole sink steps = some (os.map Stepped.forget) := by
    rw [← forget_run sink ⟨Writer.new s limit, buffer⟩ steps, h]
    rfl
  obtain ⟨hsteps, hafter⟩ := Writer.map_moments hrun
  refine ⟨hsteps, hafter, fun front m back hm => ?_, fun f o hmem => buffer_of_run h hmem⟩
  have hmem : m ∈ Writer.moments (Writer.new s limit) steps (os.map Stepped.forget) := by
    rw [hm]
    simp
  obtain ⟨hlimit, hstep⟩ := Writer.step_of_moments hrun hmem
  -- what a frame came to, in terms of the limit that the session started with
  have hframe : ∀ f, m.step = .writeFrame f →
      ∃ sent, send .whole limit sink f m.before.sink = some sent ∧
        sent.result = m.after.result ∧ sent.sink = m.after.writer.sink ∧
        sent.calls = m.after.calls := by
    intro f hf
    rw [hf] at hstep
    obtain ⟨sent, hsent, hafter⟩ := Option.map_eq_some_iff.mp hstep
    rw [hlimit] at hsent
    exact ⟨sent, hsent, by rw [← hafter], by rw [← hafter], by rw [← hafter]⟩
  refine
    { framesWritten_eq := ?_
      transcript := fun f hf => ?_
      law := fun f hf => ?_
      phaseAt?_eq_some := fun f phase fault hf hresult => ?_
      limit_eq := ?_ }
  · rw [Writer.framesWritten_of_moments hrun hm]
    exact Nat.zero_add _
  · obtain ⟨sent, hsent, -, hsink, hcalls⟩ := hframe f hf
    rw [← hsink, ← hcalls]
    exact transcript_of_send hsent
  · obtain ⟨sent, hsent, hresult, -, hcalls⟩ := hframe f hf
    rw [← hresult, ← hcalls]
    exact (outcome_of_send hsent).law_taken
  · obtain ⟨sent, hsent, hsame, -, hcalls⟩ := hframe f hf
    have law := (outcome_of_send hsent).law_taken
    obtain ⟨⟨l, hl, hphase⟩, -, -⟩ := law.sinkWrite_cause phase fault (hsame.trans hresult)
    rw [← hcalls]
    exact Frame.phaseAt?_of_ofSize hl hphase
  · rw [Writer.limit_of_step hstep, hlimit]
    rfl

/-- A session in which a frame is cut off inside its document's length, one is too large, one
arrives after the sink was not ready, and one is taken and not flushed. The buffer holds bytes of
some other message at first. -/
theorem composed_of_run_leftover :
    ∃ (store : Store Script) (steps : List (Writer.Step (Store Script)))
      (os : List (Stepped (Store Script))),
      store = ⟨#[], { writes := [.notReady, .upTo 5, .fail (.ofKind .interrupted),
                                 .fail (.ofKind .brokenPipe), .notReady, .upTo 30],
                      flushes := [.notReady, .done, .done, .failed (.ofKind .timedOut)] }⟩ ∧
      steps = [.writeFrame ⟨[0x01, 0x02, 0x03], -1⟩, .writeFrame ⟨List.replicate 7 0xFF, 0⟩,
        .writeFrame ⟨[], 40⟩, .flush, .writeFrame ⟨[0x04], 80⟩] ∧
      (⟨Writer.new store 40, #[0xAA, 0xBB]⟩ : Composer (Store Script)).run Script.sink steps =
        some os ∧
      os.map (fun o => (o.result, o.composer.framesWritten)) =
        [(.error (.sinkWrite .documentHeader (.ofKind .brokenPipe)), 0),
          (.error (.frameTooLarge 7 40), 0), (.ok (), 1), (.ok (), 1),
          (.error (.sinkFlush (.ofKind .timedOut)), 1)] ∧
      ∀ front m back,
        Writer.moments (Writer.new store 40) steps (os.map Stepped.forget) = front ++ m :: back →
          m.Composed Script.sink 40 front := by
  obtain ⟨os, hos, hresults⟩ : ∃ os,
      (⟨Writer.new ⟨#[], { writes := [.notReady, .upTo 5, .fail (.ofKind .interrupted),
                                      .fail (.ofKind .brokenPipe), .notReady, .upTo 30],
                           flushes := [.notReady, .done, .done, .failed (.ofKind .timedOut)] }⟩ 40,
        #[0xAA, 0xBB]⟩ : Composer (Store Script)).run Script.sink
          [.writeFrame ⟨[0x01, 0x02, 0x03], -1⟩, .writeFrame ⟨List.replicate 7 0xFF, 0⟩,
            .writeFrame ⟨[], 40⟩, .flush, .writeFrame ⟨[0x04], 80⟩] = some os ∧
      os.map (fun o => (o.result, o.composer.framesWritten)) =
        [(.error (.sinkWrite .documentHeader (.ofKind .brokenPipe)), 0),
          (.error (.frameTooLarge 7 40), 0), (.ok (), 1), (.ok (), 1),
          (.error (.sinkFlush (.ofKind .timedOut)), 1)] :=
    Option.map_eq_some_iff.mp rfl
  exact ⟨_, _, os, rfl, rfl, hos, hresults, (composed_of_run hos).2.2.1⟩

end Composer

end FrameFeed
