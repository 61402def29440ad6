import FrameFeed.Proofs.Layout
import FrameFeed.Sink.Script
import FrameFeed.Writer
/-!
# What came of a frame

However a message is offered, sending it comes to one of four things: it is too large and the sink
is not called, it is taken and flushed, it is taken and cannot be flushed, or the sink stops inside
it. `Outcome` lists them with what the calls then show; `outcome_of_send` says that there is no
fifth. The phase of a cut is the layout's, whether the piece knew it or the layout was asked.

Main statements: `outcome_of_send`, and `send_byPiece_law`, which reads off the bytes and calls of
a send what its result was.
-/

namespace FrameFeed

open Wire

variable {σ : Type}

/-- The frame's document stays within the limit in force. -/
def Frame.Fits (limit : Nat) (f : Frame) : Prop := 34 + f.jpegSize ≤ cap limit

instance (limit : Nat) : DecidablePred (Frame.Fits limit) :=
  fun f => inferInstanceAs (Decidable (34 + f.jpegSize ≤ cap limit))

theorem documentLength_of_fits {limit : Nat} {f : Frame} (h : f.Fits limit) :
    documentLength limit f.jpegSize = .ok (34 + f.jpegSize) :=
  documentLength_eq_ok_iff.mpr ⟨rfl, h⟩

/-- A frame that fits under any limit has a layout. -/
theorem exists_layout_of_fits {limit : Nat} {f : Frame} (h : f.Fits limit) :
    ∃ l, Layout.ofSize f.jpegSize = .ok l :=
  ⟨_, Layout.ofSize_eq_ok_iff.mpr ⟨Nat.le_trans h (cap_le limit), rfl⟩⟩

/-! ## Offerings -/

/-- **Either offering offers the bytes of the message.** -/
theorem Offering.bytesOf_pieces (offering : Offering) (f : Frame) :
    bytesOf (offering.pieces f) = message f := by
  cases offering with
  | byPiece => rfl
  | whole => exact List.append_nil _

/-- **The phase of a cut is the layout's.** What was left begins with the first byte that was not
taken: a piece belongs to its phase, and of the whole message only the place in it is left. -/
theorem Offering.phaseAt_of_after {offering : Offering} {f : Frame} {l : Layout} {k : Nat}
    {left : Piece} {rest : List Piece} (hl : Layout.ofSize f.jpegSize = .ok l)
    (h : after k ((offering.pieces f).filter (·.bytes ≠ [])) = left :: rest) :
    l.phaseAt k = some (offering.phase f left) := by
  cases offering with
  | byPiece =>
    have hphase := phase_pieceAt_of_after h
    rw [pieceAt_filter] at hphase
    rw [phaseAt_eq hl]
    exact hphase
  | whole =>
    -- a whole message carries no phases, so the layout is asked for the place it was cut at
    have hne : message f ≠ [] := List.ne_nil_of_length_pos (by rw [length_message]; omega)
    rw [Offering.pieces, List.filter_cons_of_pos (by simpa using hne)] at h
    by_cases hk : k < (message f).length
    · rw [after_cons_of_lt hk] at h
      obtain ⟨rfl, -⟩ := List.cons.inj h
      obtain ⟨p, hp⟩ := exists_pieceAt hk
      have hat : l.phaseAt k = some p.phase := by
        rw [phaseAt_eq hl, hp]
        rfl
      have hplace : (message f).length - ((message f).drop k).length = k := by
        rw [List.length_drop]
        omega
      rw [Offering.phase, hl, hplace]
      simp [Except.toOption, hat]
    · rw [after_cons_of_le (Nat.le_of_not_lt hk)] at h
      cases h

/-! ## The four outcomes -/

/-- Sending a frame that fits is delivering its pieces. -/
theorem send_of_fits {offering : Offering} {limit : Nat} {sink : Sink σ} {f : Frame} {s : σ}
    {d : Delivered σ} (hfits : f.Fits limit)
    (h : deliverAll sink (offering.pieces f) s = some d) :
    send offering limit sink f s =
      some ⟨d.ending.result (offering.phase f), d.sink, d.calls⟩ := by
  rw [send, documentLength_of_fits hfits]
  simp only [h, Option.map_some]

/-- What sending a frame under a limit comes to: the result and what the calls then show. -/
inductive Outcome (limit : Nat) (f : Frame) : Except EncodeError Unit → List Call → Prop
  | refused : ¬ f.Fits limit →
      Outcome limit f (.error (.frameTooLarge f.jpegSize (cap limit))) []
  | arrived {calls : List Call} : f.Fits limit → taken calls = message f →
      (flushAnswers calls).getLast? = some .done → Outcome limit f (.ok ()) calls
  | unflushed {calls : List Call} {answer : FlushAnswer} {fault : Fault} :
      f.Fits limit → taken calls = message f → (flushAnswers calls).getLast? = some answer →
      answer.fault? = some fault → Outcome limit f (.error (.sinkFlush fault)) calls
  | cutOff {calls : List Call} {l : Layout} {phase : Phase} {k : Nat} {answer : WriteAnswer}
      {fault : Fault} : f.Fits limit → k < (message f).length →
      taken calls = (message f).take k → Layout.ofSize f.jpegSize = .ok l →
      l.phaseAt k = some phase → (writeAnswers calls).getLast? = some answer →
      answer.fault? = some fault → flushAnswers calls = [] →
      Outcome limit f (.error (.sinkWrite phase fault)) calls

/-- **Sending comes to one of the four outcomes.** -/
theorem outcome_of_send {offering : Offering} {limit : Nat} {sink : Sink σ} {f : Frame} {s : σ}
    {sent : Sent σ} (h : send offering limit sink f s = some sent) :
    Outcome limit f sent.result sent.calls := by
  by_cases hfits : f.Fits limit
  · rw [send, documentLength_of_fits hfits] at h
    obtain ⟨d, hd, rfl⟩ := Option.map_eq_some_iff.mp h
    obtain ⟨l, hl⟩ := exists_layout_of_fits hfits
    rcases d with ⟨ending, s', calls⟩
    have ha : ending.Accounts ((offering.pieces f).filter (·.bytes ≠ [])) calls :=
      accounts_of_deliverAll hd
    cases ending with
    | delivered =>
      obtain ⟨htaken, hlast⟩ := ha
      rw [bytesOf_filter, offering.bytesOf_pieces] at htaken
      exact .arrived hfits htaken hlast
    | unflushed fault =>
      obtain ⟨htaken, answer, hlast, hf⟩ := ha
      rw [bytesOf_filter, offering.bytesOf_pieces] at htaken
      exact .unflushed hfits htaken hlast hf
    | cutOff left fault =>
      obtain ⟨⟨rest, hleft, htaken⟩, hflush, answer, hlast, hf⟩ := ha
      have hne : left.bytes ≠ [] :=
        after_ne_nil (by simp) left (hleft ▸ List.mem_cons_self)
      rw [bytesOf_filter, offering.bytesOf_pieces, bytesOf_cons] at htaken
      -- the piece left over holds bytes, and none of them was taken
      have hlt : (taken calls).length < (message f).length := by
        have hpos := List.length_pos_iff.mpr hne
        rw [← htaken, List.length_append, List.length_append]
        omega
      have htake : taken calls = (message f).take (taken calls).length := by
        rw [← htaken, List.take_left]
      exact .cutOff hfits hlt htake hl (offering.phaseAt_of_after hl hleft) hlast hf hflush
  · rw [send_frameTooLarge (Nat.lt_of_not_le hfits)] at h
    obtain rfl := Option.some.inj h
    exact .refused hfits

/-- **The calls of a send are calls that the sink did answer.** -/
theorem transcript_of_send {offering : Offering} {limit : Nat} {sink : Sink σ} {f : Frame}
    {s : σ} {sent : Sent σ} (h : send offering limit sink f s = some sent) :
    sink.Transcript s sent.calls sent.sink := by
  rw [send] at h
  split at h
  next => cases h; exact .nil s
  next =>
    obtain ⟨d, hd, rfl⟩ := Option.map_eq_some_iff.mp h
    exact transcript_of_deliver hd

theorem outcome_of_writeFrame {offering : Offering} {sink : Sink σ} {w : Writer σ} {f : Frame}
    {o : Writer.Stepped σ} (h : w.writeFrame offering sink f = some o) :
    Outcome w.limit f o.result o.calls := by
  obtain ⟨sent, hsent, rfl⟩ := Option.map_eq_some_iff.mp h
  exact outcome_of_send hsent

theorem Writer.limit_of_writeFrame {offering : Offering} {sink : Sink σ} {w : Writer σ} {f : Frame}
    {o : Stepped σ} (h : w.writeFrame offering sink f = some o) : o.writer.limit = w.limit := by
  obtain ⟨sent, -, rfl⟩ := Option.map_eq_some_iff.mp h
  rfl

theorem Writer.run_cons_of_step {offering : Offering} {sink : Sink σ} {w : Writer σ}
    {step : Step σ} {steps : List (Step σ)} {o : Stepped σ} {os : List (Stepped σ)}
    (h : w.step offering sink step = some o) (hos : o.writer.run offering sink steps = some os) :
    w.run offering sink (step :: steps) = some (o :: os) := by
  simp only [run, h, Option.bind_eq_bind, Option.bind_some, hos]
  rfl

/-! ## The result read off the calls -/

/-- What sending a frame did, the first `k` bytes of its message having been taken: the calls say
which result there was. -/
structure SendLaw (limit : Nat) (f : Frame) (k : Nat) (result : Except EncodeError Unit)
    (calls : List Call) : Prop where
  /-- The bytes taken are the first `k` of the message. -/
  taken_eq : k ≤ (message f).length ∧ taken calls = (message f).take k
  /-- A frame is too large exactly when the size check fails, which its size and the limit in
  force tell. -/
  frameTooLarge_iff : ∀ jpegSize max, result = .error (.frameTooLarge jpegSize max) ↔
    ¬ f.Fits limit ∧ jpegSize = f.jpegSize ∧ max = cap limit
  /-- And then there was no call. -/
  calls_eq_nil : ¬ f.Fits limit → calls = []
  /-- A frame arrived exactly when its message was taken and the last flush succeeded. -/
  ok_iff : result = .ok () ↔
    k = (message f).length ∧ (flushAnswers calls).getLast? = some .done
  /-- Flushing failed exactly when the message was taken and the last flush failed, other than by
  being interrupted. -/
  sinkFlush_iff : ∀ fault, result = .error (.sinkFlush fault) ↔
    k = (message f).length ∧ (flushAnswers calls).getLast? = some (.failed fault) ∧
      fault.isInterrupted = false
  /-- Writing failed exactly when the frame fits and some of its message was not taken. -/
  sinkWrite_iff : (∃ phase fault, result = .error (.sinkWrite phase fault)) ↔
    f.Fits limit ∧ k < (message f).length
  /-- And then the phase is the layout's for the first byte that was not taken, the fault is that
  of the last write, or that of a write which took nothing, and there was no flush. -/
  sinkWrite_cause : ∀ phase fault, result = .error (.sinkWrite phase fault) →
    (∃ l, Layout.ofSize f.jpegSize = .ok l ∧ l.phaseAt k = some phase) ∧
      ((writeAnswers calls).getLast? = some (.took 0) ∧ fault = .ofKind .writeZero ∨
        (writeAnswers calls).getLast? = some (.failed fault) ∧ fault.isInterrupted = false) ∧
      flushAnswers calls = []

/-- **Every outcome obeys the law**, for some number of bytes taken. -/
theorem Outcome.law {limit : Nat} {f : Frame} {result : Except EncodeError Unit}
    {calls : List Call} (h : Outcome limit f result calls) :
    ∃ k, SendLaw limit f k result calls := by
  have hpos : 0 < (message f).length := by rw [length_message]; omega
  cases h with
  | refused hfits =>
    exact ⟨0,
      { taken_eq := ⟨Nat.zero_le _, rfl⟩
        frameTooLarge_iff := fun n max => by simp [hfits, eq_comm]
        calls_eq_nil := fun _ => rfl
        ok_iff := by simp
        sinkFlush_iff := fun fault => by simp
        sinkWrite_iff := by simp [hfits]
        sinkWrite_cause := fun phase fault h => by simp at h }⟩
  | arrived hfits htaken hlast =>
    exact ⟨_,
      { taken_eq := ⟨Nat.le_refl _, by rw [htaken, List.take_length]⟩
        frameTooLarge_iff := fun n max => by simp [hfits]
        calls_eq_nil := fun h => absurd hfits h
        ok_iff := by simp [hlast]
        sinkFlush_iff := fun fault => by simp [hlast]
        sinkWrite_iff := by simp
        sinkWrite_cause := fun phase fault h => by simp at h }⟩
  | @unflushed calls answer fault hfits htaken hlast hf =>
    obtain ⟨rfl, hi⟩ := FlushAnswer.fault?_eq_some_iff.mp hf
    exact ⟨_,
      { taken_eq := ⟨Nat.le_refl _, by rw [htaken, List.take_length]⟩
        frameTooLarge_iff := fun n max => by simp [hfits]
        calls_eq_nil := fun h => absurd hfits h
        ok_iff := by simp [hlast]
        sinkFlush_iff := fun other => by
          simp only [hlast, Except.error.injEq, EncodeError.sinkFlush.injEq, Option.some.injEq,
            FlushAnswer.failed.injEq, true_and]
          exact ⟨fun h => ⟨h, h ▸ hi⟩, fun h => h.1⟩
        sinkWrite_iff := by simp
        sinkWrite_cause := fun phase fault h => by simp at h }⟩
  | @cutOff calls l phase k answer fault hfits hk htaken hl hphase hlast hf hflush =>
    exact ⟨k,
      { taken_eq := ⟨Nat.le_of_lt hk, htaken⟩
        frameTooLarge_iff := fun n max => by simp [hfits]
        calls_eq_nil := fun h => absurd hfits h
        ok_iff := by simp [hflush]
        sinkFlush_iff := fun other => by simp [hflush]
        sinkWrite_iff := ⟨fun _ => ⟨hfits, hk⟩, fun _ => ⟨phase, fault, rfl⟩⟩
        sinkWrite_cause := fun phase' fault' h => by
          simp only [Except.error.injEq, EncodeError.sinkWrite.injEq] at h
          obtain ⟨rfl, rfl⟩ := h
          refine ⟨⟨l, hl, hphase⟩, ?_, hflush⟩
          rw [hlast]
          simpa using WriteAnswer.fault?_eq_some_iff.mp hf }⟩

/-- **Sending a frame piece by piece obeys the law**, whatever the sink answers: the calls made are
calls that it answered, and what it took and how it answered last say which result there was. -/
theorem send_byPiece_law {limit : Nat} {sink : Sink σ} {f : Frame} {s : σ} {sent : Sent σ}
    (h : send .byPiece limit sink f s = some sent) :
    sink.Transcript s sent.calls sent.sink ∧
      ∃ k, SendLaw limit f k sent.result sent.calls :=
  ⟨transcript_of_send h, (outcome_of_send h).law⟩

/-- A store that interrupts the first write, takes two bytes of the second and breaks when it holds
forty stops at the terminator of a message with three bytes of picture. -/
theorem send_byPiece_law_terminator :
    ∃ sent, send .byPiece maxDocumentSize Script.sink ⟨[0x01, 0x02, 0x03], -1⟩
        ⟨#[], { writes := [.fail (.ofKind .interrupted), .upTo 2], limit := some 40,
                whenFull := .fail (.ofKind .brokenPipe) }⟩ = some sent ∧
      sent.result = .error (.sinkWrite .terminator (.ofKind .brokenPipe)) ∧
      Script.sink.Transcript
        ⟨#[], { writes := [.fail (.ofKind .interrupted), .upTo 2], limit := some 40,
                whenFull := .fail (.ofKind .brokenPipe) }⟩ sent.calls sent.sink ∧
      ∃ k, SendLaw maxDocumentSize ⟨[0x01, 0x02, 0x03], -1⟩ k sent.result sent.calls :=
  ⟨_, rfl, rfl, send_byPiece_law rfl⟩

end FrameFeed
