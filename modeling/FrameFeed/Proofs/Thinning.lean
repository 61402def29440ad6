import FrameFeed.Proofs.Language
import FrameFeed.Proofs.Sizes
/-!
# Frames that are refused leave no trace

A frame that is too large is refused before anything is done with it. A buffer to which it was to be
encoded stays as it is; a writer through which it was to be sent makes no call and stays the writer
it was, sink and count included. So a session may be thinned of the frames that were refused: every
other step comes to the same, with the same calls, and leaves the same writer behind. A composer is
not quite the same afterwards, since it cleared its buffer for the frame, but what its buffer holds
is never seen.

Main statements: `Writer.run_thinned` and `Composer.run_thinned`, sessions with either kind of
writer, and `refused_frames_unseen`, both together with what buffers hold.
-/

namespace FrameFeed

open Wire

variable {σ : Type} {sink : Sink σ}

/-! ## Buffers -/

/-- A buffer once frames have been encoded to it one after another, with sizes in machine words. -/
def Wire.Machine.appendAll (limit : UInt64) (fs : List Frame) (buffer : Array UInt8) :
    Array UInt8 :=
  fs.foldl (fun buffer f => (Machine.append limit f buffer).2) buffer

/-- **It is the same buffer** where the sizes of the pictures have a word. -/
theorem Wire.Machine.appendAll_eq {limit : UInt64} {fs : List Frame}
    (h : ∀ f ∈ fs, f.jpegSize < UInt64.size) (buffer : Array UInt8) :
    Machine.appendAll limit fs buffer = Wire.appendAll limit.toNat fs buffer := by
  induction fs generalizing buffer with
  | nil => rfl
  | cons f fs ih =>
    have hword : f.jpegSize = (UInt64.ofNat f.jpegSize).toNat :=
      (UInt64.toNat_ofNat_of_lt' (h f List.mem_cons_self)).symm
    have hrest := ih fun g hg => h g (List.mem_cons_of_mem f hg)
    rw [Machine.appendAll, List.foldl_cons, append_eq limit hword]
    exact hrest _

/-- A frame is encoded exactly when it fits. -/
theorem append_eq_ok_iff {limit : Nat} {f : Frame} {buffer : Array UInt8} :
    (append limit f buffer).1 = .ok () ↔ f.Fits limit := by
  rw [← exists_documentLength_iff, append]
  cases documentLength limit f.jpegSize with
  | error e => simp
  | ok len => simp

namespace Writer

/-! ## Steps that are refused -/

/-- Whether a step sent a frame through the writer and the frame was refused for its size. -/
def Step.refused (step : Step σ) (result : Except EncodeError Unit) : Bool :=
  match step, result with
  | .writeFrame _, .error (.frameTooLarge _ _) => true
  | _, _ => false

theorem Step.refused_iff {step : Step σ} {result : Except EncodeError Unit} :
    step.refused result = true ↔
      (∃ f, step = .writeFrame f) ∧
        ∃ jpegSize max, result = .error (.frameTooLarge jpegSize max) := by
  constructor
  · intro h
    unfold refused at h
    split at h
    next f jpegSize max => exact ⟨⟨f, rfl⟩, jpegSize, max, rfl⟩
    next => cases h
  · rintro ⟨⟨f, rfl⟩, jpegSize, max, rfl⟩
    rfl

/-- **A refused step makes no call and leaves the writer it found.** -/
theorem eq_of_refused {offering : Offering} {w : Writer σ} {step : Step σ} {o : Stepped σ}
    (h : w.step offering sink step = some o) (hrefused : step.refused o.result = true) :
    o.calls = [] ∧ o.writer = w := by
  obtain ⟨⟨f, rfl⟩, jpegSize, max, hresult⟩ := Step.refused_iff.mp hrefused
  obtain ⟨sent, hsent, rfl⟩ := Option.map_eq_some_iff.mp h
  obtain ⟨k, law⟩ := (outcome_of_send hsent).law
  obtain ⟨hfits, -, -⟩ := (law.frameTooLarge_iff jpegSize max).mp hresult
  rw [send_frameTooLarge (Nat.lt_of_not_le hfits)] at hsent
  cases hsent
  exact ⟨rfl, rfl⟩

/-! ## Sessions -/

/-- A session without the frames that were refused: the other steps, each with what came of it. -/
def thinned (steps : List (Step σ)) (os : List (Stepped σ)) : List (Step σ × Stepped σ) :=
  (steps.zip os).filter fun (step, o) => !step.refused o.result

/-- The writer that a session leaves behind. -/
def leaves (w : Writer σ) : List (Stepped σ) → Writer σ
  | [] => w
  | o :: os => leaves o.writer os

theorem thinned_cons_of_refused {step : Step σ} {o : Stepped σ} (steps : List (Step σ))
    (os : List (Stepped σ)) (h : step.refused o.result = true) :
    thinned (step :: steps) (o :: os) = thinned steps os := by
  rw [thinned, List.zip_cons_cons, List.filter_cons_of_neg (by simp [h])]
  rfl

theorem thinned_cons_of_not_refused {step : Step σ} {o : Stepped σ} (steps : List (Step σ))
    (os : List (Stepped σ)) (h : step.refused o.result = false) :
    thinned (step :: steps) (o :: os) = (step, o) :: thinned steps os := by
  rw [thinned, List.zip_cons_cons, List.filter_cons_of_pos (by simp [h])]
  rfl

/-- **A session comes to the same without the frames that were refused**, step by step and in the
end. -/
theorem run_thinned {offering : Offering} {w : Writer σ} {steps : List (Step σ)}
    {os : List (Stepped σ)} (h : w.run offering sink steps = some os) :
    w.run offering sink ((thinned steps os).map Prod.fst) =
        some ((thinned steps os).map Prod.snd) ∧
      w.leaves ((thinned steps os).map Prod.snd) = w.leaves os := by
  induction steps generalizing w os with
  | nil =>
    cases h
    exact ⟨rfl, rfl⟩
  | cons step steps ih =>
    obtain ⟨o, rest, rfl, ho, hrest⟩ := exists_of_run_cons h
    obtain ⟨hrun, hleaves⟩ := ih hrest
    cases hrefused : step.refused o.result with
    | true =>
      -- the step left the writer as it was, so the others start where they started
      obtain ⟨-, hsame⟩ := eq_of_refused ho hrefused
      rw [thinned_cons_of_refused steps rest hrefused, leaves]
      rw [hsame] at hrun hleaves ⊢
      exact ⟨hrun, hleaves⟩
    | false =>
      rw [thinned_cons_of_not_refused steps rest hrefused]
      exact ⟨run_cons_of_step ho hrun, hleaves⟩

end Writer

/-- **So does a session with a composer**, to all who do not see its buffer. -/
theorem Composer.run_thinned {c : Composer σ} {steps : List (Writer.Step σ)}
    {cs : List (Stepped σ)} (h : c.run sink steps = some cs) :
    ∃ cs', c.run sink ((Writer.thinned steps (cs.map Stepped.forget)).map Prod.fst) = some cs' ∧
      cs'.map Stepped.forget = (Writer.thinned steps (cs.map Stepped.forget)).map Prod.snd ∧
      c.toWriter.leaves (cs'.map Stepped.forget) = c.toWriter.leaves (cs.map Stepped.forget) := by
  have hwriter : c.toWriter.run .whole sink steps = some (cs.map Stepped.forget) := by
    rw [← forget_run, h]
    rfl
  obtain ⟨hrun, hleaves⟩ := Writer.run_thinned hwriter
  rw [← forget_run] at hrun
  obtain ⟨cs', hcs', hforget⟩ := Option.map_eq_some_iff.mp hrun
  exact ⟨cs', hcs', hforget, by rw [hforget, hleaves]⟩

/-! ## Both kinds of traces -/

/-- **Frames that are refused leave no trace.** Encoding frames to a buffer one after another puts
the messages of those that fit behind what was there, in order, and nothing else. And a session,
over any sink and with either kind of writer, comes to the same without the frames that were
refused: every other step has the same result and makes the same calls, and leaves the same writer,
which is to say the same bytes taken, the same answers still to come and the same count. -/
theorem refused_frames_unseen :
    (∀ (limit : Nat) (fs : List Frame) (buffer : Array UInt8),
        (appendAll limit fs buffer).toList = buffer.toList ++
          (fs.filter fun f => 34 + f.jpegSize ≤ min limit 0xFFFF_FFFF).flatMap message) ∧
      (∀ (limit : Nat) (f : Frame) (buffer : Array UInt8),
        (append limit f buffer).1 = .ok () ↔ 34 + f.jpegSize ≤ min limit 0xFFFF_FFFF) ∧
      (∀ (limit : UInt64) (fs : List Frame) (buffer : Array UInt8),
        (∀ f ∈ fs, f.jpegSize < UInt64.size) →
          Machine.appendAll limit fs buffer = appendAll limit.toNat fs buffer) ∧
      (∀ {σ : Type} (sink : Sink σ) (w : Writer σ) (steps : List (Writer.Step σ))
        (os : List (Writer.Stepped σ)), w.run .byPiece sink steps = some os →
          w.run .byPiece sink ((Writer.thinned steps os).map Prod.fst) =
              some ((Writer.thinned steps os).map Prod.snd) ∧
            w.leaves ((Writer.thinned steps os).map Prod.snd) = w.leaves os) ∧
      ∀ {σ : Type} (sink : Sink σ) (c : Composer σ) (steps : List (Writer.Step σ))
        (cs : List (Composer.Stepped σ)), c.run sink steps = some cs →
          ∃ cs', c.run sink ((Writer.thinned steps (cs.map (·.forget))).map Prod.fst) = some cs' ∧
            cs'.map (·.forget) = (Writer.thinned steps (cs.map (·.forget))).map Prod.snd ∧
            c.toWriter.leaves (cs'.map (·.forget)) = c.toWriter.leaves (cs.map (·.forget)) :=
  ⟨toList_appendAll, fun _ _ _ => append_eq_ok_iff,
    fun _ _ buffer h => Machine.appendAll_eq h buffer,
    fun _ _ _ _ h => Writer.run_thinned h, fun _ _ _ _ h => Composer.run_thinned h⟩

/-- Under a limit of forty bytes, a picture of seven is too large wherever it comes: before a frame
that is cut off, between that and a flush, and after a frame that arrives. -/
theorem refused_frames_unseen_seven :
    ∃ (store : Store Script) (steps kept : List (Writer.Step (Store Script)))
      (os : List (Writer.Stepped (Store Script))) (cs : List (Composer.Stepped (Store Script))),
      store = ⟨#[0xEE], { writes := [.upTo 3, .fail (.ofKind .interrupted),
                                     .fail (.ofKind .brokenPipe)],
                          flushes := [.failed (.ofKind .interrupted)] }⟩ ∧
      steps = [.writeFrame ⟨List.replicate 7 0xFF, 0⟩, .writeFrame ⟨[0x01, 0x02, 0x03], -1⟩,
        .writeFrame ⟨List.replicate 7 0xFF, 40⟩, .flush, .writeFrame ⟨[], 80⟩,
        .writeFrame ⟨List.replicate 7 0xFF, 120⟩] ∧
      kept = [.writeFrame ⟨[0x01, 0x02, 0x03], -1⟩, .flush, .writeFrame ⟨[], 80⟩] ∧
      (Writer.new store 40).run .byPiece Script.sink steps = some os ∧
      os.map (fun o => (o.result, o.calls.length, o.writer.framesWritten)) =
        [(.error (.frameTooLarge 7 40), 0, 0),
          (.error (.sinkWrite .framing (.ofKind .brokenPipe)), 3, 0),
          (.error (.frameTooLarge 7 40), 0, 0), (.ok (), 2, 0), (.ok (), 13, 1),
          (.error (.frameTooLarge 7 40), 0, 1)] ∧
      (Writer.new store 40).run .byPiece Script.sink kept =
        some ((Writer.thinned steps os).map Prod.snd) ∧
      (⟨Writer.new store 40, #[0xAA]⟩ : Composer (Store Script)).run Script.sink steps = some cs ∧
      (∃ cs', (⟨Writer.new store 40, #[0xAA]⟩ : Composer (Store Script)).run Script.sink kept =
        some cs' ∧
          cs'.map (·.forget) = (Writer.thinned steps (cs.map (·.forget))).map Prod.snd) ∧
      (appendAll 40 [⟨List.replicate 7 0xFF, 0⟩, ⟨[0x01], 40⟩] #[0xAA]).toList =
        [0xAA] ++ message ⟨[0x01], 40⟩ := by
  obtain ⟨store, hstore⟩ : ∃ store : Store Script, store =
      ⟨#[0xEE], { writes := [.upTo 3, .fail (.ofKind .interrupted), .fail (.ofKind .brokenPipe)],
                  flushes := [.failed (.ofKind .interrupted)] }⟩ := ⟨_, rfl⟩
  obtain ⟨steps, hsteps⟩ : ∃ steps : List (Writer.Step (Store Script)), steps =
      [.writeFrame ⟨List.replicate 7 0xFF, 0⟩, .writeFrame ⟨[0x01, 0x02, 0x03], -1⟩,
        .writeFrame ⟨List.replicate 7 0xFF, 40⟩, .flush, .writeFrame ⟨[], 80⟩,
        .writeFrame ⟨List.replicate 7 0xFF, 120⟩] := ⟨_, rfl⟩
  obtain ⟨os, hos, hresults⟩ : ∃ os,
      (Writer.new store 40).run .byPiece Script.sink steps = some os ∧
      (os.map (fun o => (o.result, o.calls.length, o.writer.framesWritten)),
          (Writer.thinned steps os).map Prod.fst) =
        ([(.error (.frameTooLarge 7 40), 0, 0),
          (.error (.sinkWrite .framing (.ofKind .brokenPipe)), 3, 0),
          (.error (.frameTooLarge 7 40), 0, 0), (.ok (), 2, 0), (.ok (), 13, 1),
          (.error (.frameTooLarge 7 40), 0, 1)],
        [.writeFrame ⟨[0x01, 0x02, 0x03], -1⟩, .flush, .writeFrame ⟨[], 80⟩]) := by
    subst hstore hsteps
    exact Option.map_eq_some_iff.mp rfl
  obtain ⟨cs, hcs, hkept⟩ : ∃ cs,
      (⟨Writer.new store 40, #[0xAA]⟩ : Composer (Store Script)).run Script.sink steps = some cs ∧
        (Writer.thinned steps (cs.map (·.forget))).map Prod.fst =
          [.writeFrame ⟨[0x01, 0x02, 0x03], -1⟩, .flush, .writeFrame ⟨[], 80⟩] := by
    subst hstore hsteps
    exact Option.map_eq_some_iff.mp rfl
  obtain ⟨hbuffer, -, -, hwriter, hcomposer⟩ := refused_frames_unseen
  obtain ⟨hresults, hthinned⟩ := Prod.mk.inj hresults
  obtain ⟨hrun, -⟩ := hwriter Script.sink _ steps os hos
  obtain ⟨cs', hcs', hforget, -⟩ := hcomposer Script.sink _ steps cs hcs
  rw [hthinned] at hrun
  rw [hkept] at hcs'
  exact ⟨store, steps, _, os, cs, hstore, hsteps, rfl, hos, hresults, hrun, hcs,
    ⟨cs', hcs', hforget⟩, hbuffer 40 _ _⟩

end FrameFeed
