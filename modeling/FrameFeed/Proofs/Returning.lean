import FrameFeed.Proofs.Attempts
import FrameFeed.Proofs.Discipline
/-!
# Sending returns, and a feed that repeats ends

Neither the loop that offers what is left of a message nor the feed that starts its list over has a
counter. What ends them is counted here. A call takes a byte, or it is a retry, or it is the last
one; so a sink that asks for the same call again only so often is done with a frame after so many
calls. A feed that repeats and is never told to stop uses up what the sink has room for, at least
thirty-eight bytes with a frame, or it uses up the timestamps there are.

Retries are counted on the calls that are made: nothing is said of what the sink would answer
otherwise. How long a sink is waited for is up to the caller (`Sink.waiting`), and any caller that
sits through the retries will do.

Main statements: `exists_send_of_retriesWithin`, sending returns, `Feed.reaches_or_stops`, a feed
goes on or breaks off, and `ends_by_itself`, how soon both are over.
-/

namespace FrameFeed

open Wire

variable {σ : Type} {sink : Sink σ} {I J K : Nat}

/-! ## Counting calls -/

namespace Call

/-- A write that was answered. While the sink is not ready, none was. -/
def isWrite : Call → Bool
  | write _ .notReady => false
  | write _ _ => true
  | flush _ => false

/-- A flush that was answered. -/
def isFlush : Call → Bool
  | flush .notReady => false
  | flush _ => true
  | write .. => false

/-- A write that was answered by an interruption. -/
def interruptedWrite : Call → Bool
  | write _ (.failed fault) => fault.isInterrupted
  | _ => false

/-- A flush that was answered by an interruption. -/
def interruptedFlush : Call → Bool
  | flush (.failed fault) => fault.isInterrupted
  | _ => false

/-- A call that found the sink not ready. -/
def notReady : Call → Bool
  | write _ .notReady | flush .notReady => true
  | _ => false

/-- There are three ways to ask for the same call again. -/
theorem toNat_again (call : Call) :
    call.again.toNat =
      call.interruptedWrite.toNat + call.interruptedFlush.toNat + call.notReady.toNat := by
  cases call with
  | write offer answer =>
    cases answer with
    | took n => rfl
    | notReady => rfl
    | failed fault => rfl
  | flush answer =>
    cases answer with
    | done => rfl
    | notReady => rfl
    | failed fault => simp [again, FlushAnswer.again, interruptedWrite, interruptedFlush, notReady]

theorem countP_cons (p : Call → Bool) (call : Call) (calls : List Call) :
    (call :: calls).countP p = (p call).toNat + calls.countP p := by
  rw [List.countP_cons, Nat.add_comm]
  cases p call <;> rfl

theorem countP_again (calls : List Call) :
    calls.countP again =
      calls.countP interruptedWrite + calls.countP interruptedFlush + calls.countP notReady := by
  induction calls with
  | nil => rfl
  | cons call calls ih =>
    have hcall := call.toNat_again
    rw [countP_cons, countP_cons, countP_cons, countP_cons]
    omega

end Call

/-- Calls of which the sink answered at most `I` writes and `J` flushes by an interruption, and at
most `K` by not being ready. -/
structure RetriesWithin (I J K : Nat) (calls : List Call) : Prop where
  interruptedWrites : calls.countP Call.interruptedWrite ≤ I
  interruptedFlushes : calls.countP Call.interruptedFlush ≤ J
  notReady : calls.countP Call.notReady ≤ K

namespace RetriesWithin

theorem countP_again_le {calls : List Call} (h : RetriesWithin I J K calls) :
    calls.countP Call.again ≤ I + J + K := by
  have hwrites := h.interruptedWrites
  have hflushes := h.interruptedFlushes
  have hready := h.notReady
  rw [Call.countP_again]
  omega

/-- Fewer calls hold fewer retries. -/
theorem of_sublist {calls more : List Call} (h : RetriesWithin I J K more)
    (hsub : calls.Sublist more) : RetriesWithin I J K calls where
  interruptedWrites := Nat.le_trans hsub.countP_le h.interruptedWrites
  interruptedFlushes := Nat.le_trans hsub.countP_le h.interruptedFlushes
  notReady := Nat.le_trans hsub.countP_le h.notReady

end RetriesWithin

/-! ## One call -/

/-- What is left to deliver after a reaction. -/
def Reaction.left : Reaction → List Piece
  | goOn left => left
  | stop _ => []

/-- **A write takes a byte, or is interrupted, or is the last call.** -/
theorem Reacts.isWrite_le {ps : List Piece} {call : Call} {reaction : Reaction}
    (h : Reacts ps call reaction) (hps : ∀ p ∈ ps, p.bytes ≠ []) :
    call.isWrite.toNat + (bytesOf reaction.left).length ≤
      (bytesOf ps).length + call.interruptedWrite.toNat := by
  have hpos : ∀ {p : Piece} {rest : List Piece}, ps = p :: rest → 0 < p.bytes.length := by
    rintro p rest rfl
    exact List.length_pos_iff.mpr (hps p List.mem_cons_self)
  cases h with
  | @took p rest n =>
    have hp := hpos rfl
    have hone := (Call.write p.bytes (.took (n + 1))).isWrite.toNat_le
    rw [Reaction.left, bytesOf_advance, bytesOf_cons, List.length_append, List.length_append,
      List.length_drop]
    omega
  | @again p rest answer ha =>
    -- the write was interrupted, or there was none
    have hcall : (Call.write p.bytes answer).isWrite =
        (Call.write p.bytes answer).interruptedWrite := by
      cases answer with
      | took n => cases ha
      | notReady => rfl
      | failed fault => exact Eq.symm ha
    rw [hcall, Reaction.left]
    omega
  | @cutOff p rest answer fault hf =>
    have hp := hpos rfl
    have hone := (Call.write p.bytes answer).isWrite.toNat_le
    rw [Reaction.left, bytesOf_nil, List.length_nil, bytesOf_cons, List.length_append]
    omega
  | flushed => exact Nat.le_refl 0
  | flushAgain ha => exact Nat.zero_le _
  | unflushed hf => exact Nat.zero_le _

/-- **A flush after which a delivery goes on was interrupted.** -/
theorem Reacts.isFlush_le {ps left : List Piece} {call : Call} (h : Reacts ps call (.goOn left)) :
    call.isFlush.toNat ≤ call.interruptedFlush.toNat := by
  cases h with
  | took n => exact Nat.zero_le _
  | again ha => exact Nat.zero_le _
  | @flushAgain answer ha =>
    cases answer with
    | done => cases ha
    | notReady => exact Nat.zero_le _
    | failed fault =>
      have hinterrupted : fault.isInterrupted = true := ha
      rw [Call.interruptedFlush, hinterrupted]
      exact Bool.toNat_le _

/-! ## The calls of a delivery -/

/-- **The answered writes are no more than the bytes and the interruptions, and the answered flushes
one more than theirs**, however many of the calls are looked at. -/
theorem countP_firstCalls (sink : Sink σ) (n : Nat) {ps : List Piece} (s : σ)
    (hps : ∀ p ∈ ps, p.bytes ≠ []) :
    (firstCalls sink n ps s).countP Call.isWrite ≤
        (bytesOf ps).length + (firstCalls sink n ps s).countP Call.interruptedWrite ∧
      (firstCalls sink n ps s).countP Call.isFlush ≤
        (firstCalls sink n ps s).countP Call.interruptedFlush + 1 := by
  induction n generalizing ps s with
  | zero => exact ⟨Nat.zero_le _, Nat.zero_le _⟩
  | succ n ih =>
    obtain ⟨call, ⟨hcalls, ending, hr⟩ | ⟨left, s', hcalls, hr⟩⟩ := firstCalls_succ sink n ps s
    · have hwrite := hr.isWrite_le hps
      have hflush := call.isFlush.toNat_le
      simp only [hcalls, Call.countP_cons, List.countP_nil]
      constructor <;> omega
    · obtain ⟨hwrites, hflushes⟩ := ih s' (hr.ne_nil hps)
      have hwrite := hr.isWrite_le hps
      have hflush := hr.isFlush_le
      rw [Reaction.left] at hwrite
      simp only [hcalls, Call.countP_cons]
      constructor <;> omega

/-- **A delivery returns** once its calls are more than the bytes and the retries among them. -/
theorem exists_deliver_of_countP_again {n : Nat} {ps : List Piece} {s : σ}
    (hps : ∀ p ∈ ps, p.bytes ≠ [])
    (h : (bytesOf ps).length + (firstCalls sink n ps s).countP Call.again < n) :
    ∃ d, deliver sink n ps s = some d := by
  induction n generalizing ps s with
  | zero => omega
  | succ n ih =>
    rw [firstCalls] at h
    rw [deliver_succ]
    split
    next ending s' call _ => exact ⟨_, rfl⟩
    next left s' call hnext =>
      rw [hnext] at h
      dsimp only at h
      rw [Call.countP_cons] at h
      -- the bytes left and the retries to come go down together by one call at least
      have hr := (reacts_nextCall hnext).1
      have hless := hr.length_left_lt hps
      have hleft : (bytesOf left).length + (firstCalls sink n left s').countP Call.again < n := by
        omega
      obtain ⟨d, hd⟩ := ih (hr.ne_nil hps) hleft
      exact ⟨_, by rw [hd]; rfl⟩

/-- The first calls of a delivery that returns are the beginning of its calls. -/
theorem firstCalls_isPrefix {n calls : Nat} {ps : List Piece} {s : σ} {d : Delivered σ}
    (h : deliver sink calls ps s = some d) : firstCalls sink n ps s <+: d.calls := by
  induction n generalizing calls ps s d with
  | zero => exact List.nil_prefix
  | succ n ih =>
    obtain ⟨calls, rfl⟩ : ∃ m, calls = m + 1 := by
      cases calls with
      | zero => cases h
      | succ m => exact ⟨m, rfl⟩
    rcases hnext : nextCall sink s ps with ⟨reaction, s', call⟩
    rw [deliver_succ, hnext] at h
    rw [firstCalls, hnext]
    cases reaction with
    | stop ending =>
      cases h
      exact List.prefix_rfl
    | goOn left =>
      obtain ⟨d', hd', rfl⟩ := Option.map_eq_some_iff.mp h
      exact (List.prefix_cons_inj call).mpr (ih hd')

/-! ## Sending a frame -/

/-- The first `n` calls that sending a frame under a limit comes to. A frame that is too large comes
to none. -/
def Offering.attempt (offering : Offering) (limit : Nat) (sink : Sink σ) (f : Frame) (s : σ)
    (n : Nat) : List Call :=
  if f.Fits limit then offering.calls sink f s n else []

/-- The calls of a frame that was sent begin with its first calls, and are some of them. -/
theorem attempt_of_send {offering : Offering} {limit : Nat} {f : Frame} {s : σ} {sent : Sent σ}
    (h : send offering limit sink f s = some sent) :
    (∀ n, offering.attempt limit sink f s n <+: sent.calls) ∧
      ∃ n, sent.calls = offering.attempt limit sink f s n := by
  by_cases hfits : f.Fits limit
  · rw [send, documentLength_of_fits hfits] at h
    obtain ⟨d, hd, rfl⟩ := Option.map_eq_some_iff.mp h
    simp only [Offering.attempt, if_pos hfits]
    exact ⟨fun n => firstCalls_isPrefix hd, _, (firstCalls_of_deliver hd).1.symm⟩
  · rw [send_frameTooLarge (Nat.lt_of_not_le hfits)] at h
    obtain rfl := Option.some.inj h
    simp only [Offering.attempt, if_neg hfits]
    exact ⟨fun _ => List.prefix_rfl, 0, trivial⟩

/-- **Sending a frame returns** to a caller that sits through the retries, after at most one
answered write for each byte and each interruption and one answered flush more than were
interrupted. -/
theorem exists_send_of_retriesWithin {offering : Offering} {limit : Nat} {f : Frame} {s : σ}
    (hpatience : I + J + K ≤ sink.patience s)
    (h : ∀ n, RetriesWithin I J K (offering.attempt limit sink f s n)) :
    ∃ sent, send offering limit sink f s = some sent ∧
      sent.calls.countP Call.isWrite ≤ (message f).length + I ∧
      sent.calls.countP Call.isFlush ≤ J + 1 := by
  by_cases hfits : f.Fits limit
  · simp only [Offering.attempt, if_pos hfits] at h
    have hps : ∀ p ∈ (offering.pieces f).filter (·.bytes ≠ []), p.bytes ≠ [] := by simp
    have hbytes : bytesOf ((offering.pieces f).filter (·.bytes ≠ [])) = message f := by
      rw [bytesOf_filter, offering.bytesOf_pieces]
    obtain ⟨n, hn⟩ : ∃ n, n = (message f).length + 1 + sink.patience s := ⟨_, rfl⟩
    have hwithin : RetriesWithin I J K
        (firstCalls sink n ((offering.pieces f).filter (·.bytes ≠ [])) s) := h n
    obtain ⟨hwrites, hflushes⟩ := countP_firstCalls sink n s hps
    have hagain := hwithin.countP_again_le
    rw [hbytes] at hwrites
    obtain ⟨d, hd⟩ : ∃ d,
        deliver sink n ((offering.pieces f).filter (·.bytes ≠ [])) s = some d := by
      refine exists_deliver_of_countP_again hps ?_
      rw [hbytes]
      omega
    have hall : deliverAll sink (offering.pieces f) s = some d := by
      rw [deliverAll, offering.bytesOf_pieces, ← hn, hd]
    rw [(firstCalls_of_deliver hd).1] at hwithin hwrites hflushes
    refine ⟨_, send_of_fits hfits hall, ?_, ?_⟩
    · exact Nat.le_trans hwrites (Nat.add_le_add_left hwithin.interruptedWrites _)
    · exact Nat.le_trans hflushes (Nat.add_le_add_right hwithin.interruptedFlushes _)
  · exact ⟨_, send_frameTooLarge (Nat.lt_of_not_le hfits), Nat.zero_le _, Nat.zero_le _⟩

/-- The sink as it is for a caller that sits through `n` answers that ask for the same call
again. -/
def Sink.waiting (sink : Sink σ) (n : Nat) : Sink σ := { sink with patience := fun _ => n }

/-- **So does sending it through a composer**, after as many answered calls. -/
theorem Composer.exists_writeFrame_of_retriesWithin {c : Composer σ} {f : Frame}
    (hpatience : I + J + K ≤ sink.patience c.sink)
    (h : ∀ n, RetriesWithin I J K (Offering.whole.attempt c.limit sink f c.sink n)) :
    ∃ o, c.writeFrame sink f = some o ∧
      o.calls.countP Call.isWrite ≤ (message f).length + I ∧
      o.calls.countP Call.isFlush ≤ J + 1 := by
  obtain ⟨sent, hsent, hwrites, hflushes⟩ := exists_send_of_retriesWithin hpatience h
  have hforget := forget_writeFrame sink c f
  rw [Writer.writeFrame, hsent] at hforget
  obtain ⟨o, ho, hstepped⟩ := Option.map_eq_some_iff.mp hforget
  have hcalls : o.calls = sent.calls := congrArg Writer.Stepped.calls hstepped
  exact ⟨o, ho, hcalls ▸ hwrites, hcalls ▸ hflushes⟩

/-! ## Feeds -/

namespace Feed

/-- The attempts that a run made: the frames that arrived, and the one that did not if it was a
frame that the run broke off at. -/
def Ended.attempts (ended : Ended σ) : Nat :=
  match ended.result with
  | .error (.write _) => ended.sent.length + 1
  | .error .timestampOverflow | .ok _ => ended.sent.length

/-- Calls that a feed which is never told to stop has made at some moment: those of the attempts
that arrived, or these and the first ones of the attempt that is due. -/
inductive Makes (feed : Feed) (sink : Sink σ) (w : Writer σ) : List Call → Prop
  | reached {i : Nat} {last : Writer σ} {made : List Call} :
      feed.Reaches sink (fun _ _ => true) w i last made → Makes feed sink w made
  | sending {i : Nat} {last : Writer σ} {made : List Call} {image : Image} {pts : Int64} (n : Nat) :
      feed.Reaches sink (fun _ _ => true) w i last made → feed.Due i image pts →
      Makes feed sink w
        (made ++ Offering.byPiece.attempt last.limit sink ⟨image.jpeg, pts⟩ last.sink n)

/-- A feed that is never told to stop returns after at most `bound` attempts, and fails. More turns
than that are never needed. -/
def FailsWithin (feed : Feed) (sink : Sink σ) (w : Writer σ) (bound : Nat) : Prop :=
  ∃ ended e, (∀ turns, bound < turns →
      feed.run sink (fun _ _ => true) turns feed.start w = some ended) ∧
    ended.result = .error e ∧ ended.attempts ≤ bound

variable {feed : Feed} {w : Writer σ}

/-! ### Attempts of a run -/

/-- The frames that arrived in a run are those that it counted. -/
theorem framesWritten_of_run {running : Nat → σ → Bool} {turns : Nat} {place : Place}
    {ended : Ended σ} (h : feed.run sink running turns place w = some ended) :
    ended.writer.framesWritten = w.framesWritten + ended.sent.length := by
  induction turns generalizing place w ended with
  | zero => cases h
  | succ turns ih =>
    rw [run] at h
    split at h
    next =>
      cases h
      rfl
    next =>
      cases h
      rfl
    next image pts rest _ =>
      split at h
      next => cases h
      next e w' calls hwrite =>
        cases h
        exact Writer.framesWritten_writeFrame hwrite
      next w' calls hwrite =>
        obtain ⟨later, hrun, rfl⟩ := Option.map_eq_some_iff.mp h
        have hcount := Writer.framesWritten_writeFrame hwrite
        have hlater := ih hrun
        simp only [Except.isOk, Except.toBool, if_true] at hcount
        dsimp only
        rw [List.length_cons]
        omega

/-- What one turn makes of the place where the attempts have come to, a run makes of the start; the
attempts that arrived come on top. -/
theorem exists_run_of_reaches {running : Nat → σ → Bool} {i : Nat} {last : Writer σ}
    {made : List Call} {one : Ended σ} (hreaches : feed.Reaches sink running w i last made)
    (hone : ∀ place, feed.At i place → feed.run sink running 1 place last = some one) :
    ∃ ended, feed.run sink running (i + 1) feed.start w = some ended ∧
      ended.result = one.result ∧ ended.sent.length = i + one.sent.length := by
  obtain ⟨place, sent, hat, hfrom⟩ := run_of_reaches hreaches
  have hrun := hfrom 1 one (hone place hat)
  refine ⟨_, hrun, rfl, ?_⟩
  -- both the run and the attempts before its last turn are counted by the writer
  have hall := framesWritten_of_run hrun
  have hlast := framesWritten_of_run (hone place hat)
  have hreached := framesWritten_of_reaches hreaches
  dsimp only at hall ⊢
  omega

/-- **A feed that breaks off fails**, after the attempts that arrived and, unless it was for want of
a timestamp, one more. -/
theorem failsWithin_of_stops {i bound : Nat} {last w' : Writer σ} {made more : List Call}
    {failure : Failure} (hne : feed.images ≠ [])
    (hreaches : feed.Reaches sink (fun _ _ => true) w i last made)
    (hstops : feed.Stops sink (fun _ _ => true) i last (.error failure) w' more)
    (hle : i ≤ bound) (hlt : ∀ image pts, feed.Due i image pts → i < bound) :
    feed.FailsWithin sink w bound := by
  cases hstops with
  | overflow hthrough _ hover =>
    obtain ⟨ended, hrun, hresult, hsent⟩ := exists_run_of_reaches hreaches fun place hat =>
      run_one_of_overflows hat hne hthrough rfl hover
    refine ⟨ended, _, fun turns hturns => run_mono hrun (by omega), hresult, ?_⟩
    rw [Ended.attempts, hresult]
    rw [List.length_nil] at hsent
    dsimp only
    omega
  | @failed image pts e w' more _ hthrough _ hdue hwrite _ =>
    obtain ⟨ended, hrun, hresult, hsent⟩ := exists_run_of_reaches hreaches fun place hat =>
      run_one_of_failed hat hthrough rfl hdue hwrite
    have hmore := hlt image pts hdue
    refine ⟨ended, _, fun turns hturns => run_mono hrun (by omega), hresult, ?_⟩
    rw [Ended.attempts, hresult]
    rw [List.length_nil] at hsent
    dsimp only
    omega

/-! ### Going on or breaking off -/

/-- A list that is repeated is never through. -/
theorem not_through (hloop : feed.schedule.loop = true) (i : Nat) : ¬ feed.Through i := by
  intro hthrough
  rw [Through, hloop] at hthrough
  exact Bool.noConfusion hthrough.1

/-- **An attempt arrives or breaks the feed off**: there is always something due, and sending it
returns. -/
theorem reaches_succ_or_stops (hne : feed.images ≠ []) (hloop : feed.schedule.loop = true)
    (hpatience : ∀ s, I + J + K ≤ sink.patience s)
    (hretries : ∀ calls, feed.Makes sink w calls → RetriesWithin I J K calls) {i : Nat}
    {last : Writer σ} {made : List Call}
    (hreaches : feed.Reaches sink (fun _ _ => true) w i last made) :
    (∃ w' more, feed.Reaches sink (fun _ _ => true) w (i + 1) w' (made ++ more)) ∨
      ∃ failure w' more, feed.Stops sink (fun _ _ => true) i last (.error failure) w' more := by
  have hthrough := not_through hloop i
  by_cases hover : feed.Overflows i
  · exact Or.inr ⟨_, _, _, .overflow hthrough rfl hover⟩
  · obtain ⟨image, pts, hdue⟩ := exists_due hne hover
    have hwithin : ∀ n, RetriesWithin I J K
        (Offering.byPiece.attempt last.limit sink ⟨image.jpeg, pts⟩ last.sink n) := fun n =>
      (hretries _ (.sending n hreaches hdue)).of_sublist (List.sublist_append_right made _)
    obtain ⟨⟨result, s', calls⟩, hsent, -⟩ :=
      exists_send_of_retriesWithin (hpatience last.sink) hwithin
    have hwrite : last.writeFrame .byPiece sink ⟨image.jpeg, pts⟩ =
        some ⟨result, ⟨last.limit, s', last.framesWritten + if result.isOk then 1 else 0⟩,
          calls⟩ := by
      rw [Writer.writeFrame, hsent]
      rfl
    cases result with
    | ok arrived => exact Or.inl ⟨_, _, hreaches.next hthrough rfl hdue hwrite⟩
    | error e =>
      exact Or.inr ⟨_, _, _, .failed hthrough rfl hdue hwrite (EncodeError.reported_iff.mpr rfl)⟩

/-- **A feed reaches any number of attempts, or breaks off before.** -/
theorem reaches_or_stops (hne : feed.images ≠ []) (hloop : feed.schedule.loop = true)
    (hpatience : ∀ s, I + J + K ≤ sink.patience s)
    (hretries : ∀ calls, feed.Makes sink w calls → RetriesWithin I J K calls) (n : Nat) :
    (∃ last made, feed.Reaches sink (fun _ _ => true) w n last made) ∨
      ∃ i last made failure w' more, i < n ∧
        feed.Reaches sink (fun _ _ => true) w i last made ∧
        feed.Stops sink (fun _ _ => true) i last (.error failure) w' more := by
  induction n with
  | zero => exact Or.inl ⟨w, [], .start⟩
  | succ n ih =>
    rcases ih with ⟨last, made, hreaches⟩ | ⟨i, last, made, failure, w', more, hi, hstops⟩
    · rcases reaches_succ_or_stops hne hloop hpatience hretries hreaches with
        ⟨w', more, hnext⟩ | ⟨failure, w', more, hstops⟩
      · exact Or.inl ⟨w', _, hnext⟩
      · exact Or.inr ⟨n, last, made, failure, w', more, Nat.lt_succ_self n, hreaches, hstops⟩
    · exact Or.inr ⟨i, last, made, failure, w', more, Nat.lt_succ_of_lt hi, hstops⟩

/-! ### What is used up -/

/-- **Every attempt that arrived put its message on the sink**, which is thirty-eight bytes long at
least. -/
theorem length_taken_of_reaches {running : Nat → σ → Bool} {i : Nat} {last : Writer σ}
    {made : List Call} (h : feed.Reaches sink running w i last made) :
    38 * i ≤ (taken made).length := by
  induction h with
  | start => exact Nat.le_refl 0
  | @next i last w' made more image pts _ _ _ _ hwrite ih =>
    have houtcome := outcome_of_writeFrame hwrite
    have htaken : taken more = message ⟨image.jpeg, pts⟩ := by
      cases houtcome with
      | arrived _ htaken _ => exact htaken
    have hlength := length_message ⟨image.jpeg, pts⟩
    rw [taken_append, List.length_append, htaken]
    omega

/-- **Every attempt that is made has a timestamp**, so the steps up to it fit between two of
them. -/
theorem le_of_due {i : Nat} {image : Image} {pts : Int64} (hstep : feed.schedule.step ≠ 0)
    (hdue : feed.Due i image pts) :
    i ≤ 0xFFFF_FFFF_FFFF_FFFF / feed.schedule.step.toInt.natAbs := by
  have least : Int64.minValue.toInt = -9223372036854775808 := rfl
  have greatest : Int64.maxValue.toInt = 9223372036854775807 := rfl
  have hpos : 0 < feed.schedule.step.toInt.natAbs := by
    rw [Int.natAbs_pos]
    intro hzero
    exact hstep (Int64.toInt_inj.mp hzero)
  have hstart := feed.schedule.start.minValue_le_toInt
  have hstart' := feed.schedule.start.toInt_le
  have hpts := pts.minValue_le_toInt
  have hpts' := pts.toInt_le
  have hsteps : (i * feed.schedule.step.toInt).natAbs = i * feed.schedule.step.toInt.natAbs := by
    rw [Int.natAbs_mul, Int.natAbs_natCast]
  have hstamp := hdue.2
  rw [stamp] at hstamp
  rw [Nat.le_div_iff_mul_le hpos, ← hsteps]
  omega

/-- **A feed over a sink that takes no more than `L` bytes** fails when it has made one attempt more
than there is room for. -/
theorem failsWithin_of_length_taken_le (hne : feed.images ≠ [])
    (hloop : feed.schedule.loop = true) (hpatience : ∀ s, I + J + K ≤ sink.patience s)
    (hretries : ∀ calls, feed.Makes sink w calls → RetriesWithin I J K calls) {L : Nat}
    (hroom : ∀ calls, feed.Makes sink w calls → (taken calls).length ≤ L) :
    feed.FailsWithin sink w (L / 38 + 1) := by
  rcases reaches_or_stops hne hloop hpatience hretries (L / 38 + 1) with
    ⟨last, made, hreaches⟩ | ⟨i, last, made, failure, w', more, hi, hreaches, hstops⟩
  · have htaken := length_taken_of_reaches hreaches
    have hle := hroom made (.reached hreaches)
    omega
  · exact failsWithin_of_stops hne hreaches hstops (Nat.le_of_lt hi) fun _ _ _ => hi

/-- **A feed whose timestamps move** fails when they are used up, if not before. -/
theorem failsWithin_of_step_ne_zero (hne : feed.images ≠ [])
    (hloop : feed.schedule.loop = true) (hpatience : ∀ s, I + J + K ≤ sink.patience s)
    (hretries : ∀ calls, feed.Makes sink w calls → RetriesWithin I J K calls)
    (hstep : feed.schedule.step ≠ 0) :
    feed.FailsWithin sink w (0xFFFF_FFFF_FFFF_FFFF / feed.schedule.step.toInt.natAbs + 1) := by
  rcases reaches_or_stops hne hloop hpatience hretries
      (0xFFFF_FFFF_FFFF_FFFF / feed.schedule.step.toInt.natAbs + 2) with
    ⟨last, made, hreaches⟩ | ⟨i, last, made, failure, w', more, hi, hreaches, hstops⟩
  · -- the attempt before was made, so it had a timestamp
    cases hreaches with
    | next _ _ _ hdue _ => exact absurd (le_of_due hstep hdue) (Nat.not_succ_le_self _)
  · exact failsWithin_of_stops hne hreaches hstops (Nat.le_of_lt_succ hi) fun _ _ hdue =>
      Nat.lt_succ_of_le (le_of_due hstep hdue)

/-! ### The calls of a run that returns -/

/-- A run that returns goes through every place that the attempts come to. -/
theorem exists_rest_of_reaches {running : Nat → σ → Bool} {i turns : Nat} {last : Writer σ}
    {made : List Call} {ended : Ended σ} (hreaches : feed.Reaches sink running w i last made)
    (h : feed.run sink running turns feed.start w = some ended) :
    ∃ place more rest, feed.At i place ∧ feed.run sink running more place last = some rest ∧
      ended.calls = made ++ rest.calls := by
  induction hreaches with
  | start => exact ⟨feed.start, turns, ended, at_start feed, h, rfl⟩
  | @next i last w' made calls image pts _ hthrough hrunning hdue hwrite ih =>
    obtain ⟨place, more, rest, hat, hrun, hcalls⟩ := ih
    obtain ⟨later, hlater, hturn⟩ := turn_of_due hat hthrough hdue
    cases more with
    | zero => cases hrun
    | succ more =>
      rw [run, hat.made_eq, hrunning, hturn] at hrun
      dsimp only at hrun
      rw [Image.frame, hwrite] at hrun
      obtain ⟨rest', hrest', rfl⟩ := Option.map_eq_some_iff.mp hrun
      exact ⟨later, more, rest', hlater, hrest', by rw [hcalls, List.append_assoc]⟩

/-- **What a feed has made at some moment is the beginning of what it makes.** -/
theorem Makes.isPrefix (hloop : feed.schedule.loop = true) {calls : List Call} {ended : Ended σ}
    (turns : Nat) (hmakes : feed.Makes sink w calls)
    (h : feed.run sink (fun _ _ => true) turns feed.start w = some ended) :
    calls <+: ended.calls := by
  cases hmakes with
  | reached hreaches =>
    obtain ⟨-, -, rest, -, -, hcalls⟩ := exists_rest_of_reaches hreaches h
    exact ⟨rest.calls, hcalls.symm⟩
  | @sending i last made image pts n hreaches hdue =>
    obtain ⟨place, more, rest, hat, hrun, hcalls⟩ := exists_rest_of_reaches hreaches h
    obtain ⟨later, -, hturn⟩ := turn_of_due hat (not_through hloop i) hdue
    rw [hcalls]
    refine (List.prefix_append_right_inj made).mpr ?_
    -- the calls of this attempt come first in the rest, whether or not the frame arrives
    have hfirst : ∀ {o : Writer.Stepped σ},
        last.writeFrame .byPiece sink ⟨image.jpeg, pts⟩ = some o →
          Offering.byPiece.attempt last.limit sink ⟨image.jpeg, pts⟩ last.sink n <+: o.calls := by
      intro o ho
      obtain ⟨sent, hsent, rfl⟩ := Option.map_eq_some_iff.mp ho
      exact (attempt_of_send hsent).1 n
    cases more with
    | zero => cases hrun
    | succ more =>
      rw [run, hturn] at hrun
      dsimp only at hrun
      split at hrun
      next => cases hrun
      next hwrite =>
        cases hrun
        exact hfirst hwrite
      next hwrite =>
        obtain ⟨rest', -, rfl⟩ := Option.map_eq_some_iff.mp hrun
        exact (hfirst hwrite).trans (List.prefix_append _ _)

end Feed

/-! ## How soon it is over -/

/-- **Sending ends by itself.** Let a caller sit through the retries there are. Then sending a
frame, piece by piece or through a composer, returns after at most one answered write for each byte
of the message and each interrupted write, and one answered flush more than were interrupted. And a
feed that repeats its images and is never told to stop fails: over a sink that takes no more than
`L` bytes within `L / 38 + 1` attempts, and over any sink, if its timestamps move at all, within as
many as there are steps between the first timestamp and the last, and one more. -/
theorem ends_by_itself (sink : Sink σ) {I J K patience : Nat} (hpatience : I + J + K ≤ patience) :
    (∀ limit f s,
        (∀ n, RetriesWithin I J K
          (Offering.byPiece.attempt limit (sink.waiting patience) f s n)) →
        ∃ sent, send .byPiece limit (sink.waiting patience) f s = some sent ∧
          sent.calls.countP Call.isWrite ≤ (message f).length + I ∧
          sent.calls.countP Call.isFlush ≤ J + 1) ∧
      (∀ (c : Composer σ) f,
        (∀ n, RetriesWithin I J K
          (Offering.whole.attempt c.limit (sink.waiting patience) f c.sink n)) →
        ∃ o, c.writeFrame (sink.waiting patience) f = some o ∧
          o.calls.countP Call.isWrite ≤ (message f).length + I ∧
          o.calls.countP Call.isFlush ≤ J + 1) ∧
      ∀ (feed : Feed) w, feed.images ≠ [] → feed.schedule.loop = true →
        (∀ calls, feed.Makes (sink.waiting patience) w calls → RetriesWithin I J K calls) →
        (∀ L, (∀ calls, feed.Makes (sink.waiting patience) w calls → (taken calls).length ≤ L) →
          feed.FailsWithin (sink.waiting patience) w (L / 38 + 1)) ∧
        (feed.schedule.step ≠ 0 →
          feed.FailsWithin (sink.waiting patience) w
            (0xFFFF_FFFF_FFFF_FFFF / feed.schedule.step.toInt.natAbs + 1)) := by
  refine ⟨fun limit f s => exists_send_of_retriesWithin hpatience,
    fun c f => Composer.exists_writeFrame_of_retriesWithin hpatience,
    fun feed w hne hloop hretries => ⟨fun L => ?_, ?_⟩⟩
  · exact Feed.failsWithin_of_length_taken_le hne hloop (fun _ => hpatience) hretries
  · exact Feed.failsWithin_of_step_ne_zero hne hloop (fun _ => hpatience) hretries

/-- A sink with room for a hundred bytes, which once interrupts a write and a flush and once is not
ready: it takes two empty pictures of a feed whose time stands still, and the third breaks off. A
feed that goes a quarter of all timestamps at a step makes four attempts. -/
theorem ends_by_itself_hundred_bytes :
    ∃ (store : Store Script) (still moving : Feed),
      store = ⟨#[], { writes := [.fail (.ofKind .interrupted), .notReady, .upTo 3],
                      flushes := [.failed (.ofKind .interrupted)], limit := some 100,
                      whenFull := .fail (.ofKind .brokenPipe) }⟩ ∧
      still = ⟨[⟨"a", []⟩], ⟨0, 0, none, true⟩⟩ ∧
      moving = ⟨[⟨"a", []⟩, ⟨"b", [0x01]⟩], ⟨Int64.minValue, 0x4000000000000000, none, true⟩⟩ ∧
      (∃ sent, send .byPiece maxDocumentSize (Script.sink.waiting 3) ⟨[0x01], -1⟩ store =
          some sent ∧
        sent.calls.countP Call.isWrite ≤ (message ⟨[0x01], -1⟩).length + 1 ∧
        sent.calls.countP Call.isFlush ≤ 1 + 1) ∧
      (∃ o, (Composer.new store maxDocumentSize).writeFrame (Script.sink.waiting 3) ⟨[0x01], -1⟩ =
          some o ∧
        o.calls.countP Call.isWrite ≤ (message ⟨[0x01], -1⟩).length + 1 ∧
        o.calls.countP Call.isFlush ≤ 1 + 1) ∧
      still.FailsWithin (Script.sink.waiting 3) (Writer.new store maxDocumentSize) 3 ∧
      moving.FailsWithin (Script.sink.waiting 3) (Writer.new ⟨#[], {}⟩ maxDocumentSize) 4 := by
  obtain ⟨store, hstore⟩ : ∃ store : Store Script, store =
      ⟨#[], { writes := [.fail (.ofKind .interrupted), .notReady, .upTo 3],
              flushes := [.failed (.ofKind .interrupted)], limit := some 100,
              whenFull := .fail (.ofKind .brokenPipe) }⟩ := ⟨_, rfl⟩
  obtain ⟨still, hstill⟩ : ∃ feed : Feed, feed = ⟨[⟨"a", []⟩], ⟨0, 0, none, true⟩⟩ := ⟨_, rfl⟩
  obtain ⟨moving, hmoving⟩ : ∃ feed : Feed, feed =
      ⟨[⟨"a", []⟩, ⟨"b", [0x01]⟩], ⟨Int64.minValue, 0x4000000000000000, none, true⟩⟩ := ⟨_, rfl⟩
  obtain ⟨hsend, hcompose, hfeed⟩ :=
    ends_by_itself Script.sink (show 1 + 1 + 1 ≤ 3 from Nat.le_refl 3)
  refine ⟨store, still, moving, hstore, hstill, hmoving, hsend _ _ _ fun n => ?_,
    hcompose _ _ fun n => ?_, ?_, ?_⟩
  · subst hstore
    exact RetriesWithin.of_sublist ⟨by decide, by decide, by decide⟩
      ((attempt_of_send rfl).1 n).sublist
  · subst hstore
    exact RetriesWithin.of_sublist ⟨by decide, by decide, by decide⟩
      ((attempt_of_send rfl).1 n).sublist
  · -- what is made before the feed breaks off is the beginning of the calls that it makes in all
    have hmade : ∀ calls, still.Makes (Script.sink.waiting 3) (Writer.new store maxDocumentSize)
        calls → ∃ all, calls <+: all ∧ RetriesWithin 1 1 1 all ∧ (taken all).length ≤ 100 := by
      subst hstore hstill
      intro calls hmakes
      exact ⟨_, Feed.Makes.isPrefix rfl 3 hmakes rfl, ⟨by decide, by decide, by decide⟩, by decide⟩
    refine (hfeed still _ (by simp [hstill]) (by rw [hstill]) fun calls hmakes => ?_).1 100
      fun calls hmakes => ?_
    · obtain ⟨all, hbegins, hwithin, -⟩ := hmade calls hmakes
      exact hwithin.of_sublist hbegins.sublist
    · obtain ⟨all, ⟨later, rfl⟩, -, hroom⟩ := hmade calls hmakes
      rw [taken_append, List.length_append] at hroom
      omega
  · have hstep : 0xFFFF_FFFF_FFFF_FFFF / moving.schedule.step.toInt.natAbs + 1 = 4 := by
      rw [hmoving]
      rfl
    rw [← hstep]
    refine (hfeed moving _ (by simp [hmoving]) (by rw [hmoving]) fun calls hmakes => ?_).2
      (by rw [hmoving]; decide)
    subst hmoving
    exact RetriesWithin.of_sublist ⟨by decide, by decide, by decide⟩
      (Feed.Makes.isPrefix rfl 5 hmakes rfl).sublist

end FrameFeed
