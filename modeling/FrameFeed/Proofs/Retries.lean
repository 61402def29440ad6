import FrameFeed.Proofs.Composing
/-!
# Answers that ask for the same call again

An interrupted call and one that finds the sink not ready are made again and leave no other mark. A
script from which such answers are taken out (`Script.prompt`) comes to the same results, holds the
same bytes and sees the same calls, less those that were made in vain; and it does so after every
step of a session, since a script that is followed stays the shorter script of what is left.

No other answer is followed by a further call of the same step, unless it took bytes: a fault that
is not an interruption ends the step and is what the step reports (`Heeds`).

Main statements: `deliver_prompt`, one delivery, `Writer.step_prompt`, one step,
`Writer.heeds_of_step`, the faults of a step, and `Writer.retries_unseen`, whole sessions with
either kind of writer.
-/

namespace FrameFeed

open Wire

/-! ## Scripts without retries -/

/-- Whether an action asks for the same call again. -/
def Action.again : Action → Bool
  | all => false
  | upTo _ => false
  | notReady => true
  | fail fault => fault.isInterrupted

/-- A script without the listed answers that ask for the same call again. -/
def Script.prompt (script : Script) : Script :=
  { script with
    writes := script.writes.filter (!·.again)
    flushes := script.flushes.filter (!·.again) }

/-- A store whose script is without them. -/
def Store.prompt (s : Store Script) : Store Script := { s with behaviour := s.behaviour.prompt }

/-- How often the listed answers ask for the same call again. -/
def Store.retries (s : Store Script) : Nat :=
  s.behaviour.writes.countP (·.again) + s.behaviour.flushes.countP (·.again)

/-- What a script keeps for being full does not ask for the same call again. -/
def Store.Decided (s : Store Script) : Prop := s.behaviour.whenFull.again = false

/-- An action's answer asks for the same call again just when the action does. -/
theorem Action.again_answer (action : Action) (offer : List UInt8) :
    (action.answer offer).again = action.again := by
  cases action <;> rfl

theorem Script.again_bite (script : Script) : script.bite.again = false := by
  rw [bite]
  cases script.chunk <;> rfl

/-- Once the listed answers are used up, no write is asked for again. -/
theorem Script.again_later {script : Script} (h : script.whenFull.again = false)
    (held : Array UInt8) (offer : List UInt8) : (script.later held offer).again = false := by
  rw [later]
  cases script.limit with
  | none => exact (Action.again_answer _ _).trans script.again_bite
  | some limit =>
    dsimp only
    split
    · exact (Action.again_answer _ _).trans h
    · exact (Action.again_answer _ _).trans script.again_bite

/-- **A write is made in vain and leaves the same shorter script, or is answered by the shorter
script as well.** A write made in vain uses up one retry, and no other write does. -/
theorem Store.write_prompt {s s' : Store Script} {offer : List UInt8} {answer : WriteAnswer}
    (hs : s.Decided) (h : Script.sink.write offer s = (answer, s')) :
    s'.Decided ∧ s'.retries + answer.again.toNat = s.retries ∧
      (answer.again = true ∧ s'.prompt = s.prompt ∨
        answer.again = false ∧ Script.sink.write offer s.prompt = (answer, s'.prompt)) := by
  obtain ⟨held, writes, flushes, chunk, limit, whenFull, flushed⟩ := s
  cases writes with
  | nil =>
    cases h
    have hagain := Script.again_later hs held offer
    exact ⟨hs, congrArg (_ + ·.toNat) hagain, Or.inr ⟨hagain, rfl⟩⟩
  | cons action writes =>
    cases h
    refine ⟨hs, ?_⟩
    dsimp only [Script.write, Store.retries]
    rw [Action.again_answer, List.countP_cons]
    cases hagain : action.again with
    | true =>
      refine ⟨Nat.add_right_comm .., Or.inl ⟨rfl, ?_⟩⟩
      -- such an answer takes nothing, so the bytes held are the same too
      have htaken : (Call.write offer (action.answer offer)).taken = [] :=
        Call.taken_of_again ((action.again_answer offer).trans hagain)
      simp [Store.prompt, Script.prompt, htaken, hagain]
    | false =>
      refine ⟨rfl, Or.inr ⟨rfl, ?_⟩⟩
      simp [Store.prompt, Script.prompt, Script.sink, Behaviour.sink, Script.behaviour,
        Script.write, hagain]

/-- And so it is with a flush. -/
theorem Store.flush_prompt {s s' : Store Script} {answer : FlushAnswer} (hs : s.Decided)
    (h : Script.sink.flush s = (answer, s')) :
    s'.Decided ∧ s'.retries + answer.again.toNat = s.retries ∧
      (answer.again = true ∧ s'.prompt = s.prompt ∨
        answer.again = false ∧ Script.sink.flush s.prompt = (answer, s'.prompt)) := by
  obtain ⟨held, writes, flushes, chunk, limit, whenFull, flushed⟩ := s
  cases flushes with
  | nil =>
    cases h
    exact ⟨hs, rfl, Or.inr ⟨rfl, rfl⟩⟩
  | cons _ flushes =>
    cases h
    dsimp only [Script.flush]
    by_cases hdone : answer = .done
    · subst hdone
      exact ⟨hs, rfl, Or.inr ⟨rfl, rfl⟩⟩
    · rw [if_neg hdone]
      refine ⟨hs, ?_⟩
      dsimp only [Store.retries]
      rw [List.countP_cons]
      cases hagain : answer.again with
      | true =>
        exact ⟨Nat.add_assoc .., Or.inl ⟨rfl, by simp [Store.prompt, Script.prompt, hagain]⟩⟩
      | false =>
        refine ⟨rfl, Or.inr ⟨rfl, ?_⟩⟩
        simp [Store.prompt, Script.prompt, Script.sink, Behaviour.sink, Script.behaviour,
          Script.flush, hagain, hdone]

/-! ## Deliveries -/

/-- A delivery that is asked for a call again goes on as it was. -/
theorem Reacts.eq_goOn_of_again {ps : List Piece} {call : Call} {reaction : Reaction}
    (h : Reacts ps call reaction) (hagain : call.again = true) : reaction = .goOn ps := by
  cases h with
  | took n => cases hagain
  | again ha => rfl
  | @cutOff p ps answer fault hf =>
    have hdecided : (Call.write p.bytes answer).again = false := Call.again_of_fault? hf
    rw [hagain] at hdecided
    cases hdecided
  | flushed => cases hagain
  | flushAgain ha => rfl
  | @unflushed answer fault hf =>
    have hdecided : (Call.flush answer).again = false := Call.again_of_fault? hf
    rw [hagain] at hdecided
    cases hdecided

/-- **A call is made in vain, or made with the shorter script as well.** -/
theorem nextCall_prompt {s s' : Store Script} {ps : List Piece} {call : Call}
    {reaction : Reaction} (hs : s.Decided)
    (h : nextCall Script.sink s ps = (reaction, s', call)) :
    s'.Decided ∧ (call.again = true ∧ reaction = .goOn ps ∧ s'.prompt = s.prompt ∨
      call.again = false ∧ nextCall Script.sink s.prompt ps = (reaction, s'.prompt, call)) := by
  have hr := (reacts_nextCall h).1
  cases ps with
  | nil =>
    obtain ⟨rfl, rfl, rfl⟩ : _ ∧ _ ∧ _ := by simpa [nextCall] using h
    obtain ⟨hs', -, ⟨hagain, hsame⟩ | ⟨hagain, hflush⟩⟩ := Store.flush_prompt hs (Prod.eta _).symm
    · exact ⟨hs', Or.inl ⟨hagain, hr.eq_goOn_of_again hagain, hsame⟩⟩
    · exact ⟨hs', Or.inr ⟨hagain, by rw [nextCall, hflush]⟩⟩
  | cons p ps =>
    obtain ⟨rfl, rfl, rfl⟩ : _ ∧ _ ∧ _ := by simpa [nextCall] using h
    obtain ⟨hs', -, ⟨hagain, hsame⟩ | ⟨hagain, hwrite⟩⟩ := Store.write_prompt hs (Prod.eta _).symm
    · exact ⟨hs', Or.inl ⟨hagain, hr.eq_goOn_of_again hagain, hsame⟩⟩
    · exact ⟨hs', Or.inr ⟨hagain, by rw [nextCall, hwrite]⟩⟩

/-- A delivery without the calls that were made in vain. -/
def Delivered.prompt (d : Delivered (Store Script)) : Delivered (Store Script) :=
  ⟨d.ending, d.sink.prompt, d.calls.filter (!·.again)⟩

/-- **Taking out the answers that ask for the same call again takes out the calls they answered**,
and nothing else about a delivery. -/
theorem deliver_prompt {calls : Nat} {ps : List Piece} {s : Store Script}
    {d : Delivered (Store Script)} (hs : s.Decided) (h : deliver Script.sink calls ps s = some d) :
    d.sink.Decided ∧ deliver Script.sink calls ps s.prompt = some d.prompt := by
  induction calls generalizing ps s d with
  | zero => cases h
  | succ calls ih =>
    rw [deliver_succ] at h
    split at h
    next ending s' call hnext =>
      cases h
      obtain ⟨hs', ⟨-, hgoOn, -⟩ | ⟨hagain, hnext'⟩⟩ := nextCall_prompt hs hnext
      · cases hgoOn
      · refine ⟨hs', ?_⟩
        rw [deliver_succ, hnext']
        simp [Delivered.prompt, hagain]
    next left s' call hnext =>
      obtain ⟨d', hd', rfl⟩ := Option.map_eq_some_iff.mp h
      obtain ⟨hs', ⟨hagain, hgoOn, hsame⟩ | ⟨hagain, hnext'⟩⟩ := nextCall_prompt hs hnext
      · -- the call was made in vain: the shorter script is still where it was
        cases hgoOn
        obtain ⟨hend, hrest⟩ := ih hs' hd'
        rw [hsame] at hrest
        refine ⟨hend, (deliver_mono hrest (Nat.le_succ calls)).trans ?_⟩
        simp [Delivered.prompt, hagain]
      · obtain ⟨hend, hrest⟩ := ih hs' hd'
        refine ⟨hend, ?_⟩
        rw [deliver_succ, hnext']
        simp only [hrest, Option.map_some]
        simp [Delivered.prompt, hagain]

/-! ## Deliveries that end -/

/-- **A script asks for the same call again no more often than it has such answers listed.** -/
theorem Script.patient : Script.sink.Patient Store.Decided Store.retries := by
  intro call s s' hs _ ht
  cases ht with
  | write hw hnil =>
    cases hnil
    obtain ⟨hs', hretries, -⟩ := Store.write_prompt hs hw
    exact ⟨hs', Nat.le_of_eq hretries⟩
  | flush hf hnil =>
    cases hnil
    obtain ⟨hs', hretries, -⟩ := Store.flush_prompt hs hf
    exact ⟨hs', Nat.le_of_eq hretries⟩

/-- A delivery to a script ends. -/
theorem Store.Decided.exists_deliverAll {s : Store Script} (hs : s.Decided) (ps : List Piece) :
    ∃ d, deliverAll Script.sink ps s = some d := by
  refine exists_deliver Script.patient hs (by simp) ?_
  have hretries : s.retries ≤ Script.sink.patience s :=
    Nat.add_le_add List.countP_le_length List.countP_le_length
  rw [bytesOf_filter]
  omega

/-- **A delivery ends with either script, and comes to the same** but for the calls made in
vain. -/
theorem Store.Decided.deliverAll_prompt {s : Store Script} (hs : s.Decided) (ps : List Piece) :
    ∃ d, deliverAll Script.sink ps s = some d ∧ d.sink.Decided ∧
      deliverAll Script.sink ps s.prompt = some d.prompt := by
  obtain ⟨d, hd⟩ := hs.exists_deliverAll ps
  obtain ⟨d', hd'⟩ := Store.Decided.exists_deliverAll (s := s.prompt) hs ps
  obtain ⟨hend, hprompt⟩ := deliver_prompt hs hd
  refine ⟨d, hd, hend, ?_⟩
  -- both are what the greater of the two numbers of calls comes to
  have hsame := (deliver_mono hprompt (Nat.le_max_left _ _)).symm.trans
    (deliver_mono hd' (Nat.le_max_right _ _))
  rw [hd', Option.some.inj hsame]

/-! ## Sessions -/

/-- A frame, or a flush, without the calls that were made in vain. -/
def Sent.prompt (sent : Sent (Store Script)) : Sent (Store Script) :=
  ⟨sent.result, sent.sink.prompt, sent.calls.filter (!·.again)⟩

/-- Sending a frame comes to the same. -/
theorem send_prompt (offering : Offering) (limit : Nat) (f : Frame) {s : Store Script}
    (hs : s.Decided) :
    ∃ sent, send offering limit Script.sink f s = some sent ∧ sent.sink.Decided ∧
      send offering limit Script.sink f s.prompt = some sent.prompt := by
  by_cases hfits : f.Fits limit
  · obtain ⟨d, hd, hend, hprompt⟩ := hs.deliverAll_prompt (offering.pieces f)
    exact ⟨_, send_of_fits hfits hd, hend, send_of_fits hfits hprompt⟩
  · have hlarge : cap limit < 34 + f.jpegSize := Nat.lt_of_not_le hfits
    exact ⟨_, send_frameTooLarge hlarge, hs, send_frameTooLarge hlarge⟩

/-- And so does a flush. -/
theorem flush_prompt {s : Store Script} (hs : s.Decided) :
    ∃ sent, flush Script.sink s = some sent ∧ sent.sink.Decided ∧
      flush Script.sink s.prompt = some sent.prompt := by
  obtain ⟨d, hd, hend, hprompt⟩ := hs.deliverAll_prompt []
  exact ⟨⟨d.ending.result (·.phase), d.sink, d.calls⟩, by rw [flush, hd]; rfl, hend,
    by rw [flush, hprompt]; rfl⟩

namespace Writer

/-- A writer over the shorter script. -/
def prompt (w : Writer (Store Script)) : Writer (Store Script) := { w with sink := w.sink.prompt }

/-- A step without the calls that were made in vain: the same result, the same bytes held and the
same count. -/
def Stepped.prompt (o : Stepped (Store Script)) : Stepped (Store Script) :=
  ⟨o.result, o.writer.prompt, o.calls.filter (!·.again)⟩

/-- **A step comes to the same** over the shorter script, and leaves it what is left of it. -/
theorem step_prompt (offering : Offering) {w : Writer (Store Script)} (hw : w.sink.Decided)
    {step : Step (Store Script)} (hstep : ∀ change, step ≠ .adjust change) :
    ∃ o, w.step offering Script.sink step = some o ∧ o.writer.sink.Decided ∧
      w.prompt.step offering Script.sink step = some o.prompt := by
  cases step with
  | writeFrame f =>
    obtain ⟨sent, hsent, hend, hprompt⟩ := send_prompt offering w.limit f hw
    exact ⟨_, congrArg (Option.map _) hsent, hend, congrArg (Option.map _) hprompt⟩
  | flush =>
    obtain ⟨sent, hsent, hend, hprompt⟩ := flush_prompt hw
    exact ⟨_, congrArg (Option.map _) hsent, hend, congrArg (Option.map _) hprompt⟩
  | sendApart limit f =>
    obtain ⟨sent, hsent, hend, hprompt⟩ := send_prompt .byPiece limit f hw
    exact ⟨_, congrArg (Option.map _) hsent, hend, congrArg (Option.map _) hprompt⟩
  | adjust change => exact absurd rfl (hstep change)

/-- **And so does a session.** -/
theorem run_prompt (offering : Offering) {w : Writer (Store Script)} (hw : w.sink.Decided)
    {steps : List (Step (Store Script))}
    (hsteps : ∀ step ∈ steps, ∀ change, step ≠ .adjust change) :
    ∃ os, w.run offering Script.sink steps = some os ∧
      w.prompt.run offering Script.sink steps = some (os.map Stepped.prompt) := by
  induction steps generalizing w with
  | nil => exact ⟨[], rfl, rfl⟩
  | cons step steps ih =>
    obtain ⟨o, ho, hend, hprompt⟩ :=
      step_prompt offering hw (hsteps step List.mem_cons_self)
    obtain ⟨os, hos, hrest⟩ := ih hend fun step hmem => hsteps step (List.mem_cons_of_mem _ hmem)
    exact ⟨o :: os, run_cons_of_step ho hos, run_cons_of_step hprompt hrest⟩

end Writer

namespace Composer

/-- A composer over the shorter script, with the same buffer. -/
def prompt (c : Composer (Store Script)) : Composer (Store Script) :=
  { c with toWriter := c.toWriter.prompt }

/-- A step without the calls that were made in vain. -/
def Stepped.prompt (o : Stepped (Store Script)) : Stepped (Store Script) :=
  ⟨o.result, o.composer.prompt, o.calls.filter (!·.again)⟩

/-- A frame comes to the same, in the buffer too. -/
theorem writeFrame_prompt {c : Composer (Store Script)} (hc : c.sink.Decided) (f : Frame) :
    ∃ o, c.writeFrame Script.sink f = some o ∧ o.composer.sink.Decided ∧
      c.prompt.writeFrame Script.sink f = some o.prompt := by
  by_cases hfits : f.Fits c.limit
  · obtain ⟨d, hd, hend, hprompt⟩ := hc.deliverAll_prompt (pieces (message f).toArray)
    rw [writeFrame, compose_of_fits hfits, writeFrame,
      compose_of_fits (show f.Fits c.prompt.limit from hfits)]
    exact ⟨_, congrArg (Option.map _) hd, hend, congrArg (Option.map _) hprompt⟩
  · rw [writeFrame, compose_of_not_fits hfits, writeFrame,
      compose_of_not_fits (show ¬ f.Fits c.prompt.limit from hfits)]
    exact ⟨_, rfl, hc, rfl⟩

/-- **A step comes to the same**, with a composer as with a writer. -/
theorem step_prompt {c : Composer (Store Script)} (hc : c.sink.Decided)
    {step : Writer.Step (Store Script)} (hstep : ∀ change, step ≠ .adjust change) :
    ∃ o, c.step Script.sink step = some o ∧ o.composer.sink.Decided ∧
      c.prompt.step Script.sink step = some o.prompt := by
  cases step with
  | writeFrame f => exact writeFrame_prompt hc f
  | flush =>
    obtain ⟨o, ho, hend, hprompt⟩ := Writer.step_prompt .whole hc hstep
    exact ⟨_, congrArg (Option.map _) ho, hend, congrArg (Option.map _) hprompt⟩
  | sendApart limit f =>
    obtain ⟨o, ho, hend, hprompt⟩ := Writer.step_prompt .whole hc hstep
    exact ⟨_, congrArg (Option.map _) ho, hend, congrArg (Option.map _) hprompt⟩
  | adjust change => exact absurd rfl (hstep change)

/-- **And so does a session.** -/
theorem run_prompt {c : Composer (Store Script)} (hc : c.sink.Decided)
    {steps : List (Writer.Step (Store Script))}
    (hsteps : ∀ step ∈ steps, ∀ change, step ≠ .adjust change) :
    ∃ os, c.run Script.sink steps = some os ∧
      c.prompt.run Script.sink steps = some (os.map Stepped.prompt) := by
  induction steps generalizing c with
  | nil => exact ⟨[], rfl, rfl⟩
  | cons step steps ih =>
    obtain ⟨o, ho, hend, hprompt⟩ := step_prompt hc (hsteps step List.mem_cons_self)
    obtain ⟨os, hos, hrest⟩ := ih hend fun step hmem => hsteps step (List.mem_cons_of_mem _ hmem)
    exact ⟨o :: os, run_cons_of_step ho hos, run_cons_of_step hprompt hrest⟩

end Composer

/-! ## Faults are not retried -/

/-- The fault that a result reports. -/
def reportedFault? : Except EncodeError Unit → Option Fault
  | .ok () => none
  | .error e => e.fault?

/-- A call that leaves the caller with a fault is the last of the calls, and that is the fault
reported. -/
def Heeds (calls : List Call) (reported : Option Fault) : Prop :=
  ∀ front call back fault, calls = front ++ call :: back → call.fault? = some fault →
    back = [] ∧ reported = some fault

variable {σ : Type} {sink : Sink σ}

/-- **A delivery heeds the faults of its calls.** -/
theorem heeds_of_deliver {calls : Nat} {ps : List Piece} {s : σ} {d : Delivered σ}
    (h : deliver sink calls ps s = some d) : Heeds d.calls d.ending.fault? := by
  refine deliver_induction (motive := fun _ _ d => Heeds d.calls d.ending.fault?) ?_ ?_ h
  · intro ps s s' call ending hr _ front call' back fault hsplit hf
    cases front with
    | nil =>
      cases hsplit
      exact ⟨rfl, hr.fault?_eq.trans hf⟩
    | cons first front => simp at hsplit
  · intro ps left s s' call d hr _ ih front call' back fault hsplit hf
    cases front with
    | nil =>
      -- the delivery went on after its first call, so that one left no fault
      cases hsplit
      rw [hr.fault?_eq_none] at hf
      cases hf
    | cons first front =>
      obtain ⟨-, hsplit⟩ := List.cons.inj hsplit
      exact ih front call' back fault hsplit hf

theorem Ending.fault?_result (phase : Piece → Phase) (ending : Ending) :
    reportedFault? (ending.result phase) = ending.fault? := by
  cases ending <;> rfl

/-- Where there were no calls, there was no fault. -/
theorem heeds_nil (reported : Option Fault) : Heeds [] reported := by
  intro front call back fault hsplit
  simp at hsplit

/-- Sending a frame heeds them. -/
theorem heeds_of_send {offering : Offering} {limit : Nat} {f : Frame} {s : σ} {sent : Sent σ}
    (h : send offering limit sink f s = some sent) :
    Heeds sent.calls (reportedFault? sent.result) := by
  rw [send] at h
  split at h
  next =>
    cases h
    exact heeds_nil _
  next =>
    obtain ⟨d, hd, rfl⟩ := Option.map_eq_some_iff.mp h
    rw [Ending.fault?_result]
    exact heeds_of_deliver hd

/-- **Every step heeds the faults of its calls**, over any sink. -/
theorem Writer.heeds_of_step {offering : Offering} {w : Writer σ} {step : Step σ} {o : Stepped σ}
    (h : w.step offering sink step = some o) : Heeds o.calls (reportedFault? o.result) := by
  cases step with
  | writeFrame f =>
    obtain ⟨sent, hsent, rfl⟩ := Option.map_eq_some_iff.mp h
    exact heeds_of_send hsent
  | flush =>
    obtain ⟨sent, hsent, rfl⟩ := Option.map_eq_some_iff.mp h
    obtain ⟨d, hd, rfl⟩ := Option.map_eq_some_iff.mp hsent
    rw [Ending.fault?_result]
    exact heeds_of_deliver hd
  | sendApart limit f =>
    obtain ⟨sent, hsent, rfl⟩ := Option.map_eq_some_iff.mp h
    exact heeds_of_send hsent
  | adjust change =>
    cases h
    exact heeds_nil _

theorem Writer.heeds_of_run {offering : Offering} {w : Writer σ} {steps : List (Step σ)}
    {os : List (Stepped σ)} (h : w.run offering sink steps = some os) :
    ∀ o ∈ os, Heeds o.calls (reportedFault? o.result) := by
  induction steps generalizing w os with
  | nil =>
    cases h
    simp
  | cons step steps ih =>
    obtain ⟨o, rest, rfl, ho, hrest⟩ := exists_of_run_cons h
    exact List.forall_mem_cons.mpr ⟨heeds_of_step ho, ih hrest⟩

/-- And so does every step of a session with a composer. -/
theorem Composer.heeds_of_run {c : Composer σ} {steps : List (Writer.Step σ)}
    {os : List (Stepped σ)} (h : c.run sink steps = some os) :
    ∀ o ∈ os, Heeds o.calls (reportedFault? o.result) := by
  have hrun := forget_run sink c steps
  rw [h] at hrun
  intro o ho
  exact Writer.heeds_of_run hrun.symm o.forget (List.mem_map_of_mem ho)

/-! ## Both kinds of writer -/

/-- **Retries are not seen.** Over a script that ends up taking bytes or failing, both kinds of
writer get through any steps that do not reach into the sink. Over the script without the answers
that ask for the same call again they come to the same result, the same bytes held and the same
count after every step, by the same calls less those that were made in vain. A fault that is no
interruption is not followed by another call of its step. -/
theorem Writer.retries_unseen {w : Writer (Store Script)} (buffer : Array UInt8)
    (hw : w.sink.Decided) {steps : List (Step (Store Script))}
    (hsteps : ∀ step ∈ steps, ∀ change, step ≠ .adjust change) :
    (∃ os, w.run .byPiece Script.sink steps = some os ∧
        w.prompt.run .byPiece Script.sink steps = some (os.map Stepped.prompt) ∧
        ∀ o ∈ os, Heeds o.calls (reportedFault? o.result)) ∧
      ∃ cs, (⟨w, buffer⟩ : Composer (Store Script)).run Script.sink steps = some cs ∧
        (⟨w.prompt, buffer⟩ : Composer (Store Script)).run Script.sink steps =
          some (cs.map Composer.Stepped.prompt) ∧
        ∀ c ∈ cs, Heeds c.calls (reportedFault? c.result) := by
  obtain ⟨os, hos, hprompt⟩ := run_prompt .byPiece hw hsteps
  have hc : (⟨w, buffer⟩ : Composer (Store Script)).sink.Decided := hw
  obtain ⟨cs, hcs, hprompt'⟩ := Composer.run_prompt hc hsteps
  exact ⟨⟨os, hos, hprompt, heeds_of_run hos⟩, cs, hcs, hprompt', Composer.heeds_of_run hcs⟩

/-- A frame that is cut off by a sink which would block, after an interruption and a partial write;
a flush that is asked for twice; a frame that arrives in bites of nine bytes, and one that finds no
room. -/
theorem Writer.retries_unseen_would_block :
    ∃ (w : Writer (Store Script)) (steps : List (Step (Store Script))),
      w = .new ⟨#[], { writes := [.fail (.ofKind .interrupted), .upTo 3, .notReady,
                                  .fail (.ofKind .wouldBlock), .notReady, .all],
                       flushes := [.failed (.ofKind .interrupted), .notReady, .done],
                       chunk := some 9, limit := some 60, whenFull := .upTo 0 }⟩ maxDocumentSize ∧
      steps = [.writeFrame ⟨[0x01, 0x02], -1⟩, .flush, .writeFrame ⟨[], 40⟩,
        .writeFrame ⟨[0x03], 80⟩] ∧
      (∃ os, w.run .byPiece Script.sink steps = some os ∧
        w.prompt.run .byPiece Script.sink steps = some (os.map Stepped.prompt) ∧
        os.map (·.result) = [.error (.sinkWrite .framing (.ofKind .wouldBlock)), .ok (), .ok (),
          .error (.sinkWrite .fieldValue (.ofKind .writeZero))] ∧
        (os.map Stepped.prompt).map (·.calls.length) = [2, 1, 13, 7]) ∧
      ∃ cs, (⟨w, #[0xAA]⟩ : Composer (Store Script)).run Script.sink steps = some cs ∧
        (⟨w.prompt, #[0xAA]⟩ : Composer (Store Script)).run Script.sink steps =
          some (cs.map Composer.Stepped.prompt) := by
  obtain ⟨⟨os, hos, hprompt, -⟩, cs, hcs, hprompt', -⟩ := @retries_unseen
    (.new ⟨#[], { writes := [.fail (.ofKind .interrupted), .upTo 3, .notReady,
                             .fail (.ofKind .wouldBlock), .notReady, .all],
                  flushes := [.failed (.ofKind .interrupted), .notReady, .done],
                  chunk := some 9, limit := some 60, whenFull := .upTo 0 }⟩ maxDocumentSize)
    #[0xAA] rfl
    [.writeFrame ⟨[0x01, 0x02], -1⟩, .flush, .writeFrame ⟨[], 40⟩, .writeFrame ⟨[0x03], 80⟩]
    (by simp)
  have hresults := congrArg (Option.map (List.map (·.result))) hos
  have hcalls := congrArg (Option.map (List.map (·.calls.length))) hprompt
  exact ⟨_, _, rfl, rfl,
    ⟨os, hos, hprompt, (Option.some.inj hresults).symm.trans rfl,
      (Option.some.inj hcalls).symm.trans rfl⟩,
    cs, hcs, hprompt'⟩

end FrameFeed
