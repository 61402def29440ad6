import FrameFeed.Proofs.Composing
import FrameFeed.Proofs.Positioned
/-!
# Writers that agree

Over a sink that is positioned by its bytes, two deliveries of the same bytes end in the same place
and in the same way, so a writer that offers a message piece by piece and one that offers it whole
leave such sinks alike, step after step, also after a failure. The calls differ throughout: what is
carried along is that the stores hold the same and will be flushed alike. A composer offers its
messages whole, so it agrees with both.

Main statements: `Behaviour.Follows.deliverAll_alike`, two deliveries, `step_alike`, one step of
two writers, and `Writer.run_byPiece_whole`, any number of them.
-/

namespace FrameFeed

open Wire

variable {β : Type}

/-! ## Two deliveries of the same bytes -/

/-- Endings that differ at most in how what was left is cut. -/
inductive Ending.Alike : Ending → Ending → Prop
  | delivered : Alike .delivered .delivered
  | unflushed (fault : Fault) : Alike (.unflushed fault) (.unflushed fault)
  | cutOff (left left' : Piece) (fault : Fault) : Alike (.cutOff left fault) (.cutOff left' fault)

/-- A delivery that ends before all bytes are taken ends where no byte may be taken. -/
theorem Ending.Settles.cap_eq_zero {P : Positions} {p size k : Nat}
    {before after : List FlushAnswer} {ending : Ending}
    (h : ending.Settles P p size k before after) :
    k ≤ size ∧ (k < size → P.cap (p + k) = some 0) := by
  cases ending with
  | delivered => exact ⟨Nat.le_of_eq h.1, fun hk => absurd h.1 (Nat.ne_of_lt hk)⟩
  | unflushed fault => exact ⟨Nat.le_of_eq h.1, fun hk => absurd h.1 (Nat.ne_of_lt hk)⟩
  | cutOff left fault => exact ⟨Nat.le_of_lt h.1, fun _ => h.2.1⟩

/-- **There is one place to end and one way to do so**, for bytes of one number put on a sink that
holds a given number of them. -/
theorem Ending.Settles.unique {P : Positions} {p size k k' : Nat}
    {before after after' : List FlushAnswer} {ending ending' : Ending} (hopen : P.Open p k)
    (h : ending.Settles P p size k before after) (hopen' : P.Open p k')
    (h' : ending'.Settles P p size k' before after') :
    k = k' ∧ after = after' ∧ ending.Alike ending' := by
  obtain ⟨hle, hstop⟩ := h.cap_eq_zero
  obtain ⟨hle', hstop'⟩ := h'.cap_eq_zero
  have hk : k = k' := by
    -- the nearer of two places would be one where the other delivery has taken a byte
    rcases Nat.lt_trichotomy k k' with hlt | heq | hlt
    · exact absurd (hstop (by omega)) (hopen' k hlt)
    · exact heq
    · exact absurd (hstop' (by omega)) (hopen k' hlt)
  subst hk
  refine ⟨rfl, ?_⟩
  cases ending with
  | delivered =>
    obtain ⟨rfl, hflush⟩ := h
    cases ending' with
    | delivered => exact ⟨congrArg Prod.snd (hflush.symm.trans h'.2), .delivered⟩
    | unflushed fault => cases hflush.symm.trans h'.2
    | cutOff left fault => exact absurd h'.1 (Nat.lt_irrefl k)
  | unflushed fault =>
    obtain ⟨rfl, hflush⟩ := h
    cases ending' with
    | delivered => cases hflush.symm.trans h'.2
    | unflushed fault' =>
      cases hflush.symm.trans h'.2
      exact ⟨rfl, .unflushed fault⟩
    | cutOff left fault => exact absurd h'.1 (Nat.lt_irrefl k)
  | cutOff left fault =>
    obtain ⟨hk, -, hfault, rfl⟩ := h
    cases ending' with
    | delivered => exact absurd h'.1 (Nat.ne_of_lt hk)
    | unflushed fault' => exact absurd h'.1 (Nat.ne_of_lt hk)
    | cutOff left' fault' =>
      obtain ⟨-, -, hfault', rfl⟩ := h'
      rw [hfault] at hfault'
      obtain rfl := Option.some.inj hfault'
      exact ⟨rfl, .cutOff left left' fault⟩

/-- Two stores that a writer cannot tell apart: they hold the same and will be flushed alike. -/
structure Store.Alike (good : β → Prop) (answers : β → List FlushAnswer) (s s' : Store β) :
    Prop where
  held : s.held = s'.held
  answers : answers s.behaviour = answers s'.behaviour
  left_good : good s.behaviour
  right_good : good s'.behaviour

namespace Behaviour.Follows

variable {b : Behaviour β} {P : Positions} {good : β → Prop} {answers : β → List FlushAnswer}

/-- A sink that is positioned by its bytes asks for no write again, and for a flush only as often
as its answers do. -/
theorem patient (hb : b.Follows P good answers) :
    b.sink.Patient (fun s => good s.behaviour)
      (fun s => (answers s.behaviour).countP (·.again)) := by
  intro call s s' hs hoffers ht
  cases call with
  | write offer answer =>
    obtain ⟨-, hs', hkept⟩ := hb.of_write hs hoffers ht
    have hagain : answer.again = false := by
      rcases hb.write_cases hs hoffers ht with ⟨n, -, rfl, -⟩ | ⟨-, rfl⟩
      · rfl
      · exact P.again_stop _
    refine ⟨hs', ?_⟩
    dsimp only
    rw [hkept, Call.again, hagain]
    exact Nat.le_refl _
  | flush answer =>
    obtain ⟨rfl, hs', hrest⟩ := hb.of_flush hs ht
    refine ⟨hs', ?_⟩
    dsimp only
    rw [hrest, Call.again]
    cases answers s.behaviour with
    | nil => exact Nat.le_refl _
    | cons answer rest =>
      rw [List.tail_cons, List.headD_cons, List.countP_cons]
      cases answer.again <;> simp

/-- A delivery to such a sink ends. -/
theorem exists_deliverAll (hb : b.Follows P good answers) (ps : List Piece) {s : Store β}
    (hs : good s.behaviour) : ∃ d, deliverAll b.sink ps s = some d := by
  refine exists_deliver hb.patient hs (by simp) ?_
  have hpatience : (answers s.behaviour).countP (·.again) ≤ b.sink.patience s :=
    hb.patience s.behaviour hs
  rw [bytesOf_filter]
  omega

/-- **Two deliveries of the same bytes end in the same place and alike**, however the bytes are cut
into pieces. -/
theorem deliverAll_alike (hb : b.Follows P good answers) (ps ps' : List Piece) {s s' : Store β}
    (hs : s.Alike good answers s') (hbytes : bytesOf ps = bytesOf ps') :
    ∃ d d', deliverAll b.sink ps s = some d ∧ deliverAll b.sink ps' s' = some d' ∧
      taken d.calls = taken d'.calls ∧ d.ending.Alike d'.ending ∧
      d.sink.Alike good answers d'.sink := by
  obtain ⟨d, hd⟩ := hb.exists_deliverAll ps hs.left_good
  obtain ⟨d', hd'⟩ := hb.exists_deliverAll ps' hs.right_good
  obtain ⟨hgood, hopen, hsettles⟩ := hb.settles hd hs.left_good (by simp)
  obtain ⟨hgood', hopen', hsettles'⟩ := hb.settles hd' hs.right_good (by simp)
  rw [bytesOf_filter, hbytes, hs.held, hs.answers] at hsettles
  rw [bytesOf_filter] at hsettles'
  rw [hs.held] at hopen
  obtain ⟨hlen, hafter, halike⟩ := hsettles.unique hopen hopen' hsettles'
  have htaken : taken d.calls = taken d'.calls := by
    have hfront := (accounts_of_deliverAll hd).taken_prefix_bytesOf
    have hfront' := (accounts_of_deliverAll hd').taken_prefix_bytesOf
    rw [bytesOf_filter, hbytes] at hfront
    rw [bytesOf_filter] at hfront'
    rw [List.prefix_iff_eq_take.mp hfront, List.prefix_iff_eq_take.mp hfront', hlen]
  refine ⟨d, d', hd, hd', htaken, halike, ?_, hafter, hgood, hgood'⟩
  apply Array.toList_inj.mp
  rw [(transcript_of_deliver hd).toList_held, (transcript_of_deliver hd').toList_held, hs.held,
    htaken]

end Behaviour.Follows

/-! ## Two writers -/

/-- **Alike endings have the same result.** What was left is cut differently, but its first byte
is the same and so is its phase. -/
theorem Ending.Alike.result_eq {limit : Nat} {f : Frame} (hfits : f.Fits limit)
    {offering offering' : Offering} {ending ending' : Ending} {calls calls' : List Call}
    (h : ending.Alike ending') (htaken : taken calls = taken calls')
    (ha : ending.Accounts ((offering.pieces f).filter (·.bytes ≠ [])) calls)
    (ha' : ending'.Accounts ((offering'.pieces f).filter (·.bytes ≠ [])) calls') :
    ending.result (offering.phase f) = ending'.result (offering'.phase f) := by
  cases h with
  | delivered => rfl
  | unflushed fault => rfl
  | cutOff left left' fault =>
    obtain ⟨⟨rest, hleft, -⟩, -⟩ := ha
    obtain ⟨⟨rest', hleft', -⟩, -⟩ := ha'
    obtain ⟨l, hl⟩ := exists_layout_of_fits hfits
    rw [htaken] at hleft
    have hphase := Offering.phaseAt_of_after hl hleft
    rw [Offering.phaseAt_of_after hl hleft'] at hphase
    rw [Ending.result, Ending.result, Option.some.inj hphase]

/-- Where there was nothing to deliver, the pieces play no part in the result. -/
theorem Ending.Alike.result_eq_of_nil {ending ending' : Ending} {calls : List Call}
    (h : ending.Alike ending') (ha : ending.Accounts [] calls) :
    ending.result (·.phase) = ending'.result (·.phase) := by
  cases h with
  | delivered => rfl
  | unflushed fault => rfl
  | cutOff left left' fault =>
    obtain ⟨⟨rest, hleft, -⟩, -⟩ := ha
    cases hleft

/-- Two writers that are alike: under one limit, with one count, over stores that are. -/
structure Writer.Alike (good : β → Prop) (answers : β → List FlushAnswer)
    (w w' : Writer (Store β)) : Prop where
  limit : w.limit = w'.limit
  framesWritten : w.framesWritten = w'.framesWritten
  sink : w.sink.Alike good answers w'.sink

/-- What is seen of a step: its result, the bytes then held and the frames then counted. -/
def Writer.Stepped.seen (o : Stepped (Store β)) : Except EncodeError Unit × Array UInt8 × Nat :=
  (o.result, o.writer.sink.held, o.writer.framesWritten)

namespace Behaviour.Follows

variable {b : Behaviour β} {P : Positions} {good : β → Prop} {answers : β → List FlushAnswer}

/-- **A frame comes to the same on alike stores**, however it is offered to either. -/
theorem send_alike (hb : b.Follows P good answers) (offering offering' : Offering) (limit : Nat)
    (f : Frame) {s s' : Store β} (hs : s.Alike good answers s') :
    ∃ sent sent', send offering limit b.sink f s = some sent ∧
      send offering' limit b.sink f s' = some sent' ∧
      sent.result = sent'.result ∧ sent.sink.Alike good answers sent'.sink := by
  by_cases hfits : f.Fits limit
  · obtain ⟨d, d', hd, hd', htaken, hends, hsinks⟩ := hb.deliverAll_alike
      (offering.pieces f) (offering'.pieces f) hs
      (by rw [offering.bytesOf_pieces, offering'.bytesOf_pieces])
    exact ⟨_, _, send_of_fits hfits hd, send_of_fits hfits hd',
      hends.result_eq hfits htaken (accounts_of_deliverAll hd) (accounts_of_deliverAll hd'), hsinks⟩
  · have hlarge : cap limit < 34 + f.jpegSize := Nat.lt_of_not_le hfits
    exact ⟨_, _, send_frameTooLarge hlarge, send_frameTooLarge hlarge, rfl, hs⟩

/-- And so does flushing. -/
theorem flush_alike (hb : b.Follows P good answers) {s s' : Store β}
    (hs : s.Alike good answers s') :
    ∃ sent sent', FrameFeed.flush b.sink s = some sent ∧
      FrameFeed.flush b.sink s' = some sent' ∧
      sent.result = sent'.result ∧ sent.sink.Alike good answers sent'.sink := by
  obtain ⟨d, d', hd, hd', -, hends, hsinks⟩ := hb.deliverAll_alike [] [] hs rfl
  exact ⟨⟨d.ending.result (·.phase), d.sink, d.calls⟩,
    ⟨d'.ending.result (·.phase), d'.sink, d'.calls⟩, by rw [FrameFeed.flush, hd]; rfl,
    by rw [FrameFeed.flush, hd']; rfl, hends.result_eq_of_nil (accounts_of_deliverAll hd), hsinks⟩

/-- **A step keeps two writers alike**, and the same is seen of it on both sides. -/
theorem step_alike (hb : b.Follows P good answers) (offering offering' : Offering)
    {w w' : Writer (Store β)} (hw : w.Alike good answers w') {step : Writer.Step (Store β)}
    (hstep : ∀ change, step ≠ .adjust change) :
    ∃ o o', w.step offering b.sink step = some o ∧ w'.step offering' b.sink step = some o' ∧
      o.seen = o'.seen ∧ o.writer.Alike good answers o'.writer := by
  obtain ⟨hlimit, hcount, hsinks⟩ := hw
  cases step with
  | writeFrame f =>
    obtain ⟨sent, sent', hsent, hsent', hresult, hsinks'⟩ :=
      hb.send_alike offering offering' w.limit f hsinks
    rw [hlimit] at hsent'
    refine ⟨_, _, congrArg (Option.map _) hsent, congrArg (Option.map _) hsent', ?_, hlimit, ?_,
      hsinks'⟩
    · simp only [Writer.Stepped.seen, hresult, hsinks'.held, hcount]
    · simp only [hresult, hcount]
  | flush =>
    obtain ⟨sent, sent', hsent, hsent', hresult, hsinks'⟩ := hb.flush_alike hsinks
    refine ⟨_, _, congrArg (Option.map _) hsent, congrArg (Option.map _) hsent', ?_, hlimit, hcount,
      hsinks'⟩
    simp only [Writer.Stepped.seen, hresult, hsinks'.held, hcount]
  | sendApart limit f =>
    obtain ⟨sent, sent', hsent, hsent', hresult, hsinks'⟩ :=
      hb.send_alike .byPiece .byPiece limit f hsinks
    refine ⟨_, _, congrArg (Option.map _) hsent, congrArg (Option.map _) hsent', ?_, hlimit, hcount,
      hsinks'⟩
    simp only [Writer.Stepped.seen, hresult, hsinks'.held, hcount]
  | adjust change => exact absurd rfl (hstep change)

/-- **And so does a run of steps**, whatever came of those before. -/
theorem run_alike (hb : b.Follows P good answers) (offering offering' : Offering)
    {w w' : Writer (Store β)} (hw : w.Alike good answers w') {steps : List (Writer.Step (Store β))}
    (hsteps : ∀ step ∈ steps, ∀ change, step ≠ .adjust change) :
    ∃ os os', w.run offering b.sink steps = some os ∧ w'.run offering' b.sink steps = some os' ∧
      os.map (·.seen) = os'.map (·.seen) := by
  induction steps generalizing w w' with
  | nil => exact ⟨[], [], rfl, rfl, rfl⟩
  | cons step steps ih =>
    obtain ⟨o, o', ho, ho', hseen, halike⟩ :=
      hb.step_alike offering offering' hw (hsteps step List.mem_cons_self)
    obtain ⟨os, os', hos, hos', hrest⟩ :=
      ih halike fun step hmem => hsteps step (List.mem_cons_of_mem _ hmem)
    refine ⟨o :: os, o' :: os', Writer.run_cons_of_step ho hos,
      Writer.run_cons_of_step ho' hos', ?_⟩
    rw [List.map_cons, List.map_cons, hseen, hrest]

end Behaviour.Follows

/-! ## Sessions -/

/-- A composer gets through the steps that a writer gets through which offers messages whole, and
the same is seen of every step. -/
theorem Composer.exists_run_of_run {sink : Sink (Store β)} {w : Writer (Store β)}
    {c : Composer (Store β)} {steps : List (Writer.Step (Store β))}
    {os : List (Writer.Stepped (Store β))} (hc : c.toWriter = w)
    (h : w.run .whole sink steps = some os) :
    ∃ cs, c.run sink steps = some cs ∧ cs.map (·.forget.seen) = os.map (·.seen) := by
  subst hc
  rw [← forget_run] at h
  obtain ⟨cs, hcs, rfl⟩ := Option.map_eq_some_iff.mp h
  exact ⟨cs, hcs, by rw [List.map_map]; rfl⟩

/-- **A writer that offers messages piece by piece, one that offers them whole and a composer
agree** over a sink that is positioned by its bytes: all get through any steps that do not reach
into the sink, and see the same result, the same bytes held and the same count after every one of
them, whatever is in the composer's buffer at first. Scripts whose listed writes are used up are
such sinks, with any chunk size and any limit, when what they keep for being full ends a
delivery. -/
theorem Writer.run_byPiece_whole {b : Behaviour β} {P : Positions} {good : β → Prop}
    {answers : β → List FlushAnswer} (hb : b.Follows P good answers) {w : Writer (Store β)}
    (hw : good w.sink.behaviour) {steps : List (Step (Store β))}
    (hsteps : ∀ step ∈ steps, ∀ change, step ≠ .adjust change) :
    (∃ os os', w.run .byPiece b.sink steps = some os ∧ w.run .whole b.sink steps = some os' ∧
        os.map (·.seen) = os'.map (·.seen) ∧
        ∀ c : Composer (Store β), c.toWriter = w →
          ∃ cs, c.run b.sink steps = some cs ∧ cs.map (·.forget.seen) = os.map (·.seen)) ∧
      ∀ chunk limit whenFull, whenFull.Ends →
        ∃ positions, Script.behaviour.Follows positions (Script.Spent chunk limit whenFull)
          Script.flushes := by
  refine ⟨?_, fun _ _ _ h => ⟨_, Script.follows h⟩⟩
  obtain ⟨os, os', hos, hos', hseen⟩ :=
    hb.run_alike .byPiece .whole ⟨rfl, rfl, rfl, rfl, hw, hw⟩ hsteps
  refine ⟨os, os', hos, hos', hseen, fun c hc => ?_⟩
  rw [hseen]
  exact Composer.exists_run_of_run hc hos'

/-- A store that takes five bytes at a time and breaks when it holds a hundred: the first frame is
taken and not flushed, the second arrives, the third is cut off, and the fourth finds no room. A
composer that has something in its buffer sees the same. -/
theorem Writer.run_byPiece_whole_broken :
    ∃ (store : Store Script) (steps : List (Step (Store Script)))
        (os os' : List (Stepped (Store Script))) (cs : List (Composer.Stepped (Store Script))),
      store = ⟨#[], { flushes := [.failed (.ofKind .interrupted), .failed (.ofKind .timedOut)],
                      chunk := some 5, limit := some 100,
                      whenFull := .fail (.ofKind .brokenPipe) }⟩ ∧
      steps = [.writeFrame ⟨[0x01], -1⟩, .writeFrame ⟨[0x02], 40⟩, .writeFrame ⟨[0x03], 80⟩,
        .flush, .writeFrame ⟨[], 120⟩] ∧
      (Writer.new store maxDocumentSize).run .byPiece Script.sink steps = some os ∧
      (Writer.new store maxDocumentSize).run .whole Script.sink steps = some os' ∧
      (Composer.mk (Writer.new store maxDocumentSize) #[0xFF]).run Script.sink steps = some cs ∧
      os.map (·.seen) = os'.map (·.seen) ∧ cs.map (·.forget.seen) = os.map (·.seen) ∧
      cs.map (·.result) =
        [.error (.sinkFlush (.ofKind .timedOut)), .ok (),
          .error (.sinkWrite .fieldName (.ofKind .brokenPipe)), .ok (),
          .error (.sinkWrite .framing (.ofKind .brokenPipe))] := by
  obtain ⟨store, hstore⟩ : ∃ store : Store Script, store =
      ⟨#[], { flushes := [.failed (.ofKind .interrupted), .failed (.ofKind .timedOut)],
              chunk := some 5, limit := some 100, whenFull := .fail (.ofKind .brokenPipe) }⟩ :=
    ⟨_, rfl⟩
  obtain ⟨steps, hsteps⟩ : ∃ steps : List (Step (Store Script)), steps =
      [.writeFrame ⟨[0x01], -1⟩, .writeFrame ⟨[0x02], 40⟩, .writeFrame ⟨[0x03], 80⟩, .flush,
        .writeFrame ⟨[], 120⟩] := ⟨_, rfl⟩
  have hends : (Action.fail (.ofKind .brokenPipe)).Ends := rfl
  have hspent : Script.Spent (some 5) (some 100) (.fail (.ofKind .brokenPipe)) store.behaviour := by
    rw [hstore]
    exact ⟨rfl, rfl, rfl, rfl⟩
  obtain ⟨⟨os, os', hos, hos', hseen, hcomposers⟩, -⟩ :=
    @Writer.run_byPiece_whole Script Script.behaviour _ _ _ (Script.follows hends)
      (Writer.new store maxDocumentSize) hspent steps (by simp [hsteps])
  obtain ⟨cs, hcs, hsame⟩ := hcomposers ⟨Writer.new store maxDocumentSize, #[0xFF]⟩ rfl
  refine ⟨store, steps, os, os', cs, hstore, hsteps, hos, hos', hcs, hseen, hsame, ?_⟩
  subst hstore hsteps
  have hresults := congrArg (Option.map (List.map (·.result))) hcs
  exact (Option.some.inj hresults).symm.trans rfl

end FrameFeed
