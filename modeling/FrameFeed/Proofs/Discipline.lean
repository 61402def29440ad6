import FrameFeed.Proofs.Composing
/-!
# Which calls are made

The calls of a delivery are fixed by the bytes taken so far: while some are left, the next call
offers those up to the end of the piece that holds the first of them, and when none are left it
flushes. `offerAt` says so in terms of the offsets at which pieces end, `Disciplined` says it of a
run of calls.

A sink may ask for the same call for ever, and then sending a frame does not return. So the laws
speak of the first calls of a delivery, however many (`firstCalls`); those of a delivery that
returns are among them.

Main statements: `disciplined_firstCalls`, the calls of any delivery, and `send_disciplined`, those
that a frame comes to.
-/

namespace FrameFeed

open Wire

/-! ## Offers -/

namespace Wire

/-- The offsets at which pieces end. -/
def ends : List Piece → List Nat
  | [] => []
  | p :: ps => p.bytes.length :: (ends ps).map (p.bytes.length + ·)

/-- What is offered of some bytes once the first `offset` of them are taken: those up to the next of
the cuts, and nothing where there is none. -/
def offerAt (cuts : List Nat) (bytes : List UInt8) (offset : Nat) : Option (List UInt8) :=
  (cuts.find? (offset < ·)).map fun cut => (bytes.take cut).drop offset

/-- **The piece in front of what is left holds the bytes up to the next end of a piece.** -/
theorem head?_after (offset : Nat) (ps : List Piece) :
    (after offset ps).head?.map Piece.bytes = offerAt (ends ps) (bytesOf ps) offset := by
  induction ps generalizing offset with
  | nil => rfl
  | cons p ps ih =>
    rw [offerAt, ends, bytesOf_cons]
    by_cases h : offset < p.bytes.length
    · rw [after_cons_of_lt h, List.find?_cons_of_pos (by simpa using h)]
      simp
    · -- both sides look into the pieces behind, as far in as the offset lies past this one
      have hle : p.bytes.length ≤ offset := Nat.le_of_not_lt h
      have hshift : ((fun cut => decide (offset < cut)) ∘ (p.bytes.length + ·)) =
          fun cut => decide (offset - p.bytes.length < cut) := by
        funext cut
        rw [Function.comp_apply, decide_eq_decide]
        omega
      have hcut : ((fun cut => ((p.bytes ++ bytesOf ps).take cut).drop offset) ∘
          (p.bytes.length + ·)) =
            fun cut => ((bytesOf ps).take cut).drop (offset - p.bytes.length) := by
        funext cut
        rw [Function.comp_apply, List.take_length_add_append, List.drop_append,
          List.drop_eq_nil_of_le hle, List.nil_append]
      rw [after_cons_of_le hle, ih, offerAt, List.find?_cons_of_neg (by simpa using h),
        List.find?_map, Option.map_map, hshift, hcut]

/-- Pieces without bytes are never in front of what is left. -/
theorem head?_after_filter (offset : Nat) (ps : List Piece) :
    (after offset (ps.filter (·.bytes ≠ []))).head? = (after offset ps).head? := by
  induction ps generalizing offset with
  | nil => rfl
  | cons p ps ih =>
    by_cases hp : p.bytes = []
    · rw [List.filter_cons_of_neg (by simp [hp]), ih, after_cons_of_le (by simp [hp]), hp]
      rfl
    · rw [List.filter_cons_of_pos (by simp [hp])]
      by_cases h : offset < p.bytes.length
      · rw [after_cons_of_lt h, after_cons_of_lt h]
        rfl
      · rw [after_cons_of_le (by omega), after_cons_of_le (by omega), ih]

/-- Nothing is offered just when no byte is left. -/
theorem offerAt_eq_none_iff {ps : List Piece} {offset : Nat} :
    offerAt (ends ps) (bytesOf ps) offset = none ↔ (bytesOf ps).length ≤ offset := by
  have hleft := bytesOf_after offset (ps.filter (·.bytes ≠ []))
  rw [bytesOf_filter] at hleft
  rw [← head?_after, ← head?_after_filter, Option.map_eq_none_iff, List.head?_eq_none_iff,
    ← List.drop_eq_nil_iff, ← hleft]
  constructor
  · intro h
    rw [h, bytesOf_nil]
  · intro h
    cases hafter : after offset (ps.filter (·.bytes ≠ [])) with
    | nil => rfl
    | cons p rest =>
      have hp : p.bytes ≠ [] := after_ne_nil (by simp) p (hafter ▸ List.mem_cons_self)
      rw [hafter, bytesOf_cons] at h
      exact absurd (List.append_eq_nil_iff.mp h).1 hp

/-- What is offered holds bytes. -/
theorem ne_nil_of_offerAt {ps : List Piece} {offset : Nat} {offer : List UInt8}
    (h : offerAt (ends ps) (bytesOf ps) offset = some offer) : offer ≠ [] := by
  rw [← head?_after, ← head?_after_filter] at h
  obtain ⟨p, hp, rfl⟩ := Option.map_eq_some_iff.mp h
  exact after_ne_nil (by simp) p (List.mem_of_head? hp)

end Wire

/-- The bytes that a call puts before the sink; a flush puts none there. -/
def Call.offer? : Call → Option (List UInt8)
  | write offer _ => some offer
  | flush _ => none

/-- Whether a call is the last of a delivery, by the answer to it. -/
def Call.final : Call → Bool
  | write _ answer => answer.fault?.isSome
  | flush answer => !answer.again

/-- Calls that end a delivery: the last of them is final. -/
def Ended (calls : List Call) : Prop := ∃ last, calls.getLast? = some last ∧ last.final = true

theorem Ended.cons {call : Call} {calls : List Call} (h : Ended calls) : Ended (call :: calls) := by
  obtain ⟨last, hlast, hfinal⟩ := h
  exact ⟨last, by rw [List.getLast?_cons, hlast, Option.getD_some], hfinal⟩

/-- A call offers the piece in front, and flushes where there is none. -/
theorem Reacts.offer?_eq {ps : List Piece} {call : Call} {reaction : Reaction}
    (h : Reacts ps call reaction) : call.offer? = ps.head?.map Piece.bytes := by
  cases h <;> rfl

/-- A call that ends a delivery is final. -/
theorem Reacts.final_of_stop {ps : List Piece} {call : Call} {ending : Ending}
    (h : Reacts ps call (.stop ending)) : call.final = true := by
  cases h with
  | cutOff hf => rw [Call.final, hf, Option.isSome_some]
  | flushed => rfl
  | unflushed hf => rw [Call.final, FlushAnswer.again_of_fault? hf, Bool.not_false]

/-- A call after which a delivery goes on is not. -/
theorem Reacts.final_of_goOn {ps left : List Piece} {call : Call}
    (h : Reacts ps call (.goOn left)) : call.final = false := by
  cases call with
  | write offer answer =>
    have hnone : answer.fault? = none := h.fault?_eq_none
    rw [Call.final, hnone, Option.isSome_none]
  | flush answer =>
    cases h with
    | flushAgain ha => rw [Call.final, ha, Bool.not_true]

/-! ## The first calls of a delivery -/

variable {σ : Type} {sink : Sink σ}

/-- The first `n` calls of a delivery, or all of them where it ends before. -/
def firstCalls (sink : Sink σ) : (n : Nat) → List Piece → σ → List Call
  | 0, _, _ => []
  | n + 1, ps, s =>
    match nextCall sink s ps with
    | (.stop _, _, call) => [call]
    | (.goOn left, s, call) => call :: firstCalls sink n left s

/-- The first calls are the next one alone, or it and the first calls of what is left. -/
theorem firstCalls_succ (sink : Sink σ) (n : Nat) (ps : List Piece) (s : σ) :
    ∃ call, (firstCalls sink (n + 1) ps s = [call] ∧ ∃ ending, Reacts ps call (.stop ending)) ∨
      ∃ left s', firstCalls sink (n + 1) ps s = call :: firstCalls sink n left s' ∧
        Reacts ps call (.goOn left) := by
  rw [firstCalls]
  split
  next ending s' call hnext => exact ⟨call, Or.inl ⟨rfl, ending, (reacts_nextCall hnext).1⟩⟩
  next left s' call hnext => exact ⟨call, Or.inr ⟨left, s', rfl, (reacts_nextCall hnext).1⟩⟩

/-- **A delivery that returns has made its first calls**, and the last of them is final. -/
theorem firstCalls_of_deliver {n : Nat} {ps : List Piece} {s : σ} {d : Delivered σ}
    (h : deliver sink n ps s = some d) :
    firstCalls sink n ps s = d.calls ∧ Ended d.calls := by
  induction n generalizing ps s d with
  | zero => cases h
  | succ n ih =>
    rw [deliver_succ] at h
    split at h
    next ending s' call hnext =>
      cases h
      rw [firstCalls, hnext]
      exact ⟨rfl, call, rfl, (reacts_nextCall hnext).1.final_of_stop⟩
    next left s' call hnext =>
      obtain ⟨d', hd', rfl⟩ := Option.map_eq_some_iff.mp h
      obtain ⟨hcalls, hended⟩ := ih hd'
      rw [firstCalls, hnext]
      exact ⟨congrArg (call :: ·) hcalls, hended.cons⟩

/-- Fewer first calls than asked for end in a final one. -/
theorem length_firstCalls (sink : Sink σ) (n : Nat) (ps : List Piece) (s : σ) :
    (firstCalls sink n ps s).length = n ∨ Ended (firstCalls sink n ps s) := by
  induction n generalizing ps s with
  | zero => exact Or.inl rfl
  | succ n ih =>
    obtain ⟨call, ⟨hcalls, ending, hr⟩ | ⟨left, s', hcalls, hr⟩⟩ := firstCalls_succ sink n ps s
    · rw [hcalls]
      exact Or.inr ⟨call, rfl, hr.final_of_stop⟩
    · rw [hcalls]
      rcases ih left s' with hlen | hended
      · exact Or.inl (congrArg (· + 1) hlen)
      · exact Or.inr hended.cons

/-- What the first calls took is the beginning of what there was. -/
theorem taken_firstCalls (sink : Sink σ) (n : Nat) (ps : List Piece) (s : σ) :
    taken (firstCalls sink n ps s) <+: bytesOf ps := by
  induction n generalizing ps s with
  | zero => exact List.nil_prefix
  | succ n ih =>
    obtain ⟨call, ⟨hcalls, ending, hr⟩ | ⟨left, s', hcalls, hr⟩⟩ := firstCalls_succ sink n ps s
    · rw [hcalls]
      cases hr with
      | @cutOff p ps answer fault hf =>
        rw [taken_cons, Call.taken_of_fault? hf]
        exact List.nil_prefix
      | flushed => exact List.prefix_rfl
      | unflushed hf => exact List.prefix_rfl
    · rw [hcalls, taken_cons, ← hr.taken_append]
      exact (List.prefix_append_right_inj _).mpr (ih left s')

/-- **Each of the first calls offers what is then in front**, and one that is final is the last. -/
theorem firstCalls_split {n : Nat} {ps : List Piece} {s : σ} (hps : ∀ p ∈ ps, p.bytes ≠ [])
    {front back : List Call} {call : Call} (h : firstCalls sink n ps s = front ++ call :: back) :
    call.offer? = (after (taken front).length ps).head?.map Piece.bytes ∧
      (call.final = true → back = []) := by
  induction n generalizing ps s front with
  | zero => simp [firstCalls] at h
  | succ n ih =>
    obtain ⟨first, ⟨hcalls, ending, hr⟩ | ⟨left, s', hcalls, hr⟩⟩ := firstCalls_succ sink n ps s
    · rw [hcalls] at h
      cases front with
      | nil =>
        cases h
        rw [taken_nil, List.length_nil, after_zero hps]
        exact ⟨hr.offer?_eq, fun _ => rfl⟩
      | cons _ front => simp at h
    · rw [hcalls] at h
      cases front with
      | nil =>
        cases h
        rw [taken_nil, List.length_nil, after_zero hps]
        refine ⟨hr.offer?_eq, fun hfinal => ?_⟩
        rw [hr.final_of_goOn] at hfinal
        cases hfinal
      | cons _ front =>
        obtain ⟨rfl, hrest⟩ := List.cons.inj h
        obtain ⟨hoffer, hlast⟩ := ih (hr.ne_nil hps) hrest
        refine ⟨?_, hlast⟩
        -- what is in front after the first call is what was behind the bytes it took
        rw [hoffer, hr.left_eq hps, after_after, taken_cons, List.length_append]

/-! ## Disciplined calls -/

/-- The calls by which some bytes are delivered in pieces that are cut at given offsets. -/
structure Disciplined (cuts : List Nat) (bytes : List UInt8) (calls : List Call) : Prop where
  /-- The bytes taken are the first of all bytes: each is taken once, and none is passed over. -/
  taken_eq : taken calls = bytes.take (taken calls).length
  /-- Each call offers the bytes from the first that was not taken to the next cut. -/
  offer?_eq : ∀ front call back, calls = front ++ call :: back →
    call.offer? = offerAt cuts bytes (taken front).length
  /-- It flushes just when all bytes were taken. -/
  offer?_eq_none_iff : ∀ front call back, calls = front ++ call :: back →
    (call.offer? = none ↔ (taken front).length = bytes.length)
  /-- No offer is empty. -/
  offer_ne_nil : ∀ offer answer, Call.write offer answer ∈ calls → offer ≠ []
  /-- Once an offer was answered by taking `k` of its bytes, the next starts `k` bytes further. -/
  moves : ∀ front offer k next back,
    calls = front ++ .write offer (.took k) :: next :: back → k ≤ offer.length →
      next.offer? = offerAt cuts bytes ((taken front).length + k)
  /-- A call that is asked for again is made again, with the same offer. -/
  again : ∀ front call next back, calls = front ++ call :: next :: back → call.again = true →
    next.offer? = call.offer?
  /-- An answer that takes nothing, a fault that is no interruption and a flush that succeeds are
  followed by no other call. -/
  final : ∀ front call back, calls = front ++ call :: back → call.final = true → back = []
  /-- No write follows a flush. -/
  offer?_after_flush : ∀ front answer back, calls = front ++ .flush answer :: back →
    ∀ call ∈ back, call.offer? = none
  /-- Once all bytes were taken, the last of the calls is a flush, if it is final. -/
  flushes : ∀ front last, calls = front ++ [last] → last.final = true → taken calls = bytes →
    ∃ answer, last = .flush answer

/-- The first of disciplined calls offers the beginning of the bytes. -/
theorem Disciplined.exists_first {cuts : List Nat} {bytes : List UInt8} {call : Call}
    {calls : List Call} (h : Disciplined cuts bytes (call :: calls)) (hbytes : bytes ≠ []) :
    ∃ offer answer, call = .write offer answer ∧ offer ≠ [] ∧ offer <+: bytes := by
  have hfront : call :: calls = [] ++ call :: calls := rfl
  have hoffer := h.offer?_eq [] call calls hfront
  cases call with
  | flush answer =>
    have hall := (h.offer?_eq_none_iff [] _ calls hfront).mp rfl
    exact absurd (List.length_eq_zero_iff.mp hall.symm) hbytes
  | write offer answer =>
    refine ⟨offer, answer, rfl, h.offer_ne_nil offer answer List.mem_cons_self, ?_⟩
    obtain ⟨cut, -, hcut⟩ := Option.map_eq_some_iff.mp hoffer.symm
    rw [← hcut]
    exact List.take_prefix cut bytes

/-- **The first calls of any delivery are disciplined**, whatever the sink answers. -/
theorem disciplined_firstCalls (sink : Sink σ) (n : Nat) (ps : List Piece) (s : σ) :
    Disciplined (ends ps) (bytesOf ps) (firstCalls sink n (ps.filter (·.bytes ≠ [])) s) := by
  have hall := taken_firstCalls sink n (ps.filter (·.bytes ≠ [])) s
  have hsplit := @firstCalls_split σ sink n (ps.filter (·.bytes ≠ [])) s (by simp)
  rw [bytesOf_filter] at hall
  generalize firstCalls sink n (ps.filter (·.bytes ≠ [])) s = calls at hall hsplit ⊢
  have hoffer : ∀ front call back, calls = front ++ call :: back →
      call.offer? = offerAt (ends ps) (bytesOf ps) (taken front).length := by
    intro front call back h
    rw [(hsplit h).1, head?_after_filter, head?_after]
  have htaken : ∀ front back, calls = front ++ back → taken front <+: bytesOf ps := by
    intro front back h
    rw [h, taken_append] at hall
    exact (List.prefix_append _ _).trans hall
  have hnone : ∀ front call back, calls = front ++ call :: back →
      (call.offer? = none ↔ (taken front).length = (bytesOf ps).length) := by
    intro front call back h
    have hle := (htaken front _ h).length_le
    rw [hoffer front call back h, offerAt_eq_none_iff]
    omega
  refine
    { taken_eq := List.prefix_iff_eq_take.mp hall
      offer?_eq := hoffer
      offer?_eq_none_iff := hnone
      offer_ne_nil := fun offer answer hmem => ?_
      moves := fun front offer k next back h hk => ?_
      again := fun front call next back h hagain => ?_
      final := fun front call back h => (hsplit h).2
      offer?_after_flush := fun front answer back h call hmem => ?_
      flushes := fun front last h hfinal hbytes => ?_ }
  · obtain ⟨front, back, h⟩ := List.append_of_mem hmem
    exact ne_nil_of_offerAt (hoffer front _ back h).symm
  · rw [hoffer (front ++ [.write offer (.took k)]) next back (by simp [h]), taken_append,
      List.length_append, taken_cons, Call.taken_write_took, taken_nil, List.append_nil,
      List.length_take_of_le hk]
  · -- the bytes taken are the same before both calls
    have hsame : taken (front ++ [call]) = taken front := by
      rw [taken_append, taken_cons, Call.taken_eq_nil hagain, taken_nil, List.append_nil,
        List.append_nil]
    rw [hoffer front call _ h, hoffer (front ++ [call]) next back (by simp [h]), hsame]
  · obtain ⟨before, behind, rfl⟩ := List.append_of_mem hmem
    -- all bytes were taken before the flush, so all are taken before the later call
    have hflush := (hnone front _ _ h).mp rfl
    have hlater : calls = (front ++ .flush answer :: before) ++ call :: behind := by simp [h]
    have hle := (htaken _ _ hlater).length_le
    refine (hnone _ call behind hlater).mpr (Nat.le_antisymm hle ?_)
    rw [taken_append, List.length_append, hflush]
    exact Nat.le_add_right _ _
  · cases last with
    | flush answer => exact ⟨answer, rfl⟩
    | write offer answer =>
      -- a final write takes nothing, so it would have had nothing to offer
      obtain ⟨fault, hfault⟩ := Option.isSome_iff_exists.mp hfinal
      rw [h, taken_append, taken_cons, Call.taken_of_fault? hfault, taken_nil, List.append_nil,
        List.append_nil] at hbytes
      have hwrite := (hnone front _ [] h).mpr (congrArg List.length hbytes)
      cases hwrite

/-! ## Frames -/

/-- The offsets at which the message for a frame is cut, from its first byte to its end. -/
def Offering.cuts : Offering → Frame → List Nat
  | byPiece, f => [0, 4, 8, 9, 12, 13, 21, 22, 31, 32, 36, 37, 37 + f.jpegSize, 38 + f.jpegSize]
  | whole, f => [0, 38 + f.jpegSize]

/-- The cuts are the offsets at which the pieces offered end. -/
theorem Offering.cuts_eq (offering : Offering) (f : Frame) :
    offering.cuts f = 0 :: ends (offering.pieces f) := by
  cases offering with
  | byPiece =>
    simp [cuts, Offering.pieces, pieces_eq, ends, Frame.jpegSize]
    omega
  | whole => simp [cuts, Offering.pieces, ends]

/-- The first `n` calls of offering the message for a frame. -/
def Offering.calls (offering : Offering) (sink : Sink σ) (f : Frame) (s : σ) (n : Nat) :
    List Call :=
  firstCalls sink n ((offering.pieces f).filter (·.bytes ≠ [])) s

/-- They are disciplined. -/
theorem Offering.disciplined_calls (offering : Offering) (sink : Sink σ) (f : Frame) (s : σ)
    (n : Nat) : Disciplined (offering.cuts f) (message f) (offering.calls sink f s n) := by
  have h := disciplined_firstCalls sink n (offering.pieces f) s
  rw [offering.bytesOf_pieces] at h
  rw [offering.cuts_eq]
  -- no offset is before the first byte, so that cut is never the next
  exact { h with offer?_eq := h.offer?_eq }

/-- **The calls of a frame that is sent are the first calls of offering its message.** -/
theorem calls_of_send {offering : Offering} {limit : Nat} {f : Frame} {s : σ} {sent : Sent σ}
    (hfits : f.Fits limit) (h : send offering limit sink f s = some sent) :
    Ended sent.calls ∧ ∃ n, sent.calls = offering.calls sink f s n := by
  rw [send, documentLength_of_fits hfits] at h
  obtain ⟨d, hd, rfl⟩ := Option.map_eq_some_iff.mp h
  obtain ⟨hcalls, hended⟩ := firstCalls_of_deliver hd
  exact ⟨hended, _, hcalls.symm⟩

/-- **The calls that a frame comes to** are fixed by the bytes taken so far, whatever the sink
answers and whether or not it ever lets the writer be done. Piece by piece they offer what is left
of one piece at a time; a composer offers what is left of the whole message. -/
theorem send_disciplined {limit : Nat} {f : Frame} (hfits : f.Fits limit) (sink : Sink σ) (s : σ) :
    (∀ (offering : Offering) (n : Nat),
        Disciplined (offering.cuts f) (message f) (offering.calls sink f s n) ∧
          ((offering.calls sink f s n).length = n ∨ Ended (offering.calls sink f s n))) ∧
      (∀ sent, send .byPiece limit sink f s = some sent →
        Ended sent.calls ∧ ∃ n, sent.calls = Offering.byPiece.calls sink f s n) ∧
      ∀ (c : Composer σ) (o : Composer.Stepped σ), c.limit = limit → c.sink = s →
        c.writeFrame sink f = some o →
          Ended o.calls ∧ ∃ n, o.calls = Offering.whole.calls sink f s n := by
  refine ⟨fun offering n => ⟨offering.disciplined_calls sink f s n, length_firstCalls ..⟩,
    fun sent hsent => calls_of_send hfits hsent, ?_⟩
  rintro c o rfl rfl ho
  have hforget := Composer.forget_writeFrame sink c f
  rw [ho] at hforget
  obtain ⟨sent, hsent, hstepped⟩ := Option.map_eq_some_iff.mp hforget.symm
  have hcalls : o.calls = sent.calls := congrArg Writer.Stepped.calls hstepped.symm
  rw [hcalls]
  exact calls_of_send hfits hsent

/-- A picture without bytes, at the limit: the first write is interrupted, the second takes three of
the bytes on offer, and the first flush is interrupted. Piece by piece no call offers the picture; a
composer, whatever was in its buffer, offers the whole message, again all of it and then what is
left. -/
theorem send_disciplined_empty_picture :
    ∃ (store : Store Script) (sent : Sent (Store Script)) (o : Composer.Stepped (Store Script)),
      store = ⟨#[], { writes := [.fail (.ofKind .interrupted), .upTo 3, .all, .upTo 1],
                      flushes := [.failed (.ofKind .interrupted)] }⟩ ∧
      send .byPiece 34 Script.sink ⟨[], 7⟩ store = some sent ∧
      sent.calls.map (fun call => call.offer?.map List.length) =
        [some 4, some 4, some 1, some 4, some 3, some 1, some 3, some 1, some 8, some 1, some 9,
          some 1, some 4, some 1, some 1, none, none] ∧
      Ended sent.calls ∧
      Disciplined [0, 4, 8, 9, 12, 13, 21, 22, 31, 32, 36, 37, 37, 38] (message ⟨[], 7⟩)
        sent.calls ∧
      (Composer.mk (Writer.new store 34) #[0xFF]).writeFrame Script.sink ⟨[], 7⟩ = some o ∧
      o.calls.map (fun call => call.offer?.map List.length) =
        [some 38, some 38, some 35, none, none] ∧
      Ended o.calls ∧ Disciplined [0, 38] (message ⟨[], 7⟩) o.calls ∧
      ∀ n, Disciplined [0, 38] (message ⟨[], 7⟩)
        (Offering.whole.calls Script.sink ⟨[], 7⟩ store n) := by
  obtain ⟨hcalls, hsend, hcompose⟩ :=
    @send_disciplined (Store Script) 34 ⟨[], 7⟩ (by decide) Script.sink
      ⟨#[], { writes := [.fail (.ofKind .interrupted), .upTo 3, .all, .upTo 1],
              flushes := [.failed (.ofKind .interrupted)] }⟩
  obtain ⟨hended, n, hfirst⟩ := hsend _ rfl
  obtain ⟨hended', n', hfirst'⟩ := hcompose ⟨Writer.new _ 34, #[0xFF]⟩ _ rfl rfl rfl
  refine ⟨_, _, _, rfl, rfl, rfl, hended, ?_, rfl, rfl, hended', ?_, fun n => (hcalls .whole n).1⟩
  · rw [hfirst]
    exact (hcalls .byPiece n).1
  · rw [hfirst']
    exact (hcalls .whole n').1

end FrameFeed
