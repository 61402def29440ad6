import FrameFeed.Delivery
import FrameFeed.Proofs.Offset
import FrameFeed.Proofs.Transcript
/-!
# How a delivery ends

A delivery makes one call after another, and what a call and its answer lead to does not depend on
the sink. `Reacts` says what that is, once for every kind of answer; `deliver_induction` turns it
into an induction over finished deliveries, and the laws below are its cases put together.

Main statements: `accounts_of_deliver`, the calls of a finished delivery account for its ending,
`transcript_of_deliver`, they are calls that the sink did answer, `exists_deliver`, a sink that
asks for the same call again only so often is done with a delivery, and `exists_patience_iff`,
what patience decides.
-/

namespace FrameFeed

open Wire

variable {σ : Type} {sink : Sink σ}

/-! ## One call -/

/-- What a delivery of `ps` does after a call and its answer. -/
inductive Reacts : List Piece → Call → Reaction → Prop
  | took {p : Piece} {ps : List Piece} (n : Nat) :
      Reacts (p :: ps) (.write p.bytes (.took (n + 1))) (.goOn (advance (n + 1) p ps))
  | again {p : Piece} {ps : List Piece} {answer : WriteAnswer} : answer.again = true →
      Reacts (p :: ps) (.write p.bytes answer) (.goOn (p :: ps))
  | cutOff {p : Piece} {ps : List Piece} {answer : WriteAnswer} {fault : Fault} :
      answer.fault? = some fault →
      Reacts (p :: ps) (.write p.bytes answer) (.stop (.cutOff p fault))
  | flushed : Reacts [] (.flush .done) (.stop .delivered)
  | flushAgain {answer : FlushAnswer} : answer.again = true →
      Reacts [] (.flush answer) (.goOn [])
  | unflushed {answer : FlushAnswer} {fault : Fault} : answer.fault? = some fault →
      Reacts [] (.flush answer) (.stop (.unflushed fault))

theorem reacts_afterWrite (p : Piece) (ps : List Piece) (answer : WriteAnswer) :
    Reacts (p :: ps) (.write p.bytes answer) (afterWrite p ps answer) := by
  cases answer with
  | took n =>
    cases n with
    | zero => exact .cutOff rfl
    | succ n => exact .took n
  | notReady => exact .again rfl
  | failed fault =>
    by_cases hi : fault.isInterrupted
    · rw [afterWrite, if_pos hi]
      exact .again hi
    · rw [afterWrite, if_neg hi]
      exact .cutOff (by rw [WriteAnswer.fault?, if_neg hi])

theorem reacts_afterFlush (answer : FlushAnswer) :
    Reacts [] (.flush answer) (afterFlush answer) := by
  cases answer with
  | done => exact .flushed
  | notReady => exact .flushAgain rfl
  | failed fault =>
    by_cases hi : fault.isInterrupted
    · rw [afterFlush, if_pos hi]
      exact .flushAgain hi
    · rw [afterFlush, if_neg hi]
      exact .unflushed (by rw [FlushAnswer.fault?, if_neg hi])

/-- **A delivery reacts to the answer that the sink gives to its next call.** -/
theorem reacts_nextCall {s s' : σ} {ps : List Piece} {call : Call} {reaction : Reaction}
    (h : nextCall sink s ps = (reaction, s', call)) :
    Reacts ps call reaction ∧ sink.Transcript s [call] s' := by
  cases ps with
  | nil =>
    obtain ⟨rfl, rfl, rfl⟩ : _ ∧ _ ∧ _ := by simpa [nextCall] using h
    exact ⟨reacts_afterFlush _, .flush rfl (.nil _)⟩
  | cons p ps =>
    obtain ⟨rfl, rfl, rfl⟩ : _ ∧ _ ∧ _ := by simpa [nextCall] using h
    exact ⟨reacts_afterWrite p ps _, .write rfl (.nil _)⟩

/-- Moving past bytes loses none of those behind them. -/
theorem bytesOf_advance (n : Nat) (p : Piece) (ps : List Piece) :
    bytesOf (advance n p ps) = p.bytes.drop n ++ bytesOf ps := by
  rw [advance]
  split
  next hnil => rw [hnil, List.nil_append]
  next b bs hcons => rw [bytesOf_cons, hcons]

/-- Where all pieces hold bytes, a delivery moves past the bytes that were taken. -/
theorem advance_eq_after {n : Nat} {p : Piece} {ps : List Piece} (hps : ∀ q ∈ ps, q.bytes ≠ []) :
    advance n p ps = after (min n p.bytes.length) (p :: ps) := by
  rw [advance]
  split
  next hnil =>
    have hle := List.drop_eq_nil_iff.mp hnil
    rw [Nat.min_eq_right hle, after_cons_of_le (Nat.le_refl _), Nat.sub_self, after_zero hps]
  next b bs hcons =>
    have hlt : n < p.bytes.length := by
      refine Nat.lt_of_not_le fun hge => ?_
      rw [List.drop_eq_nil_of_le hge] at hcons
      cases hcons
    rw [Nat.min_eq_left (Nat.le_of_lt hlt), after_cons_of_lt hlt, hcons]

/-- **A call after which the delivery goes on moves it past the bytes taken.** -/
theorem Reacts.left_eq {ps left : List Piece} {call : Call} (h : Reacts ps call (.goOn left))
    (hps : ∀ p ∈ ps, p.bytes ≠ []) : left = after call.taken.length ps := by
  cases h with
  | @took p ps n =>
    rw [Call.taken_write_took, List.length_take]
    exact advance_eq_after fun q hq => hps q (by simp [hq])
  | again ha =>
    rw [Call.taken_of_again ha]
    exact (after_zero hps).symm
  | flushAgain ha => rfl

/-- **The bytes taken and the bytes left are the bytes there were.** -/
theorem Reacts.taken_append {ps left : List Piece} {call : Call}
    (h : Reacts ps call (.goOn left)) : call.taken ++ bytesOf left = bytesOf ps := by
  cases h with
  | @took p ps n =>
    rw [Call.taken_write_took, bytesOf_advance, ← List.append_assoc, List.take_append_drop,
      bytesOf_cons]
  | again ha => rw [Call.taken_of_again ha, List.nil_append]
  | flushAgain ha => rfl

theorem Reacts.ne_nil {ps left : List Piece} {call : Call} (h : Reacts ps call (.goOn left))
    (hps : ∀ p ∈ ps, p.bytes ≠ []) : ∀ p ∈ left, p.bytes ≠ [] := by
  rw [h.left_eq hps]
  exact after_ne_nil hps

theorem Reacts.offers {ps : List Piece} {call : Call} {reaction : Reaction}
    (h : Reacts ps call reaction) (hps : ∀ p ∈ ps, p.bytes ≠ []) : call.Offers := by
  cases h with
  | took n => exact hps _ (by simp)
  | again ha => exact hps _ (by simp)
  | cutOff hf => exact hps _ (by simp)
  | flushed => trivial
  | flushAgain ha => trivial
  | unflushed hf => trivial

/-- The fault that an ending reports. -/
def Ending.fault? : Ending → Option Fault
  | delivered => none
  | cutOff _ fault => some fault
  | unflushed fault => some fault

/-- A call that ends a delivery ends it with its own fault. -/
theorem Reacts.fault?_eq {ps : List Piece} {call : Call} {ending : Ending}
    (h : Reacts ps call (.stop ending)) : ending.fault? = call.fault? := by
  cases h with
  | cutOff hf => exact hf.symm
  | flushed => rfl
  | unflushed hf => exact hf.symm

/-- A call after which a delivery goes on leaves it with no fault. -/
theorem Reacts.fault?_eq_none {ps left : List Piece} {call : Call}
    (h : Reacts ps call (.goOn left)) : call.fault? = none := by
  have hnone : call.again = true → call.fault? = none := fun ha => by
    rw [Option.eq_none_iff_forall_ne_some]
    intro fault hf
    rw [Call.again_of_fault? hf] at ha
    cases ha
  cases h with
  | took n => rfl
  | again ha => exact hnone ha
  | flushAgain ha => exact hnone ha

/-- **Going on costs a byte or a retry.** -/
theorem Reacts.length_left_lt {ps left : List Piece} {call : Call}
    (h : Reacts ps call (.goOn left)) (hps : ∀ p ∈ ps, p.bytes ≠ []) :
    (bytesOf left).length < (bytesOf ps).length + call.again.toNat := by
  cases h with
  | @took p ps n =>
    have hlen : 0 < p.bytes.length := List.length_pos_iff.mpr (hps p (by simp))
    rw [bytesOf_advance, bytesOf_cons, List.length_append, List.length_append, List.length_drop]
    omega
  | again ha =>
    rw [Call.again, ha, Bool.toNat_true]
    omega
  | flushAgain ha =>
    rw [Call.again, ha, Bool.toNat_true]
    omega

/-! ## Finished deliveries -/

/-- **A finished delivery is a call that ends it, or a call and a finished delivery of what is
left.** -/
theorem deliver_induction {motive : List Piece → σ → Delivered σ → Prop}
    (stop : ∀ {ps : List Piece} {s s' : σ} {call : Call} {ending : Ending},
      Reacts ps call (.stop ending) → sink.Transcript s [call] s' →
        motive ps s ⟨ending, s', [call]⟩)
    (goOn : ∀ {ps left : List Piece} {s s' : σ} {call : Call} {d : Delivered σ},
      Reacts ps call (.goOn left) → sink.Transcript s [call] s' → motive left s' d →
        motive ps s { d with calls := call :: d.calls })
    {calls : Nat} {ps : List Piece} {s : σ} {d : Delivered σ}
    (h : deliver sink calls ps s = some d) : motive ps s d := by
  induction calls generalizing ps s d with
  | zero => simp [deliver] at h
  | succ calls ih =>
    rw [deliver_succ] at h
    split at h
    next ending s' call hnext =>
      obtain ⟨hr, ht⟩ := reacts_nextCall hnext
      cases h
      exact stop hr ht
    next left s' call hnext =>
      obtain ⟨hr, ht⟩ := reacts_nextCall hnext
      obtain ⟨d', hd, rfl⟩ := Option.map_eq_some_iff.mp h
      exact goOn hr ht (ih hd)

/-- **The calls of a delivery are calls that the sink did answer.** -/
theorem transcript_of_deliver {calls : Nat} {ps : List Piece} {s : σ} {d : Delivered σ}
    (h : deliver sink calls ps s = some d) : sink.Transcript s d.calls d.sink := by
  refine deliver_induction (motive := fun _ s d => sink.Transcript s d.calls d.sink) ?_ ?_ h
  · intro ps s s' call ending _ ht
    exact ht
  · intro ps left s s' call d _ ht ih
    exact ht.append ih

/-! ## Accounts -/

/-- The calls of a delivery of `ps` account for its ending. -/
def Ending.Accounts (ps : List Piece) (calls : List Call) : Ending → Prop
  | delivered => taken calls = bytesOf ps ∧ (flushAnswers calls).getLast? = some .done
  | unflushed fault =>
    taken calls = bytesOf ps ∧
      ∃ answer, (flushAnswers calls).getLast? = some answer ∧ answer.fault? = some fault
  | cutOff left fault =>
    (∃ rest, after (taken calls).length ps = left :: rest ∧
        taken calls ++ bytesOf (left :: rest) = bytesOf ps) ∧
      flushAnswers calls = [] ∧
      ∃ answer, (writeAnswers calls).getLast? = some answer ∧ answer.fault? = some fault

/-- A call that ends a delivery accounts for its ending alone. -/
theorem Reacts.accounts {ps : List Piece} {call : Call} {ending : Ending}
    (h : Reacts ps call (.stop ending)) (hps : ∀ p ∈ ps, p.bytes ≠ []) :
    ending.Accounts ps [call] := by
  cases h with
  | @cutOff p ps answer fault hf =>
    have htaken : taken [.write p.bytes answer] = [] := by
      rw [taken_cons, Call.taken_of_fault? hf, taken_nil, List.append_nil]
    refine ⟨⟨ps, ?_, ?_⟩, rfl, answer, rfl, hf⟩
    · rw [htaken]
      exact after_zero hps
    · rw [htaken, List.nil_append]
  | flushed => exact ⟨rfl, rfl⟩
  | @unflushed answer fault hf => exact ⟨rfl, answer, rfl, hf⟩

/-- The answer to the last flush stays the last when a call is put in front. -/
theorem getLast?_flushAnswers_cons {call : Call} {calls : List Call} {answer : FlushAnswer}
    (h : (flushAnswers calls).getLast? = some answer) :
    (flushAnswers (call :: calls)).getLast? = some answer := by
  cases call with
  | write offer a => exact h
  | flush a => rw [flushAnswers_cons_flush, List.getLast?_cons, h, Option.getD_some]

theorem getLast?_writeAnswers_cons {call : Call} {calls : List Call} {answer : WriteAnswer}
    (h : (writeAnswers calls).getLast? = some answer) :
    (writeAnswers (call :: calls)).getLast? = some answer := by
  cases call with
  | write offer a => rw [writeAnswers_cons_write, List.getLast?_cons, h, Option.getD_some]
  | flush a => exact h

/-- A call in front of a delivery that goes on accounts for its ending as well. -/
theorem Reacts.accounts_cons {ps left : List Piece} {call : Call} {calls : List Call}
    {ending : Ending} (h : Reacts ps call (.goOn left)) (hps : ∀ p ∈ ps, p.bytes ≠ [])
    (ha : ending.Accounts left calls) : ending.Accounts ps (call :: calls) := by
  have hbytes := h.taken_append
  cases ending with
  | delivered =>
    exact ⟨by rw [taken_cons, ha.1, hbytes], getLast?_flushAnswers_cons ha.2⟩
  | unflushed fault =>
    obtain ⟨hall, answer, hlast, hf⟩ := ha
    exact ⟨by rw [taken_cons, hall, hbytes], answer, getLast?_flushAnswers_cons hlast, hf⟩
  | cutOff front fault =>
    obtain ⟨⟨rest, hfront, hall⟩, hflush, answer, hlast, hf⟩ := ha
    have hat : after (taken (call :: calls)).length ps = front :: rest := by
      rw [taken_cons, List.length_append, ← after_after, ← h.left_eq hps, hfront]
    refine ⟨⟨rest, hat, ?_⟩, ?_, answer, getLast?_writeAnswers_cons hlast, hf⟩
    · rw [taken_cons, List.append_assoc, hall, hbytes]
    · -- a flush call is made only when no piece is left, and then none can be cut off
      cases h with
      | took n => exact hflush
      | again ha => exact hflush
      | flushAgain ha => cases hat

/-- **The calls of a finished delivery account for its ending.** -/
theorem accounts_of_deliver {calls : Nat} {ps : List Piece} {s : σ} {d : Delivered σ}
    (h : deliver sink calls ps s = some d) (hps : ∀ p ∈ ps, p.bytes ≠ []) :
    d.ending.Accounts ps d.calls := by
  refine deliver_induction
    (motive := fun ps _ d => (∀ p ∈ ps, p.bytes ≠ []) → d.ending.Accounts ps d.calls) ?_ ?_ h hps
  · intro ps s s' call ending hr _ hps
    exact hr.accounts hps
  · intro ps left s s' call d hr _ ih hps
    exact hr.accounts_cons hps (ih (hr.ne_nil hps))

/-- And so do those of a delivery of pieces some of which may hold no bytes. -/
theorem accounts_of_deliverAll {ps : List Piece} {s : σ} {d : Delivered σ}
    (h : deliverAll sink ps s = some d) :
    d.ending.Accounts (ps.filter (·.bytes ≠ [])) d.calls :=
  accounts_of_deliver h (by simp)

/-- What was taken is the beginning of what there was, whatever the ending. -/
theorem Ending.Accounts.taken_prefix_bytesOf {ps : List Piece} {calls : List Call} {ending : Ending}
    (h : ending.Accounts ps calls) : taken calls <+: bytesOf ps := by
  cases ending with
  | delivered => exact h.1 ▸ List.prefix_rfl
  | unflushed fault => exact h.1 ▸ List.prefix_rfl
  | cutOff left fault =>
    obtain ⟨⟨rest, -, hbytes⟩, -⟩ := h
    exact ⟨_, hbytes⟩

/-! ## Deliveries that end -/

/-- **A sink that asks for the same call again only so often is done with a delivery** after one
call for each byte, one for each time it may ask, and one to end. -/
theorem exists_deliver {good : σ → Prop} {retries : σ → Nat} (h : sink.Patient good retries)
    {calls : Nat} {ps : List Piece} {s : σ} (hs : good s) (hps : ∀ p ∈ ps, p.bytes ≠ [])
    (hle : (bytesOf ps).length + retries s < calls) :
    ∃ d, deliver sink calls ps s = some d := by
  induction calls generalizing ps s with
  | zero => omega
  | succ calls ih =>
    rw [deliver_succ]
    split
    next ending s' call _ => exact ⟨_, rfl⟩
    next left s' call hnext =>
      obtain ⟨hr, ht⟩ := reacts_nextCall hnext
      -- bytes left and retries left go down together by one call at least
      obtain ⟨hs', hretries⟩ := h hs (hr.offers hps) ht
      have hless := hr.length_left_lt hps
      obtain ⟨d, hd⟩ := ih hs' (hr.ne_nil hps) (by omega)
      exact ⟨_, by rw [hd]; rfl⟩

/-- Patience plays no part in what a sink answers. -/
theorem deliver_patience (patience : σ → Nat) (calls : Nat) (ps : List Piece) (s : σ) :
    deliver { sink with patience } calls ps s = deliver sink calls ps s := by
  induction calls generalizing ps s with
  | zero => rfl
  | succ calls ih =>
    rw [deliver_succ, deliver_succ]
    have hnext : nextCall { sink with patience } s ps = nextCall sink s ps := by
      cases ps <;> rfl
    rw [hnext]
    split
    next => rfl
    next left s' call _ => rw [ih left s']

/-- **Patience decides only how long a delivery is waited for**: what any number of calls comes to,
some patience waits for. -/
theorem exists_patience_iff {ps : List Piece} {s : σ} {d : Delivered σ} :
    (∃ patience, deliverAll { sink with patience } ps s = some d) ↔
      ∃ calls, deliver sink calls (ps.filter (·.bytes ≠ [])) s = some d := by
  constructor
  · rintro ⟨patience, h⟩
    rw [deliverAll, deliver_patience] at h
    exact ⟨_, h⟩
  · rintro ⟨calls, h⟩
    refine ⟨fun _ => calls, ?_⟩
    rw [deliverAll, deliver_patience]
    exact deliver_mono h (Nat.le_add_left calls _)

end FrameFeed
