import FrameFeed.Sink.Store
/-!
# Transcripts

A transcript is a run of calls together with the answers that a sink gave to them, each call made
in the state that the one before it left. What the sink took, how it last answered a write and
whether it was flushed at all are read off the transcript.

Main statement: `Sink.Transcript.toList_held`, a store ends up holding what it held before and the
bytes taken.
-/

namespace FrameFeed

variable {σ β : Type}

/-! ## Answers -/

/-- The answer to a write call. -/
def Call.writeAnswer? : Call → Option WriteAnswer
  | write _ answer => some answer
  | flush _ => none

/-- The answer to a flush call. -/
def Call.flushAnswer? : Call → Option FlushAnswer
  | write .. => none
  | flush answer => some answer

/-- The answers to the write calls, in order. -/
def writeAnswers (calls : List Call) : List WriteAnswer := calls.filterMap Call.writeAnswer?

/-- The answers to the flush calls, in order. -/
def flushAnswers (calls : List Call) : List FlushAnswer := calls.filterMap Call.flushAnswer?

/-- The fault that a write answer leaves the caller with. Taking nothing counts as one; an
interrupted call does not. -/
def WriteAnswer.fault? : WriteAnswer → Option Fault
  | took 0 => some (.ofKind .writeZero)
  | took (_ + 1) => none
  | notReady => none
  | failed fault => if fault.isInterrupted then none else some fault

/-- The fault that a flush answer leaves the caller with. -/
def FlushAnswer.fault? : FlushAnswer → Option Fault
  | done => none
  | notReady => none
  | failed fault => if fault.isInterrupted then none else some fault

theorem WriteAnswer.fault?_eq_some_iff {answer : WriteAnswer} {fault : Fault} :
    answer.fault? = some fault ↔
      answer = .took 0 ∧ fault = .ofKind .writeZero ∨
        answer = .failed fault ∧ fault.isInterrupted = false := by
  cases answer with
  | took n =>
    cases n with
    | zero =>
      constructor
      · exact fun h => Or.inl ⟨rfl, (Option.some.inj h).symm⟩
      · rintro (⟨-, rfl⟩ | ⟨h, -⟩)
        · rfl
        · cases h
    | succ n => simp [fault?]
  | notReady => simp [fault?]
  | failed other =>
    simp only [fault?, Option.ite_none_left_eq_some, Option.some.injEq]
    constructor
    · rintro ⟨hi, rfl⟩
      exact Or.inr ⟨rfl, by simpa using hi⟩
    · rintro (⟨h, -⟩ | ⟨h, hi⟩)
      · cases h
      · cases h
        exact ⟨by simp [hi], rfl⟩

theorem FlushAnswer.fault?_eq_some_iff {answer : FlushAnswer} {fault : Fault} :
    answer.fault? = some fault ↔ answer = .failed fault ∧ fault.isInterrupted = false := by
  cases answer with
  | done => simp [fault?]
  | notReady => simp [fault?]
  | failed other =>
    simp only [fault?, Option.ite_none_left_eq_some, Option.some.injEq]
    constructor
    · rintro ⟨hi, rfl⟩
      exact ⟨rfl, by simpa using hi⟩
    · rintro ⟨h, hi⟩
      cases h
      exact ⟨by simp [hi], rfl⟩

theorem FlushAnswer.again_of_fault? {answer : FlushAnswer} {fault : Fault}
    (h : answer.fault? = some fault) : answer.again = false := by
  obtain ⟨rfl, hi⟩ := FlushAnswer.fault?_eq_some_iff.mp h
  exact hi

/-- Whether a call was answered by asking for the same call again. -/
def Call.again : Call → Bool
  | write _ answer => answer.again
  | flush answer => answer.again

/-- The fault that a call leaves the caller with. -/
def Call.fault? : Call → Option Fault
  | write _ answer => answer.fault?
  | flush answer => answer.fault?

/-- Whether a call puts anything before the sink: a flush does, and a write of some bytes. -/
def Call.Offers : Call → Prop
  | write offer _ => offer ≠ []
  | flush _ => True

@[simp] theorem writeAnswers_nil : writeAnswers [] = [] := rfl

@[simp] theorem writeAnswers_cons_write (offer : List UInt8) (answer : WriteAnswer)
    (calls : List Call) :
    writeAnswers (.write offer answer :: calls) = answer :: writeAnswers calls := rfl

@[simp] theorem flushAnswers_nil : flushAnswers [] = [] := rfl

@[simp] theorem flushAnswers_cons_write (offer : List UInt8) (answer : WriteAnswer)
    (calls : List Call) : flushAnswers (.write offer answer :: calls) = flushAnswers calls := rfl

@[simp] theorem flushAnswers_cons_flush (answer : FlushAnswer) (calls : List Call) :
    flushAnswers (.flush answer :: calls) = answer :: flushAnswers calls := rfl

@[simp] theorem Call.taken_flush (answer : FlushAnswer) : (Call.flush answer).taken = [] := rfl

@[simp] theorem Call.taken_write_took (offer : List UInt8) (n : Nat) :
    (Call.write offer (.took n)).taken = offer.take n := rfl

/-- A call that asks for the same call again leaves the caller with no fault. -/
theorem Call.again_of_fault? {call : Call} {fault : Fault} (h : call.fault? = some fault) :
    call.again = false := by
  cases call with
  | write offer answer =>
    rcases WriteAnswer.fault?_eq_some_iff.mp h with ⟨rfl, -⟩ | ⟨rfl, hi⟩
    · rfl
    · exact hi
  | flush answer => exact FlushAnswer.again_of_fault? h

/-- An answer that asks for the same call again took nothing. -/
theorem Call.taken_of_again {offer : List UInt8} {answer : WriteAnswer}
    (h : answer.again = true) : (Call.write offer answer).taken = [] := by
  cases answer with
  | took n => simp [WriteAnswer.again] at h
  | notReady => rfl
  | failed fault => rfl

/-- A call that is asked for again, be it a flush, took nothing. -/
theorem Call.taken_eq_nil {call : Call} (h : call.again = true) : call.taken = [] := by
  cases call with
  | write offer answer => exact Call.taken_of_again h
  | flush answer => rfl

/-- And so did one that ends the delivery. -/
theorem Call.taken_of_fault? {offer : List UInt8} {answer : WriteAnswer} {fault : Fault}
    (h : answer.fault? = some fault) : (Call.write offer answer).taken = [] := by
  cases answer with
  | took n =>
    cases n with
    | zero => rfl
    | succ n => simp [WriteAnswer.fault?] at h
  | notReady => rfl
  | failed fault => rfl

/-! ## Transcripts -/

/-- The calls that lead a sink from one state to another, with the sink's own answers. -/
inductive Sink.Transcript (sink : Sink σ) : σ → List Call → σ → Prop
  | nil (s : σ) : Transcript sink s [] s
  | write {offer : List UInt8} {answer : WriteAnswer} {s s₁ s₂ : σ} {calls : List Call} :
      sink.write offer s = (answer, s₁) → Transcript sink s₁ calls s₂ →
        Transcript sink s (.write offer answer :: calls) s₂
  | flush {answer : FlushAnswer} {s s₁ s₂ : σ} {calls : List Call} :
      sink.flush s = (answer, s₁) → Transcript sink s₁ calls s₂ →
        Transcript sink s (.flush answer :: calls) s₂

theorem Sink.Transcript.append {sink : Sink σ} {s s₁ s₂ : σ} {calls more : List Call}
    (h : sink.Transcript s calls s₁) (h' : sink.Transcript s₁ more s₂) :
    sink.Transcript s (calls ++ more) s₂ := by
  induction h with
  | nil s => exact h'
  | write hw _ ih => exact .write hw (ih h')
  | flush hf _ ih => exact .flush hf (ih h')

/-- **A store holds what it held before and the bytes taken.** -/
theorem Sink.Transcript.toList_held {b : Behaviour β} {s s' : Store β} {calls : List Call}
    (h : b.sink.Transcript s calls s') :
    s'.held.toList = s.held.toList ++ taken calls := by
  induction h with
  | nil s => simp
  | @write offer answer s s₁ s₂ calls hw _ ih =>
    have hheld := b.toList_held_write offer s
    rw [hw] at hheld
    rw [ih, hheld, taken_cons, List.append_assoc]
  | @flush answer s s₁ s₂ calls hf _ ih =>
    have hheld := b.held_flush s
    rw [hf] at hheld
    rw [ih, hheld, taken_cons, Call.taken_flush, List.nil_append]

/-- A sink that asks for the same call again no more than `retries` says, where `retries` never
grows and each such answer uses one up. Nothing is said of states that are not `good`, nor of empty
offers. -/
def Sink.Patient (sink : Sink σ) (good : σ → Prop) (retries : σ → Nat) : Prop :=
  ∀ {call : Call} {s s' : σ}, good s → call.Offers → sink.Transcript s [call] s' →
    good s' ∧ retries s' + call.again.toNat ≤ retries s

end FrameFeed
