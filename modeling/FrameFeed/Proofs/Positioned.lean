import FrameFeed.Proofs.Delivery
import FrameFeed.Sink.Script
/-!
# Sinks that stop at places

A sink is positioned by its bytes when the number of bytes it holds decides what it answers to a
write: how much it takes, or how it stops. Where a delivery to it ends then does not depend on how
the bytes are cut into offers, since no write reaches past a place where nothing may be taken.

Main statements: `Behaviour.Follows.settles`, where a delivery ends and how, and `Script.follows`,
a script is such a sink once its listed writes are used up.
-/

namespace FrameFeed

open Wire

variable {β : Type}

/-! ## Positions -/

/-- How a sink that is positioned by its bytes answers writes. -/
structure Positions where
  /-- The most bytes that a write takes; none where it takes any number. -/
  cap : Nat → Option Nat
  /-- The answer to a write where no byte may be taken. -/
  stop : Nat → WriteAnswer
  /-- It is an end: nothing is taken, or the write fails other than by being interrupted. -/
  stop_eq : ∀ p, stop p = .took 0 ∨ ∃ fault, stop p = .failed fault ∧ fault.isInterrupted = false
  /-- A write does not reach past a place where no byte may be taken. -/
  cap_ne_zero : ∀ p q, p < q → (∀ n, cap p = some n → q < p + n) → cap q ≠ some 0

namespace Positions

/-- The answer to an offer of `offered` bytes when `p` are held. -/
def answer (P : Positions) (p offered : Nat) : WriteAnswer :=
  match P.cap p with
  | none => .took offered
  | some 0 => P.stop p
  | some (n + 1) => .took (min offered (n + 1))

theorem answer_of_stop (P : Positions) {p offered : Nat} (h : P.cap p = some 0) :
    P.answer p offered = P.stop p := by
  rw [answer, h]

theorem answer_of_cap (P : Positions) {p offered n : Nat} (h : P.cap p = some n) (hn : n ≠ 0) :
    P.answer p offered = .took (min offered n) := by
  obtain ⟨m, rfl⟩ := Nat.exists_eq_succ_of_ne_zero hn
  rw [answer, h]

/-- Bytes may be taken at each of the `k` places from `p` on. -/
def Open (P : Positions) (p k : Nat) : Prop := ∀ j < k, P.cap (p + j) ≠ some 0

theorem open_zero (P : Positions) (p : Nat) : P.Open p 0 := fun _ h => nomatch h

theorem Open.append {P : Positions} {p k l : Nat} (h : P.Open p k) (h' : P.Open (p + k) l) :
    P.Open p (k + l) := by
  intro j hj
  by_cases hjk : j < k
  · exact h j hjk
  · have hplace := h' (j - k) (by omega)
    rwa [show p + k + (j - k) = p + j by omega] at hplace

/-- A stop does not ask for the same write again. -/
theorem again_stop (P : Positions) (p : Nat) : (P.stop p).again = false := by
  rcases P.stop_eq p with h | ⟨fault, h, hi⟩
  · rw [h]
    rfl
  · rw [h]
    exact hi

/-- **An answer takes bytes or is the stop**: it never asks for the same write again, and what it
takes lies in front of the next place where no byte may be taken. -/
theorem answer_cases (P : Positions) (p : Nat) {offered : Nat} (h : offered ≠ 0) :
    (∃ n < offered, P.answer p offered = .took (n + 1) ∧ P.Open p (n + 1)) ∨
      P.cap p = some 0 ∧ P.answer p offered = P.stop p := by
  -- the places that a write reaches are the one it starts at and those which `cap_ne_zero` is about
  have hopen : ∀ n, (∀ m, P.cap p = some m → n < m) → P.Open p (n + 1) := by
    intro n hn j hj
    cases j with
    | zero =>
      intro hzero
      exact absurd (hn 0 hzero) (Nat.not_lt_zero n)
    | succ j =>
      refine P.cap_ne_zero p _ (by omega) fun m hm => ?_
      have := hn m hm
      omega
  rw [answer]
  split
  next hcap =>
    obtain ⟨n, rfl⟩ := Nat.exists_eq_succ_of_ne_zero h
    exact Or.inl ⟨n, Nat.lt_succ_self n, rfl, hopen n fun m hm => by rw [hcap] at hm; cases hm⟩
  next hcap => exact Or.inr ⟨hcap, rfl⟩
  next m hcap =>
    obtain ⟨n, hn⟩ : ∃ n, min offered (m + 1) = n + 1 :=
      Nat.exists_eq_succ_of_ne_zero (by omega)
    refine Or.inl ⟨n, by omega, by rw [hn], hopen n fun l hl => ?_⟩
    rw [hcap] at hl
    cases hl
    omega

end Positions

/-! ## Behaviours that follow positions -/

/-- A store's behaviour is positioned by the bytes held, in the states that are `good`: writes are
answered as the positions say, and flushes by a list of answers and then with success. A write
leaves that list alone, and a flush uses up one answer. -/
structure Behaviour.Follows (b : Behaviour β) (P : Positions) (good : β → Prop)
    (answers : β → List FlushAnswer) : Prop where
  write : ∀ held offer x, good x → offer ≠ [] →
    (b.write held offer x).1 = P.answer held.size offer.length ∧
      good (b.write held offer x).2 ∧ answers (b.write held offer x).2 = answers x
  flush : ∀ held x, good x →
    (b.flush held x).1 = (answers x).headD .done ∧
      good (b.flush held x).2 ∧ answers (b.flush held x).2 = (answers x).tail
  /-- The caller waits for the flushes that are to be made again. -/
  patience : ∀ x, good x → (answers x).countP (·.again) ≤ b.patience x

/-- How flushing ends: with a fault or without one, and the answers that are left. -/
def flushEnd : List FlushAnswer → Option Fault × List FlushAnswer
  | [] => (none, [])
  | answer :: answers => if answer.again then flushEnd answers else (answer.fault?, answers)

/-- An answer that asks for the same flush again changes nothing about how flushing ends. -/
theorem flushEnd_tail {answers : List FlushAnswer} (h : (answers.headD .done).again = true) :
    flushEnd answers.tail = flushEnd answers := by
  cases answers with
  | nil => cases h
  | cons answer answers => exact (if_pos h).symm

/-- And any other decides it. -/
theorem flushEnd_eq {answers : List FlushAnswer} (h : (answers.headD .done).again = false) :
    flushEnd answers = ((answers.headD .done).fault?, answers.tail) := by
  cases answers with
  | nil => rfl
  | cons answer answers => exact if_neg (by simpa using h)

/-- An ending of a delivery of `size` bytes to a sink that held `p`, of which `k` were taken: the
sink stops where no byte may be taken, or all are taken and flushing ends as the answers say. -/
def Ending.Settles (P : Positions) (p size k : Nat) (before after : List FlushAnswer) :
    Ending → Prop
  | delivered => k = size ∧ flushEnd before = (none, after)
  | unflushed fault => k = size ∧ flushEnd before = (some fault, after)
  | cutOff _ fault =>
    k < size ∧ P.cap (p + k) = some 0 ∧ (P.stop (p + k)).fault? = some fault ∧ before = after

/-- What bytes taken in front do to where a delivery ends. -/
theorem Ending.Settles.add {P : Positions} {p size k n : Nat} {before after : List FlushAnswer}
    {ending : Ending} (h : ending.Settles P (p + n) size k before after) :
    ending.Settles P p (n + size) (n + k) before after := by
  cases ending with
  | delivered => exact ⟨by rw [h.1], h.2⟩
  | unflushed fault => exact ⟨by rw [h.1], h.2⟩
  | cutOff left fault =>
    obtain ⟨hk, hstop⟩ := h
    rw [Nat.add_assoc] at hstop
    exact ⟨by omega, hstop⟩

/-- With no bytes to take, only flushing is left. -/
theorem Ending.Settles.of_flushEnd {P : Positions} {p k : Nat}
    {before before' after : List FlushAnswer} {ending : Ending}
    (h : ending.Settles P p 0 k before after) (heq : flushEnd before = flushEnd before') :
    ending.Settles P p 0 k before' after := by
  cases ending with
  | delivered => exact ⟨h.1, heq ▸ h.2⟩
  | unflushed fault => exact ⟨h.1, heq ▸ h.2⟩
  | cutOff left fault => exact absurd h.1 (Nat.not_lt_zero k)

namespace Behaviour.Follows

variable {b : Behaviour β} {P : Positions} {good : β → Prop} {answers : β → List FlushAnswer}

/-- What a write call does to a store. -/
theorem of_write (hb : b.Follows P good answers) {s s' : Store β} {offer : List UInt8}
    {answer : WriteAnswer} (hs : good s.behaviour) (hne : offer ≠ [])
    (h : b.sink.Transcript s [.write offer answer] s') :
    answer = P.answer s.held.size offer.length ∧ good s'.behaviour ∧
      answers s'.behaviour = answers s.behaviour := by
  cases h with
  | write hw hnil =>
    cases hnil
    obtain ⟨rfl, rfl⟩ := Prod.mk.inj hw
    exact hb.write s.held offer s.behaviour hs hne

/-- What a flush call does to a store. -/
theorem of_flush (hb : b.Follows P good answers) {s s' : Store β} {answer : FlushAnswer}
    (hs : good s.behaviour) (h : b.sink.Transcript s [.flush answer] s') :
    answer = (answers s.behaviour).headD .done ∧ good s'.behaviour ∧
      answers s'.behaviour = (answers s.behaviour).tail := by
  cases h with
  | flush hf hnil =>
    cases hnil
    obtain ⟨rfl, rfl⟩ := Prod.mk.inj hf
    exact hb.flush s.held s.behaviour hs

/-- A write takes bytes all of which may be taken, or stops the delivery where none may. -/
theorem write_cases (hb : b.Follows P good answers) {s s' : Store β} {offer : List UInt8}
    {answer : WriteAnswer} (hs : good s.behaviour) (hne : offer ≠ [])
    (h : b.sink.Transcript s [.write offer answer] s') :
    (∃ n < offer.length, answer = .took (n + 1) ∧ P.Open s.held.size (n + 1)) ∨
      P.cap s.held.size = some 0 ∧ answer = P.stop s.held.size := by
  obtain ⟨rfl, -, -⟩ := hb.of_write hs hne h
  exact P.answer_cases _ (by simpa using hne)

/-- **Where a delivery ends and how**, the bytes held before it and the answers to flushes say: up
to there every byte may be taken, and what happens there does not depend on the pieces. -/
theorem settles (hb : b.Follows P good answers) {calls : Nat} {ps : List Piece} {s : Store β}
    {d : Delivered (Store β)} (h : deliver b.sink calls ps s = some d) (hs : good s.behaviour)
    (hps : ∀ p ∈ ps, p.bytes ≠ []) :
    good d.sink.behaviour ∧ P.Open s.held.size (taken d.calls).length ∧
      d.ending.Settles P s.held.size (bytesOf ps).length (taken d.calls).length
        (answers s.behaviour) (answers d.sink.behaviour) := by
  refine deliver_induction
    (motive := fun ps s d => good s.behaviour → (∀ p ∈ ps, p.bytes ≠ []) →
      good d.sink.behaviour ∧ P.Open s.held.size (taken d.calls).length ∧
        d.ending.Settles P s.held.size (bytesOf ps).length (taken d.calls).length
          (answers s.behaviour) (answers d.sink.behaviour)) ?_ ?_ h hs hps
  · -- the last call: a write where no byte may be taken, or the flush that decides
    intro ps s s' call ending hr ht hs hps
    cases hr with
    | @cutOff p ps answer fault hf =>
      have hne : p.bytes ≠ [] := hps p List.mem_cons_self
      have hpos : 0 < p.bytes.length := List.length_pos_iff.mpr hne
      obtain ⟨-, hs', hkept⟩ := hb.of_write hs hne ht
      have htaken : taken [.write p.bytes answer] = [] := by
        rw [taken_cons, Call.taken_of_fault? hf, taken_nil, List.append_nil]
      rw [htaken]
      rcases hb.write_cases hs hne ht with ⟨n, -, rfl, -⟩ | ⟨hcap, rfl⟩
      · cases hf
      · refine ⟨hs', P.open_zero _, ?_, hcap, hf, hkept.symm⟩
        rw [bytesOf_cons, List.length_append, List.length_nil]
        omega
    | flushed =>
      obtain ⟨hanswer, hs', hrest⟩ := hb.of_flush hs ht
      refine ⟨hs', P.open_zero _, rfl, ?_⟩
      rw [flushEnd_eq (by rw [← hanswer]; rfl), ← hanswer, hrest]
      rfl
    | @unflushed answer fault hf =>
      obtain ⟨hanswer, hs', hrest⟩ := hb.of_flush hs ht
      refine ⟨hs', P.open_zero _, rfl, ?_⟩
      rw [flushEnd_eq (by rw [← hanswer]; exact FlushAnswer.again_of_fault? hf), ← hanswer, hf,
        hrest]
  · -- a call before it: the bytes it took lie in front of the end that the rest comes to
    intro ps left s s' call d hr ht ih hs hps
    have hleft := hr.ne_nil hps
    have hheld : s'.held.size = s.held.size + call.taken.length := by
      have hlist := congrArg List.length ht.toList_held
      simpa using hlist
    have hbytes : (bytesOf ps).length = call.taken.length + (bytesOf left).length := by
      rw [← hr.taken_append, List.length_append]
    dsimp only
    rw [taken_cons, List.length_append, hbytes]
    cases hr with
    | @took p ps n =>
      have hne : p.bytes ≠ [] := hps p List.mem_cons_self
      obtain ⟨-, hs', hkept⟩ := hb.of_write hs hne ht
      obtain ⟨hgood, hopen, hsettles⟩ := ih hs' hleft
      rw [hheld, hkept] at hsettles
      rw [hheld] at hopen
      refine ⟨hgood, Positions.Open.append ?_ hopen, hsettles.add⟩
      rcases hb.write_cases hs hne ht with ⟨m, hm, hanswer, hreach⟩ | ⟨-, hanswer⟩
      · cases hanswer
        rwa [Call.taken_write_took, List.length_take_of_le hm]
      · have hstop := P.stop_eq s.held.size
        rw [← hanswer] at hstop
        simp at hstop
    | @again p ps answer ha =>
      have hne : p.bytes ≠ [] := hps p List.mem_cons_self
      rcases hb.write_cases hs hne ht with ⟨n, -, rfl, -⟩ | ⟨-, rfl⟩
      · cases ha
      · rw [P.again_stop] at ha
        cases ha
    | @flushAgain answer ha =>
      obtain ⟨rfl, hs', hrest⟩ := hb.of_flush hs ht
      obtain ⟨hgood, hopen, hsettles⟩ := ih hs' hleft
      rw [hheld] at hopen hsettles
      rw [hrest] at hsettles
      rw [Call.taken_flush, List.length_nil, Nat.zero_add, Nat.zero_add]
      exact ⟨hgood, hopen, hsettles.of_flushEnd (flushEnd_tail ha)⟩

end Behaviour.Follows

/-! ## Scripts -/

/-- An action that ends a delivery: nothing is taken, or the write fails other than by being
interrupted. -/
def Action.Ends : Action → Prop
  | .upTo n => n = 0
  | .fail fault => fault.isInterrupted = false
  | _ => False

/-- What an action that ends a delivery answers does not depend on the offer. -/
theorem Action.Ends.answer_eq {action : Action} (h : action.Ends) (offer : List UInt8) :
    action.answer offer = action.answer [] := by
  cases action with
  | all => cases h
  | upTo n =>
    obtain rfl : n = 0 := h
    rfl
  | notReady => cases h
  | fail fault => rfl

namespace Script

variable {chunk limit : Option Nat} {whenFull : Action}

/-- The most bytes that a write takes when `p` are held, the listed answers being used up. -/
def room (chunk limit : Option Nat) (p : Nat) : Option Nat :=
  match limit with
  | none => chunk
  | some limit =>
    match chunk with
    | none => some (limit - p)
    | some n => some (min n (limit - p))

/-- The answer to a write where that is nothing. -/
def halt (limit : Option Nat) (whenFull : Action) (p : Nat) : WriteAnswer :=
  match limit with
  | none => .took 0
  | some limit => if limit ≤ p then whenFull.answer [] else .took 0

/-- The positions at which a script stops once its listed writes are used up. -/
def positions (chunk limit : Option Nat) (whenFull : Action) (h : whenFull.Ends) : Positions where
  cap := room chunk limit
  stop := halt limit whenFull
  stop_eq p := by
    have hfull : whenFull.answer [] = .took 0 ∨
        ∃ fault, whenFull.answer [] = .failed fault ∧ fault.isInterrupted = false := by
      cases whenFull with
      | all => cases h
      | upTo n => exact Or.inl (by simp [Action.answer])
      | notReady => cases h
      | fail fault => exact Or.inr ⟨fault, rfl, h⟩
    cases limit with
    | none => exact Or.inl rfl
    | some limit =>
      rw [halt]
      split
      next => exact hfull
      next => exact Or.inl rfl
  cap_ne_zero p q hpq hreach hzero := by
    cases limit with
    | none =>
      have := hreach 0 hzero
      omega
    | some limit =>
      cases chunk with
      | none =>
        have := hreach (limit - p) rfl
        have : limit - q = 0 := Option.some.inj hzero
        omega
      | some n =>
        have := hreach (min n (limit - p)) rfl
        have : min n (limit - q) = 0 := Option.some.inj hzero
        omega

/-- The states of a script whose listed writes are used up. -/
structure Spent (chunk limit : Option Nat) (whenFull : Action) (script : Script) : Prop where
  writes : script.writes = []
  chunk_eq : script.chunk = chunk
  limit_eq : script.limit = limit
  whenFull_eq : script.whenFull = whenFull

theorem later_of_full {script : Script} {n : Nat} {held : Array UInt8}
    (hlimit : script.limit = some n) (hfull : n ≤ held.size) (offer : List UInt8) :
    script.later held offer = script.whenFull.answer offer := by
  have hroom : n - held.size = 0 := Nat.sub_eq_zero_of_le hfull
  rw [later, hlimit]
  dsimp only
  rw [hroom]

theorem later_of_room {script : Script} {n : Nat} {held : Array UInt8}
    (hlimit : script.limit = some n) (hroom : held.size < n) (offer : List UInt8) :
    script.later held offer = script.bite.answer (offer.take (n - held.size)) := by
  obtain ⟨left, hleft⟩ : ∃ left, n - held.size = left + 1 :=
    Nat.exists_eq_succ_of_ne_zero (by omega)
  rw [later, hlimit]
  dsimp only
  rw [hleft]

/-- **What a script answers is what its positions say**, its listed writes being used up. -/
theorem later_eq (h : whenFull.Ends) {script : Script} (hs : script.Spent chunk limit whenFull)
    (held : Array UInt8) (offer : List UInt8) :
    script.later held offer = (positions chunk limit whenFull h).answer held.size offer.length := by
  obtain ⟨-, rfl, rfl, rfl⟩ := hs
  cases hlimit : script.limit with
  | none =>
    rw [later, hlimit, bite]
    cases hchunk : script.chunk with
    | none => rfl
    | some n =>
      dsimp only
      rw [Action.answer, List.length_take]
      by_cases hn : n = 0
      · rw [Positions.answer_of_stop _ (congrArg some hn), hn, Nat.zero_min]
        rfl
      · rw [Positions.answer_of_cap _ rfl hn, Nat.min_comm]
  | some limit =>
    by_cases hfull : limit ≤ held.size
    · -- no room is left, whatever the chunk size
      have hroom : room script.chunk (some limit) held.size = some 0 := by
        have hzero : limit - held.size = 0 := Nat.sub_eq_zero_of_le hfull
        cases script.chunk with
        | none => exact congrArg some hzero
        | some n => exact congrArg some (by rw [hzero, Nat.min_zero])
      rw [later_of_full hlimit hfull, h.answer_eq, Positions.answer_of_stop _ hroom]
      exact (if_pos hfull).symm
    · rw [later_of_room hlimit (Nat.lt_of_not_le hfull), bite]
      cases hchunk : script.chunk with
      | none =>
        rw [Positions.answer_of_cap _ rfl (Nat.sub_ne_zero_of_lt (Nat.lt_of_not_le hfull)),
          Action.answer, List.length_take, Nat.min_comm]
      | some n =>
        have hroom : room (some n) (some limit) held.size = some (min n (limit - held.size)) := rfl
        dsimp only
        rw [Action.answer, List.length_take, List.length_take]
        by_cases hn : n = 0
        · -- a chunk of nothing is a place to stop that is not for being full
          rw [hn, Nat.zero_min] at hroom
          rw [hn, Positions.answer_of_stop _ hroom, Nat.zero_min]
          exact (if_neg hfull).symm
        · rw [Positions.answer_of_cap _ hroom (by omega)]
          congr 1
          omega

/-- **A script is positioned by the bytes held** once its listed writes are used up, with any chunk
size and any limit, if what it keeps for being full ends a delivery. -/
theorem follows (h : whenFull.Ends) :
    behaviour.Follows (positions chunk limit whenFull h) (Spent chunk limit whenFull)
      Script.flushes where
  write held offer script hs _ := by
    have hwrite : behaviour.write held offer script = (script.later held offer, script) := by
      show Script.write held offer script = _
      rw [Script.write, hs.writes]
    rw [hwrite]
    exact ⟨later_eq h hs held offer, hs, rfl⟩
  flush held script hs := by
    obtain ⟨hw, hc, hl, hf⟩ := hs
    show (script.flush).1 = _ ∧ Spent chunk limit whenFull (script.flush).2 ∧
      (script.flush).2.flushes = _
    rw [Script.flush]
    cases hanswers : script.flushes with
    | nil => exact ⟨rfl, ⟨hw, hc, hl, hf⟩, hanswers⟩
    | cons answer rest =>
      by_cases hdone : answer = .done
      · rw [hdone]
        exact ⟨rfl, ⟨hw, hc, hl, hf⟩, rfl⟩
      · dsimp only
        rw [if_neg hdone]
        exact ⟨rfl, ⟨hw, hc, hl, hf⟩, rfl⟩
  patience script hs :=
    Nat.le_trans List.countP_le_length (Nat.le_add_left _ script.writes.length)

end Script

end FrameFeed
