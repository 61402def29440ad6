import FrameFeed.EncodeError
/-!
# What the program reports on failure

A failure is an exit code, by which a calling program decides, and a message for people. The code
of a fault depends on its kind alone; a context says what was being done.

Main statements: `Fault.reported_iff` and `EncodeError.reported_iff`, what is reported of a fault
and of a frame that did not arrive.
-/

namespace FrameFeed

/-- How the program ends. -/
inductive ExitCode
  | success
  /-- The file is not there, or the reader is gone. -/
  | failure
  | permissionDenied
  /-- The input cannot be carried by the format. -/
  | dataInvalid
  /-- An argument makes no sense. -/
  | usage
  | timeout
  /-- Any other fault. -/
  | internal
  deriving DecidableEq, Repr

/-- The number that a process ends with. -/
def ExitCode.number : ExitCode → Nat
  | success => 0
  | failure => 1
  | permissionDenied => 50
  | dataInvalid => 60
  | usage => 64
  | timeout => 124
  | internal => 125

/-- The code for a fault of a given kind. -/
def FaultKind.exitCode : FaultKind → ExitCode
  | permissionDenied => .permissionDenied
  | timedOut | wouldBlock => .timeout
  | brokenPipe | notFound => .failure
  | _ => .internal

/-- An exit code and the message that goes with it. -/
structure Failure where
  code : ExitCode
  message : String
  deriving DecidableEq, Repr

namespace Failure

/-- The report of a fault. -/
def ofFault (context : String) (fault : Fault) : Failure :=
  ⟨fault.kind.exitCode, context ++ ": " ++ fault.text⟩

/-- The report of a frame that was not delivered. -/
def ofEncodeError (context : String) : EncodeError → Failure
  | e@(.frameTooLarge ..) => ⟨.dataInvalid, context ++ ": " ++ e.message⟩
  | .sinkWrite phase fault => ofFault (context ++ " (during " ++ phase.name ++ ")") fault
  | .sinkFlush fault => ofFault (context ++ " (flush)") fault

end Failure

/-! ## What is reported -/

/-- What is reported of a fault that was met in a context. -/
inductive Fault.Reported (context : String) (fault : Fault) : Failure → Prop
  /-- It was not allowed. -/
  | denied : fault.kind = .permissionDenied →
      Reported context fault ⟨.permissionDenied, context ++ ": " ++ fault.text⟩
  /-- It took too long. -/
  | late : fault.kind = .timedOut ∨ fault.kind = .wouldBlock →
      Reported context fault ⟨.timeout, context ++ ": " ++ fault.text⟩
  /-- The reader or the file is not there. -/
  | gone : fault.kind = .brokenPipe ∨ fault.kind = .notFound →
      Reported context fault ⟨.failure, context ++ ": " ++ fault.text⟩
  /-- It is any other fault. -/
  | other :
      fault.kind ∉ [.permissionDenied, .timedOut, .wouldBlock, .brokenPipe, .notFound] →
      Reported context fault ⟨.internal, context ++ ": " ++ fault.text⟩

/-- What is reported of a frame that did not arrive. -/
inductive EncodeError.Reported (context : String) : EncodeError → Failure → Prop
  | frameTooLarge {jpegSize max : Nat} :
      Reported context (.frameTooLarge jpegSize max) ⟨.dataInvalid, context ++ ": " ++
        ("frame too large (" ++ toString jpegSize ++ " byte image, document max " ++
          toString max ++ ")")⟩
  | sinkWrite {phase : Phase} {fault : Fault} {failure : Failure} :
      fault.Reported (context ++ " (during " ++ phase.name ++ ")") failure →
      Reported context (.sinkWrite phase fault) failure
  | sinkFlush {fault : Fault} {failure : Failure} :
      fault.Reported (context ++ " (flush)") failure → Reported context (.sinkFlush fault) failure

theorem FaultKind.exitCode_eq_internal {kind : FaultKind}
    (h : kind ∉ [permissionDenied, timedOut, wouldBlock, brokenPipe, notFound]) :
    kind.exitCode = .internal := by
  cases kind with
  | permissionDenied | timedOut | wouldBlock | brokenPipe | notFound => exact absurd (by decide) h
  | _ => rfl

theorem Fault.reported_iff {context : String} {fault : Fault} {failure : Failure} :
    fault.Reported context failure ↔ failure = .ofFault context fault := by
  constructor
  · intro h
    cases h with
    | denied hkind => rw [Failure.ofFault, hkind]; rfl
    | late hkind => rcases hkind with hkind | hkind <;> (rw [Failure.ofFault, hkind]; rfl)
    | gone hkind => rcases hkind with hkind | hkind <;> (rw [Failure.ofFault, hkind]; rfl)
    | other hkind => rw [Failure.ofFault, FaultKind.exitCode_eq_internal hkind]
  · rintro rfl
    rw [Failure.ofFault]
    cases hkind : fault.kind with
    | permissionDenied => exact .denied hkind
    | timedOut => exact .late (Or.inl hkind)
    | wouldBlock => exact .late (Or.inr hkind)
    | brokenPipe => exact .gone (Or.inl hkind)
    | notFound => exact .gone (Or.inr hkind)
    | _ => exact .other (by rw [hkind]; decide)

theorem EncodeError.reported_iff {context : String} {e : EncodeError} {failure : Failure} :
    e.Reported context failure ↔ failure = .ofEncodeError context e := by
  constructor
  · intro h
    cases h with
    | frameTooLarge => rfl
    | sinkWrite hfault | sinkFlush hfault => exact Fault.reported_iff.mp hfault
  · rintro rfl
    cases e with
    | frameTooLarge jpegSize max => exact .frameTooLarge
    | sinkWrite phase fault => exact .sinkWrite (Fault.reported_iff.mpr rfl)
    | sinkFlush fault => exact .sinkFlush (Fault.reported_iff.mpr rfl)

end FrameFeed
