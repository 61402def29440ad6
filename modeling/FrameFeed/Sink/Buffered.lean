import FrameFeed.Sink.Basic
/-!
# Buffered devices

A device takes bytes all at once or fails, as files do. In front of it stands a buffer of fixed
capacity: an offer that does not fit in the room left first writes the buffer out; an offer as
large as the whole buffer goes to the device at once; any other is copied into the buffer. A flush
writes the buffer out.
-/

namespace FrameFeed

/-- Something that takes all the bytes it is given, or fails and takes none. -/
structure Device (δ : Type) where
  /-- Why the bytes were not taken, if they were not, and the device after the attempt. -/
  append : List UInt8 → δ → Option Fault × δ

/-- A device and the bytes that wait in front of it. -/
structure Buffered (δ : Type) where
  waiting : List UInt8
  device : δ

namespace Buffered

variable {δ : Type}

/-- Bytes that a buffer can hold. -/
def capacity : Nat := 8192

/-- A device with nothing waiting in front of it. -/
def of (device : δ) : Buffered δ := ⟨[], device⟩

/-- Writes the waiting bytes out; a device that has nothing to take is not called. -/
def drain (dev : Device δ) (b : Buffered δ) : Option Fault × Buffered δ :=
  if b.waiting = [] then (none, b)
  else
    match dev.append b.waiting b.device with
    | (none, device) => (none, of device)
    | (some fault, device) => (some fault, { b with device })

/-- Makes room for an offer, where there is not enough. -/
def makeRoom (dev : Device δ) (offer : List UInt8) (b : Buffered δ) : Option Fault × Buffered δ :=
  if capacity < b.waiting.length + offer.length then b.drain dev else (none, b)

/-- Takes an offer for which there is room: at once where it could fill the buffer, else into the
buffer. -/
def take (dev : Device δ) (offer : List UInt8) (b : Buffered δ) : WriteAnswer × Buffered δ :=
  if capacity ≤ offer.length then
    match dev.append offer b.device with
    | (none, device) => (.took offer.length, { b with device })
    | (some fault, device) => (.failed fault, { b with device })
  else (.took offer.length, { b with waiting := b.waiting ++ offer })

/-- Writes an offer to the device through the buffer. An offer that fails may still have cleared
the buffer. -/
def write (dev : Device δ) (offer : List UInt8) (b : Buffered δ) : WriteAnswer × Buffered δ :=
  match b.makeRoom dev offer with
  | (some fault, b) => (.failed fault, b)
  | (none, b) => b.take dev offer

/-- Writes the buffer out. -/
def flush (dev : Device δ) (b : Buffered δ) : FlushAnswer × Buffered δ :=
  match b.drain dev with
  | (some fault, b) => (.failed fault, b)
  | (none, b) => (.done, b)

/-- The device once the buffer is done with: what still waits is written out if it can be. -/
def close (dev : Device δ) (b : Buffered δ) : δ := (b.drain dev).2.device

/-- A buffered device as a sink. It never asks for the same call again. -/
def sink (dev : Device δ) : Sink (Buffered δ) where
  write := write dev
  flush := flush dev
  patience _ := 0

end Buffered

end FrameFeed
