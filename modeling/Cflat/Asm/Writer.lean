import Cflat.Asm.Listing

/-!
# Writing a listing

`Listing.writeTo` hands a listing to a writer line by line and counts the bytes that
the writer takes.  A writer may be anything that takes bytes; a `sink` is one that
keeps them and may run out of room.
-/

namespace Cflat.Asm

/-- What a write reports: how many bytes were taken, and the failure if there was one. -/
structure WriteReport (ε : Type) where
  count : Nat
  error? : Option ε
  deriving DecidableEq, Repr

/-- Something that takes bytes, with a state `σ` of its own and failures `ε`. -/
structure Writer (σ ε : Type) where
  write : σ → List UInt8 → WriteReport ε × σ

namespace Listing

variable {σ ε : Type}

/-- Write line by line and stop at the first write that fails, or at the first line that
cannot be built.  `total` bytes were taken before.  The writer keeps what it took. -/
def writeFrom (w : Writer σ ε) (total : Nat) :
    Listing → σ → Except Fault (WriteReport ε) × σ
  | [], s => (.ok ⟨total, none⟩, s)
  | e :: rest, s =>
    match e.line with
    | .error f => (.error f, s)
    | .ok line =>
      match w.write s line.toUTF8.toList with
      | (⟨n, none⟩, s') => writeFrom w (total + n) rest s'
      | (⟨n, some err⟩, s') => (.ok ⟨total + n, some err⟩, s')

/-- Write a whole listing. -/
def writeTo (l : Listing) (w : Writer σ ε) (s : σ) : Except Fault (WriteReport ε) × σ :=
  l.writeFrom w 0 s

end Listing

/-- Why a sink fails. -/
inductive SinkError
  | full
  deriving DecidableEq, Repr

namespace SinkError

/-- The text of the failure. -/
def message : SinkError → String
  | full => "writer full"

end SinkError

/-- A byte sink; its state is what it took.  With a limit it takes that many bytes in
total; a write beyond the limit takes what still fits and fails. -/
def sink (limit : Option Nat) : Writer (List UInt8) SinkError where
  write accepted bytes :=
    match limit with
    | none => (⟨bytes.length, none⟩, accepted ++ bytes)
    | some n =>
      let taken := bytes.take (n - accepted.length)
      let error? := if taken.length < bytes.length then some .full else none
      (⟨taken.length, error?⟩, accepted ++ taken)

end Cflat.Asm
