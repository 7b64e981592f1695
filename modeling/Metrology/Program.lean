import Metrology.Error

/-!
# Metrology.Program -- programs that write and can fail on the way

A program writes to two streams, one for its answers and one for its complaints, and then ends with
a value or fails with an error. Programs are put together one after the other; the first that fails
ends the whole, and a failure can be handled.

What has been written stays written: neither a failure nor handling it takes anything back. So a
program that fails late leaves the first part of its answer behind, and whether that can happen is a
question about the order in which it writes and computes.
-/

namespace Metrology

/-- What a program writes, and how it ends. -/
structure Program (α : Type) where
  out : String
  err : String
  result : Except Error α

/-- What a program leaves behind when it is run on its own. -/
structure Outcome where
  exitCode : UInt32
  out : String
  err : String
deriving DecidableEq

namespace Program

variable {α : Type}

/-! ## Steps -/

/-- Writes an answer. -/
def print (text : String) : Program Unit := ⟨text, "", .ok ()⟩

/-- Writes a complaint. -/
def complain (text : String) : Program Unit := ⟨"", text, .ok ()⟩

/-- A computation that writes nothing. -/
def ofResult (result : Except Error α) : Program α := ⟨"", "", result⟩

def fail (e : Error) : Program α := ofResult (.error e)

/-- All that one program writes, then all that another writes, which ends the whole. -/
def followedBy {β : Type} (p : Program α) (q : Program β) : Program β :=
  ⟨p.out ++ q.out, p.err ++ q.err, q.result⟩

instance : Monad Program where
  pure a := ofResult (.ok a)
  bind p f :=
    match p.result with
    | .ok a => p.followedBy (f a)
    | .error e => p.followedBy (fail e)

/-- The program, and where it fails what is to be done about the error. -/
def handle (p : Program α) (f : Error → Program α) : Program α :=
  match p.result with
  | .ok _ => p
  | .error e => p.followedBy (f e)

/-! ## Running -/

/-- The exit code of a program that an error has brought down. -/
def abortCode : UInt32 := 134

/-- What a program leaves behind. Its value is the exit code; an error that nothing has handled
brings it down. -/
def outcome (p : Program UInt32) : Outcome where
  exitCode :=
    match p.result with
    | .ok code => code
    | .error _ => abortCode
  out := p.out
  err := p.err

end Program

end Metrology
