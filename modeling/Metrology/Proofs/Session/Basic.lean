import Mathlib
import Metrology.Session

/-!
# Metrology.Proofs.Session.Basic -- taking apart what a session does

A result that a session reports comes from the library (`lift_eq_ok`), a quantity that is read from
a register stands in it (`get?_of_quantity`), an error about additions is what stopped them
(`exists_stop_of_verdict`), and a run is one command and then a run in the session which that command
leaves (`run_cons`).
-/

namespace Metrology

namespace Session

theorem lift_eq_ok {α : Type} {x : Except Error α} {a : α} (h : lift x = .ok a) : x = .ok a := by
  cases x with
  | error e => cases h
  | ok b => cases h; rfl

theorem get?_of_quantity {s : Session} {register : String} {q : Quantity}
    (h : s.quantity (.register register) = .ok q) : s.registers.get? register = some q := by
  rw [quantity] at h
  split at h
  · next hget => cases h; exact hget
  · cases h

theorem exists_stop_of_verdict {answer : Answer} {δ : Type} {f : δ → Error} {stop : Option δ}
    {e : SessionError} (h : verdict answer (stop.map f) = .error e) : ∃ cause, stop = some cause := by
  cases stop with
  | none => cases h
  | some cause => exact ⟨cause, rfl⟩

/-- What has changed a session as far as it got answers no quantity. -/
theorem verdict_ne_quantity {answer : Answer} (h : ∀ q, answer ≠ .quantity q)
    (stop : Option Error) (q : Quantity) : verdict answer stop ≠ .ok (.quantity q) := by
  cases stop with
  | none => exact fun heq => h q (Except.ok.inj heq)
  | some e => exact fun heq => by cases heq

theorem run_cons (s : Session) (command : Command) (commands : List Command) :
    s.run (command :: commands) =
      (((s.step command).1.run commands).1,
        (s.step command).2 :: ((s.step command).1.run commands).2) :=
  rfl

end Session

end Metrology
