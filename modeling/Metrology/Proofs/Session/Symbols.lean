import Mathlib
import Metrology.Proofs.Symbols.Addition
import Metrology.Session

/-!
# Metrology.Proofs.Session.Symbols -- what a session does to its symbols

One command adds a symbol to those of the session, and only when that symbol is not refused; every
other command leaves them alone (`symbols_step`). So what adding keeps, a run keeps
(`symbols_run`), whatever else is done in it.
-/

namespace Metrology

namespace Session

theorem symbols_deliver (s : Session) (into : Option String)
    (result : Except SessionError Quantity) : (s.deliver into result).1.symbols = s.symbols := by
  cases result with
  | error e => rfl
  | ok q => cases into <;> rfl

theorem symbols_registerFamilies (s : Session) : s.registerFamilies.1.symbols = s.symbols := by
  unfold registerFamilies
  split
  · rfl
  · rfl

/-- After a command, the symbols are what they were, or have the one that it added. -/
theorem symbols_step (s : Session) (command : Command) :
    (s.step command).1.symbols = s.symbols ∨
      ∃ word dimension prefixable, command = .addSymbol word dimension prefixable ∧
        (s.step command).1.symbols = s.symbols.offer word dimension prefixable := by
  cases command with
  | addSymbol word dimension prefixable => exact .inr ⟨word, dimension, prefixable, rfl, rfl⟩
  | addFamily family => exact .inl rfl
  | loadSettings text => exact .inl rfl
  | registerFamilies => exact .inl (symbols_registerFamilies s)
  | build into draft => exact .inl (symbols_deliver s into _)
  | measure into registry family value unit options => exact .inl (symbols_deliver s into _)
  | operate into op left right => exact .inl (symbols_deliver s into _)
  | scalarOperate into op left right => exact .inl (symbols_deliver s into _)
  | unary into f source => exact .inl (symbols_deliver s into _)
  | update register op right => exact .inl (symbols_deliver s (some register) _)
  | setOptions register mode implicit => exact .inl (symbols_deliver s (some register) _)
  | «recall» source => exact .inl rfl
  | compare left right => exact .inl rfl
  | scalarCompare right => exact .inl rfl
  | sameUnits left right => exact .inl rfl
  | valueIn source family unit => exact .inl rfl

/-- What holds of the symbols at the start, and is kept by each addition of the run, holds of them
at the end. -/
theorem symbols_run {P : Symbols → Prop} (commands : List Command) :
    (∀ symbols word dimension prefixable,
      .addSymbol word dimension prefixable ∈ commands → P symbols →
        P (symbols.offer word dimension prefixable)) →
      ∀ s : Session, P s.symbols → P (s.run commands).1.symbols := by
  induction commands with
  | nil => intro _ s hs; exact hs
  | cons command commands ih =>
    intro hadd s hs
    -- One step adds one of the listed symbols, or leaves them all as they are.
    have hnext : P (s.step command).1.symbols := by
      rcases symbols_step s command with hsame | ⟨word, dimension, prefixable, rfl, hnext⟩
      · rw [hsame]
        exact hs
      · rw [hnext]
        exact hadd _ word dimension prefixable List.mem_cons_self hs
    refine ih ?_ _ hnext
    intro symbols word dimension prefixable hmem
    exact hadd symbols word dimension prefixable (List.mem_cons_of_mem _ hmem)

end Session

end Metrology
