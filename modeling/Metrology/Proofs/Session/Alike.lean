import Mathlib
import Metrology.Proofs.Result
import Metrology.Proofs.Session.Basic

/-!
# Metrology.Proofs.Session.Alike -- sessions that look the same

Two sessions are *alike*, as far as a function on quantities sees, when they have the same symbols,
families and settings, and quantities in the same registers that the function does not tell apart.
Results that look the same keep sessions alike when they are kept in the same register
(`alike_deliver`), whatever the function is. So of each command there remains to show that its
results look the same.

What is left out of the quantities is left out of commands too, by a function that erases it. When
every command looks like the erased one, lists of commands that are erased to one list look the same
at every point (`alike_commands_congr`).
-/

namespace Metrology

open Result (through)

namespace Session

variable {β : Type} {seen : Quantity → β}

/-- Whether sessions are the same as far as `seen` tells of their quantities. -/
structure Alike (seen : Quantity → β) (s t : Session) : Prop where
  symbols : s.symbols = t.symbols
  registry : s.registry = t.registry
  settings : s.settings = t.settings
  registers : ∀ name, (s.registers.get? name).map seen = (t.registers.get? name).map seen

namespace Alike

variable {s t u : Session}

theorem refl (s : Session) : Alike seen s s := ⟨rfl, rfl, rfl, fun _ => rfl⟩

theorem symm (h : Alike seen s t) : Alike seen t s :=
  ⟨h.symbols.symm, h.registry.symm, h.settings.symm, fun name => (h.registers name).symm⟩

theorem trans (h : Alike seen s t) (h' : Alike seen t u) : Alike seen s u :=
  ⟨h.symbols.trans h'.symbols, h.registry.trans h'.registry, h.settings.trans h'.settings,
    fun name => (h.registers name).trans (h'.registers name)⟩

/-- Keeping quantities that look the same in one register keeps sessions alike. -/
theorem keep (h : Alike seen s t) (into : Option String) {q r : Quantity} (hqr : seen q = seen r) :
    Alike seen (s.keep into q) (t.keep into r) := by
  cases into with
  | none => exact h
  | some register =>
    refine ⟨h.symbols, h.registry, h.settings, fun name => ?_⟩
    show ((s.registers.insert register q).get? name).map seen =
      ((t.registers.insert register r).get? name).map seen
    by_cases hname : name = register
    · rw [hname, Table.get?_insert_self, Table.get?_insert_self, Option.map_some, Option.map_some,
        hqr]
    · rw [Table.get?_insert_of_ne _ hname, Table.get?_insert_of_ne _ hname]
      exact h.registers name

/-- Settings that are the same give the same options. -/
theorem options (h : Alike seen s t) (source : OptionSource) :
    s.options source = t.options source := by
  unfold Session.options
  rw [h.settings]

theorem chart (h : Alike seen s t) (source : RegistrySource) (family : String) :
    s.chart source family = t.chart source family := by
  unfold Session.chart
  rw [h.registry]

/-- A value in a unit of a family is the same quantity in both sessions. -/
theorem measure (h : Alike seen s t) (registry : RegistrySource) (family : String)
    (value : Binary64) (unit : String) (source : OptionSource) :
    s.measure registry family value unit source = t.measure registry family value unit source := by
  unfold Session.measure
  rw [h.chart, h.options]

/-- A register holds quantities that look the same, or is empty in both sessions. -/
theorem register (h : Alike seen s t) {δ : Type} (f : SessionError → δ) (name : String) :
    through f seen (s.quantity (.register name)) =
      through f seen (t.quantity (.register name)) := by
  have hname := h.registers name
  rw [quantity, quantity]
  generalize s.registers.get? name = q at hname ⊢
  generalize t.registers.get? name = r at hname ⊢
  cases q with
  | none =>
    cases r with
    | none => rfl
    | some r => cases hname
  | some q =>
    cases r with
    | none => cases hname
    | some r => exact congrArg Except.ok (Option.some.inj hname)

end Alike

/-! ## Commands -/

/-- Results of the library that look the same do so as results of a session, if errors do. -/
theorem alike_lift {α γ δ δ' : Type} {f : Error → δ} {f' : SessionError → δ'} {g : α → γ}
    (hf : ∀ e e', f e = f e' → f' (.error e) = f' (.error e')) {x y : Except Error α}
    (hxy : through f g x = through f g y) : through f' g (lift x) = through f' g (lift y) := by
  cases x with
  | error e =>
    cases y with
    | error e' => exact congrArg Except.error (hf e e' (Except.error.inj hxy))
    | ok b => cases hxy
  | ok a =>
    cases y with
    | error e' => cases hxy
    | ok b => exact congrArg Except.ok (Except.ok.inj hxy)

section

variable {s t : Session} {δ γ : Type} {f : SessionError → δ} {g : Answer → γ}

/-- Results that look the same keep sessions alike, and are answered as what they look. -/
theorem alike_deliver (h : Alike seen s t) (into : Option String)
    (hg : ∀ q r, seen q = seen r → g (.quantity q) = g (.quantity r))
    {x y : Except SessionError Quantity} (hxy : through f seen x = through f seen y) :
    Alike seen (s.deliver into x).1 (t.deliver into y).1 ∧
      through f g (s.deliver into x).2 = through f g (t.deliver into y).2 := by
  cases x with
  | error e =>
    cases y with
    | error e' => exact ⟨h, congrArg Except.error (Except.error.inj hxy)⟩
    | ok r => cases hxy
  | ok q =>
    cases y with
    | error e' => cases hxy
    | ok r =>
      have hqr : seen q = seen r := Except.ok.inj hxy
      exact ⟨h.keep into hqr, congrArg Except.ok (hg q r hqr)⟩

/-- Adding families does the same to both registries. -/
theorem alike_registerFamilies (h : Alike seen s t) :
    Alike seen s.registerFamilies.1 t.registerFamilies.1 ∧
      s.registerFamilies.2 = t.registerFamilies.2 := by
  rw [registerFamilies, registerFamilies, h.settings, h.registry]
  split
  · exact ⟨h, rfl⟩
  · exact ⟨⟨h.symbols, rfl, rfl, h.registers⟩, rfl⟩

theorem alike_addSymbol (h : Alike seen s t) (word : String) (dimension : Dimension)
    (prefixable : Bool) :
    Alike seen (s.step (.addSymbol word dimension prefixable)).1
        (t.step (.addSymbol word dimension prefixable)).1 ∧
      (s.step (.addSymbol word dimension prefixable)).2 =
        (t.step (.addSymbol word dimension prefixable)).2 := by
  rw [step, step, h.symbols]
  exact ⟨⟨rfl, h.registry, h.settings, h.registers⟩, rfl⟩

theorem alike_addFamily (h : Alike seen s t) (family : Family) :
    Alike seen (s.step (.addFamily family)).1 (t.step (.addFamily family)).1 ∧
      (s.step (.addFamily family)).2 = (t.step (.addFamily family)).2 := by
  rw [step, step, h.registry]
  exact ⟨⟨h.symbols, rfl, h.settings, h.registers⟩, rfl⟩

theorem alike_loadSettings (h : Alike seen s t) (text : String) :
    Alike seen (s.step (.loadSettings text)).1 (t.step (.loadSettings text)).1 ∧
      (s.step (.loadSettings text)).2 = (t.step (.loadSettings text)).2 := by
  rw [step, step, h.settings]
  exact ⟨⟨h.symbols, h.registry, rfl, h.registers⟩, rfl⟩

end

/-! ## Lists of commands -/

section Erased

variable {ρ : Type} {erased : Command → Command} {see : Except SessionError Answer → ρ}
  (hstep : ∀ {s t : Session}, Alike seen s t → ∀ command,
    Alike seen (s.step command).1 (t.step (erased command)).1 ∧
      see (s.step command).2 = see (t.step (erased command)).2)

include hstep

/-- Commands look like the erased ones. The induction is on the commands, over any two sessions that
are alike. -/
theorem alike_commands (commands : List Command) :
    ∀ s t : Session, Alike seen s t →
      Alike seen (s.run commands).1 (t.run (commands.map erased)).1 ∧
        (s.run commands).2.map see = (t.run (commands.map erased)).2.map see := by
  induction commands with
  | nil => intro s t h; exact ⟨h, rfl⟩
  | cons command commands ih =>
    intro s t h
    obtain ⟨hnext, hresult⟩ := hstep h command
    obtain ⟨hlast, hresults⟩ := ih _ _ hnext
    refine ⟨hlast, ?_⟩
    rw [List.map_cons, run_cons, run_cons, List.map_cons, List.map_cons, hresult, hresults]

/-- Commands that are erased to the same ones look the same. -/
theorem alike_commands_congr {s t : Session} (hs : Alike seen s t) {commands commands' : List Command}
    (hcommands : commands.map erased = commands'.map erased) :
    Alike seen (s.run commands).1 (t.run commands').1 ∧
      (s.run commands).2.map see = (t.run commands').2.map see := by
  -- Both runs look like the one of the second session with the erased commands.
  obtain ⟨hlast, hresults⟩ := alike_commands hstep commands s t hs
  obtain ⟨hlast', hresults'⟩ := alike_commands hstep commands' t t (.refl t)
  rw [hcommands] at hlast hresults
  exact ⟨hlast.trans hlast'.symm, hresults.trans hresults'.symm⟩

end Erased

end Session

end Metrology
