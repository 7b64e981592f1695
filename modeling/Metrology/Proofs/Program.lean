import Mathlib
import Metrology.Program

/-!
# Metrology.Proofs.Program -- what programs put together write

A program is settled by what it writes and how it ends, so a sequence is worked out step by step:
what a step writes comes first (`print_bind`, `complain_bind`), a computation writes nothing
(`ofResult_ok_bind`), and nothing follows a failure (`fail_bind`).
-/

namespace Metrology

namespace Program

variable {α β : Type}

theorem pure_eq (a : α) : (pure a : Program α) = ⟨"", "", .ok a⟩ := rfl

/-! ## Sequences -/

@[simp] theorem mk_ok_bind (out err : String) (a : α) (f : α → Program β) :
    Program.mk out err (.ok a) >>= f = ⟨out ++ (f a).out, err ++ (f a).err, (f a).result⟩ := rfl

@[simp] theorem print_bind (text : String) (f : Unit → Program β) :
    print text >>= f = ⟨text ++ (f ()).out, (f ()).err, (f ()).result⟩ := by
  show Program.mk _ ("" ++ (f ()).err) _ = _
  rw [String.empty_append]
  rfl

@[simp] theorem complain_bind (text : String) (f : Unit → Program β) :
    complain text >>= f = ⟨(f ()).out, text ++ (f ()).err, (f ()).result⟩ := by
  show Program.mk ("" ++ (f ()).out) _ _ = _
  rw [String.empty_append]
  rfl

@[simp] theorem ofResult_ok_bind (a : α) (f : α → Program β) : ofResult (.ok a) >>= f = f a := by
  show Program.mk ("" ++ (f a).out) ("" ++ (f a).err) _ = _
  rw [String.empty_append, String.empty_append]

@[simp] theorem fail_bind (e : Error) (f : α → Program β) : fail e >>= f = fail e := rfl

@[simp] theorem ofResult_error_bind (e : Error) (f : α → Program β) :
    ofResult (.error e) >>= f = fail e := rfl

/-! ## Handled errors -/

@[simp] theorem handle_ok (out err : String) (a : α) (f : Error → Program α) :
    handle ⟨out, err, .ok a⟩ f = ⟨out, err, .ok a⟩ := rfl

/-- A failure that has written nothing is replaced by what is done about it. -/
@[simp] theorem handle_fail (e : Error) (f : Error → Program α) : handle (fail e) f = f e := by
  show Program.mk ("" ++ (f e).out) ("" ++ (f e).err) _ = _
  rw [String.empty_append, String.empty_append]

end Program

end Metrology
