import Metrology.Family.Builtin

/-!
# Metrology.Registry -- families under their names

A registry holds the chart of each family under the family's name, in increasing order of the
names. A family is charted before it takes the place of another of its name, so one that can not be
charted leaves the registry as it was. A unit is looked for in the families in order, and the first
family that knows it wins.

A family that is added takes a place in two steps: the entry of its name is given up, and then one
is made. That is sound for a family of the caller's own. The registry also lets its own families be
looked at where they are, and one of those, handed back to be added, is gone with its entry before
its name is read for the new one: such a call has no defined result (`addRef`).
-/

namespace Metrology

/-- Charts under the names of their families. -/
abbrev Registry := Table (Chart Binary64)

namespace Registry

/-- The registry after a family has been handed to it, which takes the place of one of the same
name, and what stopped it. -/
def add (registry : Registry) (family : Family) : Registry × Option ConversionError :=
  if family.name = "" then
    (registry, some .unnamedFamily)
  else
    match family.chart with
    | .error e => (registry, some e)
    | .ok chart => ((registry.erase family.name).insert family.name chart, none)

/-- Adds families in order, as far as they can be added: the registry then, and what stopped it. -/
def addAll (registry : Registry) : List Family → Registry × Option ConversionError
  | [] => (registry, none)
  | family :: families =>
    match registry.add family with
    | (extended, none) => addAll extended families
    | stopped => stopped

/-- The registry of the built-in families. -/
def builtin : Registry := (addAll Table.empty Family.builtin).1

def chart (registry : Registry) (name : String) : Except ConversionError Chart :=
  match registry.get? name with
  | some chart => .ok chart
  | none => .error (.unknownFamily name)

/-- The first family that knows a unit. -/
def familyWith? (registry : Registry) (unit : String) : Option String :=
  (registry.entries.find? fun (_, chart) => chart.has unit).map Prod.fst

/-! ## Families that are handed over where they are -/

/-- A family where it is: one of the caller's own, or the one that the registry holds under a name.
-/
inductive FamilyRef where
  | own (family : Family)
  | held (name : String)

/-- The family that stands there at the moment. -/
def FamilyRef.read (registry : Registry) : FamilyRef → Except ConversionError Family
  | .own family => .ok family
  | .held name => (registry.chart name).map Chart.family

/-- The registry after a family has been handed to it where it is, and what stopped it. The family
is read again for its name when the entry of that name has been given up. If it is not there any
more, the call has no defined result. -/
def addRef (registry : Registry) (ref : FamilyRef) : Option (Registry × Option ConversionError) :=
  match ref.read registry with
  | .error e => some (registry, some e)
  | .ok family =>
    if family.name = "" then
      some (registry, some .unnamedFamily)
    else
      match family.chart with
      | .error e => some (registry, some e)
      | .ok chart =>
        let rest := registry.erase family.name
        match ref.read rest with
        | .error _ => none
        | .ok family => some (rest.insert family.name chart, none)

/-- The registry after a list of such calls, as long as their results are defined. -/
def addRefs? (registry : Registry) (refs : List FamilyRef) : Option Registry :=
  refs.foldlM (fun registry ref => (registry.addRef ref).map Prod.fst) registry

end Registry

end Metrology
