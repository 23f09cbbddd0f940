import XmlHarvest.Modifier.Capability
import XmlHarvest.Text.Split

/-! # References to modifiers

A reference names a module and, after a colon, something in it.  What it leads
to supplies modifiers.  Importing a module, reaching into it and making an
object of a class run code of the module, so each of them can fail in any
way. -/
set_option autoImplicit false

namespace XmlHarvest

inductive Supplier where
  | object (members : List (Text × Member))
  | table (entries : List (Text × Member))
  | provider (c : Capability)
  | nothing

def Supplier.capability? : Supplier → Option Capability
  | object members => some (.ofObject members)
  | table entries => some (.ofTable entries)
  | provider c => some c
  | nothing => none

inductive Part where
  | supplier (s : Supplier)
  /-- A class, which is called without arguments. -/
  | maker (made : Outcome Supplier)

def Part.made : Part → Outcome Supplier
  | supplier s => .ok s
  | maker made => made

inductive PartProblem where
  | missing
  | failure (f : Failure)

structure ModifierModule where
  whole : Part
  part : Text → Except PartProblem Part

inductive ImportProblem where
  /-- There is no such module or it does not import, and this text says why, if
  it can be formed. -/
  | refused (text : Except Fault Text)
  | failure (f : Failure)

abbrev Importer : Type := Text → Except ImportProblem ModifierModule

def Importer.names (reference : Text) : Text × Text :=
  match Text.cutAt? (.char ':') reference with
  | some (before, after) => (before, after)
  | none => (reference, "")

/-- The part of a module; the empty name stands for the module as a whole. -/
def ModifierModule.reach (m : ModifierModule) (name member : Text) : Outcome Part :=
  if member == "" then .ok m.whole
  else
    match m.part member with
    | .ok part => .ok part
    | .error .missing => .raise (.configuration (.attributeMissing name member))
    | .error (.failure f) => .error f

namespace Importer

def find (importer : Importer) (name : Text) : Outcome ModifierModule :=
  if name.head? == some (.char '.') then .error (.fault (.relativeModule name))
  else
    match importer name with
    | .ok m => .ok m
    | .error (.refused (.ok detail)) => .raise (.configuration (.importFailed name detail))
    | .error (.refused (.error fault)) => .error (.fault fault)
    | .error (.failure f) => .error f

def resolve (importer : Importer) (reference : Text) : Outcome Supplier := do
  let (name, member) := names reference
  if name == "" then .raise (.configuration (.emptyModule reference))
  else
    let m ← importer.find name
    let part ← m.reach name member
    part.made

end Importer
end XmlHarvest
