import XmlHarvest.Fault

/-! # YAML tokens

The marks and scalars that a text is made of.  Indentation is made explicit:
block collections have tokens for their start and end. -/
set_option autoImplicit false

namespace XmlHarvest.Yaml

/-- A tag as written: a handle and a suffix, or a whole tag. -/
structure TagText where
  handle : Option (Text)
  suffix : Text
  deriving DecidableEq, Repr

inductive Directive where
  | version (major : Text)
  | tag (handle uri : Text)
  | other
  deriving DecidableEq, Repr

inductive Token where
  | directive (d : Directive)
  | documentStart
  | documentEnd
  | streamEnd
  | blockSequenceStart
  | blockMappingStart
  | blockEnd
  | flowSequenceStart
  | flowSequenceEnd
  | flowMappingStart
  | flowMappingEnd
  | blockEntry
  | flowEntry
  | key
  | value
  | alias (name : Text)
  | anchor (name : Text)
  | tag (t : TagText)
  | scalar (text : Text) (plain : Bool)
  deriving DecidableEq, Repr

/-- What stops the reading of a document: it is no YAML, or something in it has
no value. -/
inductive ReadFault where
  | malformed
  | fault (f : Fault)
  deriving DecidableEq, Repr

end XmlHarvest.Yaml
