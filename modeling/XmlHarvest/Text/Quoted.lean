import XmlHarvest.Text.Printable

/-! # Quoted texts

A text between quotes, as messages show it: single quotes unless the text has
a single quote and no double one.  The backslash, the quote and characters
that are not printable are escaped. -/
set_option autoImplicit false

namespace XmlHarvest.Text

/-- `n` in base sixteen with at least `width` digits. -/
def hexDigits (width n : Nat) : Text :=
  let ds := digits 16 n
  List.replicate (width - ds.length) (.char '0') ++ ds

def quoteChar (quote c : CodePoint) : Text :=
  if c == quote || c == '\\' then ['\\', c]
  else if c == '\n' then ['\\', 'n']
  else if c == '\r' then ['\\', 'r']
  else if c == '\t' then ['\\', 't']
  else if isPrintable c then [c]
  else if c.toNat < 0x100 then '\\' :: 'x' :: hexDigits 2 c.toNat
  else if c.toNat < 0x10000 then '\\' :: 'u' :: hexDigits 4 c.toNat
  else '\\' :: 'U' :: hexDigits 8 c.toNat

def quoteFor (cs : Text) : CodePoint :=
  if cs.contains '\'' && !cs.contains '"' then '"' else '\''

def quote (cs : Text) : Text :=
  let q := quoteFor cs
  q :: (cs.flatMap (quoteChar q) ++ [q])

def excerpt (cs : Text) : Text := (quote cs).take 200

example : quote "it's\n" = "\"it's\\n\"" := by decide +kernel

end XmlHarvest.Text
