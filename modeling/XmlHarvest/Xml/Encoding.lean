/-! # Declared encodings

A document is handed over as UTF-8 bytes, but a declaration may name another
encoding.  The bytes that follow are then read in that encoding; what is not
ASCII changes.  -/
set_option autoImplicit false

namespace XmlHarvest.Xml

inductive Charset where
  | utf8
  | ascii
  | latin1
  | latin9
  | windows1252
  deriving DecidableEq, Repr

namespace Charset

def names : List (String × Charset) := [
  ("UTF-8", utf8), ("UTF8", utf8),
  ("ASCII", ascii), ("US-ASCII", ascii), ("US", ascii), ("ISO646-US", ascii),
  ("ISO_646.IRV", ascii), ("ANSI_X3.4-1968", ascii), ("ANSI_X3.4-1986", ascii), ("CP367", ascii),
  ("IBM367", ascii),
  ("ISO-8859-1", latin1), ("ISO8859-1", latin1), ("ISO_8859-1", latin1), ("ISO-LATIN-1", latin1),
  ("ISO-IR-100", latin1), ("LATIN1", latin1), ("L1", latin1), ("CP819", latin1),
  ("IBM819", latin1),
  ("ISO-8859-15", latin9), ("ISO8859-15", latin9), ("ISO_8859-15", latin9), ("LATIN-9", latin9),
  ("WINDOWS-1252", windows1252), ("CP1252", windows1252), ("MS-ANSI", windows1252)]

/-- The encoding of a name, without regard to letter case. -/
def ofName? (name : List Char) : Option Charset :=
  names.lookup (String.ofList (name.map Char.toUpper))

/-- The characters of the bytes `80` to `9F`; zero stands for none. -/
def windowsTable : List Nat := [
  0x20AC, 0, 0x201A, 0x0192, 0x201E, 0x2026, 0x2020, 0x2021, 0x02C6, 0x2030, 0x0160, 0x2039,
  0x0152, 0, 0x017D, 0, 0, 0x2018, 0x2019, 0x201C, 0x201D, 0x2022, 0x2013, 0x2014, 0x02DC, 0x2122,
  0x0161, 0x203A, 0x0153, 0, 0x017E, 0x0178]

def latin9Table : List (Nat × Nat) := [
  (0xA4, 0x20AC), (0xA6, 0x160), (0xA8, 0x161), (0xB4, 0x17D), (0xB8, 0x17E), (0xBC, 0x152),
  (0xBD, 0x153), (0xBE, 0x178)]

def ofByte? (c : Charset) (byte : Nat) : Option Char :=
  if byte < 0x80 then some (Char.ofNat byte)
  else
    match c with
    | utf8 | ascii => none
    | latin1 => some (Char.ofNat byte)
    | latin9 => some (Char.ofNat ((latin9Table.lookup byte).getD byte))
    | windows1252 =>
      if byte < 0xA0 then
        match windowsTable[byte - 0x80]? with
        | some 0 | none => none
        | some n => some (Char.ofNat n)
      else some (Char.ofNat byte)

/-- The characters of bytes up to the first that has none, and whether that is
all of them. -/
def decode (c : Charset) : List Nat → List Char × Bool
  | [] => ([], true)
  | b :: rest =>
    match c.ofByte? b with
    | none => ([], false)
    | some ch => let (cs, whole) := decode c rest; (ch :: cs, whole)

def reread (c : Charset) (cs : List Char) : List Char × Bool :=
  match c with
  | utf8 => (cs, true)
  | _ => c.decode (cs.flatMap fun ch => (String.utf8EncodeChar ch).map UInt8.toNat)

end Charset
end XmlHarvest.Xml
