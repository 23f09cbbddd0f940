import XmlHarvest.Text.CodePoint
import XmlHarvest.Text.Split

/-! # Log entries

An entry has a level, the part of the program it comes from, and a message.
Levels are ordered by severity; a log shows the entries from one level on. -/
set_option autoImplicit false

namespace XmlHarvest

inductive LogLevel where
  | debug
  | info
  | warning
  | error
  | critical
  deriving DecidableEq, Repr

namespace LogLevel

def name : LogLevel → Text
  | debug => "DEBUG"
  | info => "INFO"
  | warning => "WARNING"
  | error => "ERROR"
  | critical => "CRITICAL"

def all : List LogLevel := [critical, error, warning, info, debug]

/-- The level of a name, which has to be spelled exactly. -/
def ofName? (s : Text) : Option LogLevel := all.find? fun l => l.name == s

def severity : LogLevel → Nat
  | debug => 10
  | info => 20
  | warning => 30
  | error => 40
  | critical => 50

def shows (threshold l : LogLevel) : Bool := threshold.severity ≤ l.severity

end LogLevel

inductive LogSource where
  | commandLine
  | batch
  deriving DecidableEq, Repr

def LogSource.name : LogSource → Text
  | commandLine => "xml_data_extractor.cli"
  | batch => "xml_data_extractor.processing.sequential_extractor"

structure LogEntry where
  level : LogLevel
  source : LogSource
  message : Text
  deriving DecidableEq, Repr

def LogEntry.line (time : Text) (e : LogEntry) : Text :=
  Text.joinWith " - " [time, e.source.name, e.level.name, e.message] ++ "\n"

end XmlHarvest
