import XmlHarvest.Batch
import XmlHarvest.CommandLine.Report
import XmlHarvest.Configuration
import XmlHarvest.Main
import XmlHarvest.Modifier.Sample
import XmlHarvest.Proofs.Likeness
import XmlHarvest.Proofs.Text.Trim
import XmlHarvest.Proofs.Skeleton
import XmlHarvest.Proofs.Conformity
import XmlHarvest.Proofs.Value.Writable
import XmlHarvest.Proofs.Agenda
import XmlHarvest.Proofs.Session
import XmlHarvest.Proofs.Escape
import XmlHarvest.Proofs.Text.Split
import XmlHarvest.Proofs.Xml.Forward
import XmlHarvest.Proofs.Xml.Ends
import XmlHarvest.Proofs.Validation
import XmlHarvest.Proofs.Ordered
import XmlHarvest.Proofs.Path
import XmlHarvest.Proofs.Value.Keys
import XmlHarvest.Proofs.Schema.Entries
import XmlHarvest.Proofs.Batch
import XmlHarvest.Proofs.Cleaning
import XmlHarvest.Proofs.Xml.Declaration
import XmlHarvest.Proofs.Encoding
import XmlHarvest.Proofs.Schema.Grammar
import XmlHarvest.Proofs.Schema.Declared
import XmlHarvest.Proofs.Within
import XmlHarvest.Proofs.Mapper.Lookup
import XmlHarvest.Proofs.Location
import XmlHarvest.Proofs.Rearrangement
import XmlHarvest.Proofs.References
import XmlHarvest.Proofs.Files.FilePath
import XmlHarvest.Proofs.Configuration
import XmlHarvest.Proofs.Configuration.Reload
import XmlHarvest.Proofs.CommandLine.Preparation
import XmlHarvest.Proofs.Json.Printer
import XmlHarvest.Proofs.CommandLine.Report
import XmlHarvest.Proofs.Session.History
import XmlHarvest.Proofs.Schema.Blame
import XmlHarvest.Proofs.Configuration.Loading
import XmlHarvest.Proofs.Output
import XmlHarvest.Proofs.Selection
import XmlHarvest.Proofs.Path.RoundTrip
import XmlHarvest.Proofs.Modifier.Lookup
import XmlHarvest.Proofs.Schema.Parameters
import XmlHarvest.Proofs.Schema.Spellings
import XmlHarvest.Proofs.Resolution
import XmlHarvest.Proofs.Modifier.Conversions
import XmlHarvest.Proofs.Text.Words
import XmlHarvest.Proofs.Cleaning.Front
import XmlHarvest.Proofs.Batch.Stages
