import EpicsDb.Main
import EpicsDb.Proofs.CanonicalText
import EpicsDb.Proofs.Comments
import EpicsDb.Proofs.ConfigFormats
import EpicsDb.Proofs.Descriptions
import EpicsDb.Proofs.Dumps
import EpicsDb.Proofs.Endings
import EpicsDb.Proofs.Grammar.SharedLines
import EpicsDb.Proofs.LineEndings
import EpicsDb.Proofs.LoneReadbacks
import EpicsDb.Proofs.LongestMatch
import EpicsDb.Proofs.MacroExpansion
import EpicsDb.Proofs.NameResolution
import EpicsDb.Proofs.Noninterference
import EpicsDb.Proofs.RecordOrder
import EpicsDb.Proofs.RepeatedReading
import EpicsDb.Proofs.Repetitions
import EpicsDb.Proofs.Tasks
import EpicsDb.Proofs.TokenTexts
import EpicsDb.Proofs.UnitProducts
