import ArchiveRemap.Main
import ArchiveRemap.Proofs.Archive.Carried
import ArchiveRemap.Proofs.Archive.Complete
import ArchiveRemap.Proofs.Archive.Order
import ArchiveRemap.Proofs.Archive.Standing
import ArchiveRemap.Proofs.Mixin.Accounted
import ArchiveRemap.Proofs.Mixin.Consent
import ArchiveRemap.Proofs.Mixin.KnownClass
import ArchiveRemap.Proofs.Mixin.LastWord
import ArchiveRemap.Proofs.Mixin.ReadBack
import ArchiveRemap.Proofs.Mixin.Spelling
import ArchiveRemap.Proofs.Mixin.Targets
import ArchiveRemap.Proofs.Namespace.Building
import ArchiveRemap.Proofs.Namespace.CutOff
import ArchiveRemap.Proofs.Namespace.Fallback
import ArchiveRemap.Proofs.Namespace.Least
import ArchiveRemap.Proofs.Namespace.Route
import ArchiveRemap.Proofs.Remapper.Failed
import ArchiveRemap.Proofs.Remapper.Remembered
import ArchiveRemap.Proofs.Remapper.Repeat
import ArchiveRemap.Proofs.Remapper.Shared
import ArchiveRemap.Proofs.RenameTable.InTurn
import ArchiveRemap.Proofs.SideFile.Survival
import ArchiveRemap.Proofs.Store.FileName
import ArchiveRemap.Proofs.Tiny.Columns
import ArchiveRemap.Proofs.Tiny.Fingerprint
import ArchiveRemap.Proofs.Tiny.Merge
import ArchiveRemap.Proofs.Tiny.Naming
import ArchiveRemap.Proofs.Tiny.ReadBack
import ArchiveRemap.Proofs.Tiny.Sections
import ArchiveRemap.Proofs.Hierarchy.BreadthFirst
import ArchiveRemap.Proofs.Hierarchy.Modes
import ArchiveRemap.Proofs.Hierarchy.Overrides
import ArchiveRemap.Proofs.Symbol.Shape
