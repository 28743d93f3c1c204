import FilterAssist.Main
import FilterAssist.Proofs.KeptFields
import FilterAssist.Proofs.TypedPaths
import FilterAssist.Proofs.DeclaredContexts
import FilterAssist.Proofs.AcceptedOperators
import FilterAssist.Proofs.QuotedStrings
import FilterAssist.Proofs.TypedValues
import FilterAssist.Proofs.RerootedPaths
import FilterAssist.Proofs.LexedLines
import FilterAssist.Proofs.IngestedSchemas
import FilterAssist.Proofs.CanonicalSchemas
import FilterAssist.Proofs.EditedSchemas
import FilterAssist.Proofs.GrownSchemas
import FilterAssist.Proofs.SettingsPrecedence
import FilterAssist.Proofs.JsonReports
import FilterAssist.Proofs.ColouredLines
import FilterAssist.Proofs.FreshStarts
import FilterAssist.Proofs.IndexedReads
