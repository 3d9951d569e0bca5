import EntityScripts.Main
import EntityScripts.Proofs.Destinations
import EntityScripts.Proofs.DialogueFaults
import EntityScripts.Proofs.GlobalNames
import EntityScripts.Proofs.JsonAgreement
import EntityScripts.Proofs.ObjectVariable
import EntityScripts.Proofs.PlanningOrder
import EntityScripts.Proofs.PositionalStorage
import EntityScripts.Proofs.RuntimeNames
import EntityScripts.Proofs.ScriptClosure
import EntityScripts.Proofs.Teardown
import EntityScripts.Proofs.TypeShapes
import EntityScripts.Proofs.FailureIsolation
import EntityScripts.Proofs.Regeneration
import EntityScripts.Proofs.DialogueText
import EntityScripts.Proofs.ModelText
import EntityScripts.Proofs.UnknownTypes
import EntityScripts.Proofs.WriterHistory
import EntityScripts.Proofs.EntityOrder
import EntityScripts.Proofs.StampedRuns
import EntityScripts.Proofs.ChosenLanguage
import EntityScripts.Proofs.NodeOrder
import EntityScripts.Proofs.CanonicalTypes
import EntityScripts.Proofs.WrappedTypes
import EntityScripts.Proofs.ReportedWrites
import EntityScripts.Proofs.SyntaxErrors
import EntityScripts.Proofs.BlockNesting
import EntityScripts.Proofs.FunctionMark
import EntityScripts.Proofs.HeaderTypes
import EntityScripts.Proofs.ArityChecks
import EntityScripts.Proofs.FaultyNodes
import EntityScripts.Proofs.MergedLabels
import EntityScripts.Proofs.ReportedIssues
