import ScriptNaming.Attribute
import ScriptNaming.Base62
import ScriptNaming.CamelCase
import ScriptNaming.Diagnostic
import ScriptNaming.Diagnostic.Bag
import ScriptNaming.Document
import ScriptNaming.Document.Linking
import ScriptNaming.Document.Reading
import ScriptNaming.Document.Writing
import ScriptNaming.Fault
import ScriptNaming.FreeName
import ScriptNaming.Graph
import ScriptNaming.Graph.Declaration
import ScriptNaming.Graph.Hierarchy
import ScriptNaming.Graph.Symbol
import ScriptNaming.Identifier
import ScriptNaming.Job
import ScriptNaming.Json.Numeral
import ScriptNaming.Json.Reader
import ScriptNaming.Json.Record
import ScriptNaming.Json.Value
import ScriptNaming.Json.Writer
import ScriptNaming.Limit
import ScriptNaming.LogSettings
import ScriptNaming.Marker
import ScriptNaming.NameRegistry
import ScriptNaming.Options
import ScriptNaming.Proofs.AccessorNames
import ScriptNaming.Proofs.AccessorTables
import ScriptNaming.Proofs.Allocation
import ScriptNaming.Proofs.AlternateSignatures
import ScriptNaming.Proofs.BaseTypes
import ScriptNaming.Proofs.CanonicalOrder
import ScriptNaming.Proofs.ClassifiedMethods
import ScriptNaming.Proofs.CleanRuns
import ScriptNaming.Proofs.CleanSteps
import ScriptNaming.Proofs.Closure
import ScriptNaming.Proofs.Course
import ScriptNaming.Proofs.DeclarationOrder
import ScriptNaming.Proofs.DeclaredGraphs
import ScriptNaming.Proofs.DefaultTypeNames
import ScriptNaming.Proofs.DiagnosticLogs
import ScriptNaming.Proofs.DocumentEntries
import ScriptNaming.Proofs.DocumentLinks
import ScriptNaming.Proofs.DocumentRoundTrip
import ScriptNaming.Proofs.GeneratedNames
import ScriptNaming.Proofs.History
import ScriptNaming.Proofs.Identifiers
import ScriptNaming.Proofs.InlineCode
import ScriptNaming.Proofs.InterfaceAgreement
import ScriptNaming.Proofs.InterfaceNames
import ScriptNaming.Proofs.Layered
import ScriptNaming.Proofs.LeadingCapitals
import ScriptNaming.Proofs.LeftOutMembers
import ScriptNaming.Proofs.LegalMemberNames
import ScriptNaming.Proofs.LegalTypeNames
import ScriptNaming.Proofs.Lockstep
import ScriptNaming.Proofs.MemberByMember
import ScriptNaming.Proofs.MemberEntries
import ScriptNaming.Proofs.MemberOutcomes
import ScriptNaming.Proofs.MemberSteps
import ScriptNaming.Proofs.MemberSuccess
import ScriptNaming.Proofs.MethodOutcomes
import ScriptNaming.Proofs.MethodSteps
import ScriptNaming.Proofs.MinimizedTypeNames
import ScriptNaming.Proofs.Moves
import ScriptNaming.Proofs.NamePriority
import ScriptNaming.Proofs.NameUniqueness
import ScriptNaming.Proofs.Naming
import ScriptNaming.Proofs.NamingOrder
import ScriptNaming.Proofs.NamingSequence
import ScriptNaming.Proofs.Nesting
import ScriptNaming.Proofs.Numerals
import ScriptNaming.Proofs.Outcome
import ScriptNaming.Proofs.Overloads
import ScriptNaming.Proofs.OverrideIdentity
import ScriptNaming.Proofs.Placeholders
import ScriptNaming.Proofs.Progress
import ScriptNaming.Proofs.PublicTypeNames
import ScriptNaming.Proofs.QualifiedNames
import ScriptNaming.Proofs.ReachedStates
import ScriptNaming.Proofs.Registry
import ScriptNaming.Proofs.RegistryUnions
import ScriptNaming.Proofs.RenumberedRules
import ScriptNaming.Proofs.Renumbering
import ScriptNaming.Proofs.ReportedCodes
import ScriptNaming.Proofs.Representability
import ScriptNaming.Proofs.ResolvedTypes
import ScriptNaming.Proofs.RootIndependence
import ScriptNaming.Proofs.Roots
import ScriptNaming.Proofs.SameRequests
import ScriptNaming.Proofs.Scope
import ScriptNaming.Proofs.SettledMembers
import ScriptNaming.Proofs.Shallow
import ScriptNaming.Proofs.SortedLists
import ScriptNaming.Proofs.Steady
import ScriptNaming.Proofs.Succeeding
import ScriptNaming.Proofs.TakenTypeNames
import ScriptNaming.Proofs.Termination
import ScriptNaming.Proofs.Totality
import ScriptNaming.Proofs.TypeEntries
import ScriptNaming.Proofs.TypeReferences
import ScriptNaming.Proofs.TypeSuccess
import ScriptNaming.Proofs.WellFormed
import ScriptNaming.Proofs.WriteOnce
import ScriptNaming.QualifiedName
import ScriptNaming.Report
import ScriptNaming.Resolution
import ScriptNaming.Resolution.DataMember
import ScriptNaming.Resolution.Members
import ScriptNaming.Resolution.Method
import ScriptNaming.Resolution.MethodRules
import ScriptNaming.Resolution.PreferredName
import ScriptNaming.Resolution.State
import ScriptNaming.Resolution.TypeNaming
import ScriptNaming.Semantics
import ScriptNaming.Sorting
import ScriptNaming.Table
import ScriptNaming.Template
import ScriptNaming.Text.Alphabetic
import ScriptNaming.Text.CharClass
import ScriptNaming.Text.Lowercase
import ScriptNaming.Text.Numeric
import ScriptNaming.Text.Uppercase
import ScriptNaming.Text.WhiteSpace
