import JavaGenerics.Descriptor.Reading
import JavaGenerics.Signature.Event
import JavaGenerics.Signature.Reading
import JavaGenerics.Signature.Walk
import JavaGenerics.Registry.Platform
import JavaGenerics.Registry.Enclosing
import JavaGenerics.Registry.Display
import JavaGenerics.Registry.Index
import JavaGenerics.Resolution.Collaborator
import JavaGenerics.Assembly.Class
import JavaGenerics.Assembly.Method
import JavaGenerics.Settings
import JavaGenerics.Proofs.Meaning
import JavaGenerics.Proofs.Progress
import JavaGenerics.Proofs.Evolution
import JavaGenerics.Proofs.Nesting
import JavaGenerics.Proofs.Frame
import JavaGenerics.Proofs.Scoping
import JavaGenerics.Proofs.Session
import JavaGenerics.Proofs.Binding
import JavaGenerics.Proofs.Acceptance
import JavaGenerics.Proofs.Termination
import JavaGenerics.Proofs.Verification
import JavaGenerics.Proofs.Success
import JavaGenerics.Proofs.Header
import JavaGenerics.Proofs.Transparency
import JavaGenerics.Proofs.Accounting
import JavaGenerics.Proofs.OwnSignature
import JavaGenerics.Proofs.Repetition
import JavaGenerics.Proofs.Completeness
import JavaGenerics.Proofs.EventScoping
import JavaGenerics.Proofs.Refusal
import JavaGenerics.Proofs.EventGrammar
import JavaGenerics.Proofs.WriteOnce
import JavaGenerics.Proofs.WellFormed
import JavaGenerics.Proofs.TypeParamReading
import JavaGenerics.Proofs.Consistency
import JavaGenerics.Proofs.NameIndex
import JavaGenerics.Proofs.Logging
import JavaGenerics.Proofs.VariableNames
import JavaGenerics.Proofs.Partway
import JavaGenerics.Proofs.OnDemand
import JavaGenerics.Proofs.Grounding
import JavaGenerics.Proofs.Order
import JavaGenerics.Proofs.EnclosingWalk
import JavaGenerics.Proofs.LexicalScoping
import JavaGenerics.Proofs.DescriptorEvents
import JavaGenerics.Proofs.Relabelling
import JavaGenerics.Proofs.MemberTypes
import JavaGenerics.Proofs.Sightings
import JavaGenerics.Proofs.Conclusion
import JavaGenerics.Proofs.Requests
import JavaGenerics.Proofs.ArityWarnings
import JavaGenerics.Proofs.ParameterNames
import JavaGenerics.Proofs.TypeFeeding
import JavaGenerics.Proofs.TypeStack
import JavaGenerics.Proofs.WholeTypes
import JavaGenerics.Proofs.Unreadable
import JavaGenerics.Proofs.EventLevel
import JavaGenerics.Proofs.ByteGrammar
import JavaGenerics.Proofs.Walking
import JavaGenerics.Proofs.Directives
import JavaGenerics.Proofs.LogFilters
import JavaGenerics.Proofs.TomlWords
import JavaGenerics.Proofs.TomlTables
import JavaGenerics.Proofs.TomlReading
import JavaGenerics.Proofs.TomlSpelling
import JavaGenerics.Proofs.SettingsFile
