import JvmTypes.AccessFlags
import JvmTypes.Annotation
import JvmTypes.Assignability
import JvmTypes.BaseType
import JvmTypes.Binding
import JvmTypes.Constant
import JvmTypes.Declaration
import JvmTypes.Descriptor
import JvmTypes.Detachment
import JvmTypes.Erased
import JvmTypes.Field
import JvmTypes.Hierarchy
import JvmTypes.HookRegistry
import JvmTypes.Loader
import JvmTypes.Loader.Conversion
import JvmTypes.Loader.Error
import JvmTypes.Loader.State
import JvmTypes.LogFilter
import JvmTypes.Members
import JvmTypes.Method
import JvmTypes.Method.Access
import JvmTypes.Method.Bootstrap
import JvmTypes.Method.DefaultValue
import JvmTypes.Method.Text
import JvmTypes.Method.Token
import JvmTypes.Name
import JvmTypes.Naming
import JvmTypes.Proofs.Annotation.Reflexivity
import JvmTypes.Proofs.Binding.Composition
import JvmTypes.Proofs.Loader.Agreement
import JvmTypes.Proofs.Loader.Coherence
import JvmTypes.Proofs.Loader.Completion
import JvmTypes.Proofs.Loader.ConversionScript
import JvmTypes.Proofs.Loader.ConversionUniform
import JvmTypes.Proofs.Loader.ConversionVisibility
import JvmTypes.Proofs.Loader.Enclosing
import JvmTypes.Proofs.Loader.Exact
import JvmTypes.Proofs.Loader.Frame
import JvmTypes.Proofs.Loader.LoadOrder
import JvmTypes.Proofs.Loader.Loading
import JvmTypes.Proofs.Loader.NestingLimit
import JvmTypes.Proofs.Loader.Parameters
import JvmTypes.Proofs.Loader.Reachable
import JvmTypes.Proofs.Loader.Runs
import JvmTypes.Proofs.Loader.Script
import JvmTypes.Proofs.Loader.Standing
import JvmTypes.Proofs.Loader.Total
import JvmTypes.Proofs.Loader.Uniform
import JvmTypes.Proofs.Loader.Visibility
import JvmTypes.Proofs.Loader.Yield
import JvmTypes.Proofs.Method.DispatchSlot
import JvmTypes.Proofs.Method.OwnVariables
import JvmTypes.Proofs.Method.Reattachment
import JvmTypes.Proofs.Method.TokenRoundTrip
import JvmTypes.Proofs.Method.Views
import JvmTypes.Proofs.Scope.Walk
import JvmTypes.Proofs.Shape.Bounds
import JvmTypes.Proofs.Shape.Detaching
import JvmTypes.Proofs.Shape.Renaming
import JvmTypes.Proofs.Shape.Structure
import JvmTypes.Proofs.Shape.Substitution
import JvmTypes.Proofs.Shape.WellFormed
import JvmTypes.Proofs.Store.Agreement
import JvmTypes.Proofs.Store.Growth
import JvmTypes.Scope
import JvmTypes.Settings
import JvmTypes.Shape
import JvmTypes.ShapeError
import JvmTypes.Signature.OfShape
import JvmTypes.Signature.Reader
import JvmTypes.Signature.Tree
import JvmTypes.Signature.Writer
import JvmTypes.Store
import JvmTypes.Stub
import JvmTypes.Substitution
import JvmTypes.Text.Alphanumeric
import JvmTypes.Text.Blank
import JvmTypes.Text.Printable
import JvmTypes.Text.Quoted
import JvmTypes.Toml.Reader
import JvmTypes.Toml.Scalar
import JvmTypes.Toml.Tree
import JvmTypes.Toml.Value
import JvmTypes.Proofs.Name
import JvmTypes.Proofs.Signature.Grammar
import JvmTypes.Proofs.Signature.Reading
import JvmTypes.Proofs.Signature.Acceptance
import JvmTypes.Proofs.Signature.RoundTrip
import JvmTypes.Proofs.Signature.Slash
import JvmTypes.Proofs.Loader.Provenance
import JvmTypes.Proofs.Descriptor
import JvmTypes.Proofs.Loader.Descriptors
import JvmTypes.Proofs.Loader.Written
import JvmTypes.Proofs.Loader.Rereading
import JvmTypes.Proofs.Loader.References
import JvmTypes.Proofs.Loader.Strictness
import JvmTypes.Proofs.HookRegistry
import JvmTypes.Proofs.Members.Regularity
import JvmTypes.Proofs.Chain
import JvmTypes.Proofs.Loader.Calls
import JvmTypes.Proofs.Loader.Circles
import JvmTypes.Proofs.Loader.EnclosingChains
import JvmTypes.Proofs.Loader.SuperChains
import JvmTypes.Proofs.Signature.Canonical
import JvmTypes.Proofs.Loader.Verbatim
import JvmTypes.Proofs.Loader.WholeLoads
import JvmTypes.Proofs.Loader.Fidelity
import JvmTypes.Proofs.Method.KeptVariables
import JvmTypes.Proofs.Method.ViewErasures
import JvmTypes.Proofs.Shape.Relocating
import JvmTypes.Proofs.Method.Retargeting
import JvmTypes.Proofs.Loader.Occurrences
import JvmTypes.Proofs.Loader.ClosedLoads
import JvmTypes.Proofs.Assignability
import JvmTypes.Proofs.Method.Attachment
import JvmTypes.Proofs.Members.Narrowing
import JvmTypes.Proofs.Members.OwnArguments
import JvmTypes.Proofs.Members.RawHierarchy
import JvmTypes.Proofs.Method.BootstrapShapes
import JvmTypes.Proofs.Method.BootstrapArguments
import JvmTypes.Proofs.Method.Slots
import JvmTypes.Proofs.Annotation.Sameness
import JvmTypes.Proofs.Method.TokenIdentity
import JvmTypes.Proofs.Loader.BoundChains
import JvmTypes.Proofs.LogFilter
import JvmTypes.Proofs.Scope.Innermost
