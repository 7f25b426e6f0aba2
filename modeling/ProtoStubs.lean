import ProtoStubs.Main
import ProtoStubs.Proofs.Calls
import ProtoStubs.Proofs.Denotation
import ProtoStubs.Proofs.FileOrder
import ProtoStubs.Proofs.Imports
import ProtoStubs.Transcript
import ProtoStubs.Proofs.Isolation
import ProtoStubs.Proofs.Stability
import ProtoStubs.Proofs.FlatNames
import ProtoStubs.Proofs.Retry
import ProtoStubs.Proofs.Registry
import ProtoStubs.Proofs.Strictness
import ProtoStubs.Proofs.Roles
import ProtoStubs.Proofs.OutputPaths
import ProtoStubs.Proofs.HelperNames
import ProtoStubs.Proofs.Writing
import ProtoStubs.Proofs.Parameters
import ProtoStubs.Proofs.EntryPoints
import ProtoStubs.Proofs.WireLevels
import ProtoStubs.Proofs.WireContents
import ProtoStubs.Proofs.Encodings
import ProtoStubs.Proofs.Serializing
import ProtoStubs.Proofs.Exchange
import ProtoStubs.Proofs.Specifiers
import ProtoStubs.Proofs.Declarations
import ProtoStubs.Proofs.MapFields
import ProtoStubs.Proofs.HelperPaths
import ProtoStubs.Proofs.FailedResolutions
import ProtoStubs.Proofs.ImportNames
import ProtoStubs.Proofs.InputFiles
import ProtoStubs.Proofs.FullNames
import ProtoStubs.Proofs.Routes
