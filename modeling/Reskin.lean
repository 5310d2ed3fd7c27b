import Reskin.Diagnostic.Report
import Reskin.Main
import Reskin.Proofs.Compiler.Layout
import Reskin.Proofs.Pack.Coverage
import Reskin.Proofs.Pack.Emission
import Reskin.Proofs.Reader.Earliest
import Reskin.Proofs.Reader.Printing
import Reskin.Proofs.Variable.Resolution
import Reskin.Proofs.Workspace.Keys
import Reskin.Statement.Node
import Reskin.Proofs.Workspace.Assets
import Reskin.Proofs.Pack.Listing
import Reskin.Proofs.Pack.Origin
import Reskin.Proofs.Compiler.Success
import Reskin.Proofs.Pack.Lines
import Reskin.Proofs.Disk.Address
import Reskin.Proofs.Disk.Confinement
import Reskin.Proofs.Compiler.Output
import Reskin.Proofs.Compiler.Consistency
import Reskin.Proofs.Files.Order
import Reskin.Proofs.Reader.Nesting
import Reskin.Proofs.Reader.Tokens
import Reskin.Proofs.Source.Stretch
import Reskin.Proofs.Token.Fault
import Reskin.Proofs.Source.Marking
import Reskin.Proofs.Workspace.Reports
import Reskin.Proofs.Compiler.Session
import Reskin.Proofs.Statement.Violations
import Reskin.Proofs.Workspace.Faults
import Reskin.Proofs.Workspace.Arrangement
import Reskin.Proofs.Catalog.Family
import Reskin.Proofs.Pack.Vanishing
import Reskin.Proofs.Token.Spelling
import Reskin.Proofs.Pack.Armor
import Reskin.Proofs.Pack.Description
import Reskin.Proofs.Pack.Properties
import Reskin.Proofs.Variable.Scopes
import Reskin.Proofs.Token.LineEnds
import Reskin.Proofs.Workspace.AssetPaths
import Reskin.Proofs.Pack.Namespaces
import Reskin.Proofs.Text.Escape
import Reskin.Proofs.Statement.Dump
import Reskin.Proofs.Pack.Lookup
import Reskin.Proofs.Reader.RecordedTree
