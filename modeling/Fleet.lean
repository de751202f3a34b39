import Fleet.Main
import Fleet.Options.Level
import Fleet.Proofs.Config.Layers
import Fleet.Proofs.Controller
import Fleet.Proofs.File.Stage
import Fleet.Proofs.Job.Again
import Fleet.Proofs.Job.Stream
import Fleet.Proofs.Playbook.Loop
import Fleet.Proofs.Playbook.Names
import Fleet.Proofs.Playbook.Shorthand
import Fleet.Proofs.Deploy.Refinement
import Fleet.Proofs.Report.Interleaving
import Fleet.Proofs.Runner.Account
import Fleet.Proofs.Runner.Report
import Fleet.Proofs.Runner.Exit
import Fleet.Proofs.Runner.Prepare
import Fleet.Proofs.Runner.Reload
import Fleet.Proofs.Template.Spelling
import Fleet.Proofs.Template.Uniform
import Fleet.Proofs.Template.Inert
import Fleet.Proofs.Template.Undefined
import Fleet.Proofs.Template.Variable
import Fleet.Proofs.Tree.Failure
import Fleet.Proofs.Tree.Override
import Fleet.Proofs.Wire.Frame
import Fleet.Proofs.Tree.Agreement
import Fleet.Proofs.Tree.Spacing
import Fleet.Proofs.Asset.View
import Fleet.Proofs.Json.Alike
import Fleet.Proofs.Wire.Kept
import Fleet.Proofs.Host.Ending
import Fleet.Proofs.Runner.Load
import Fleet.Proofs.Job.Prepare
import Fleet.Proofs.Job.Arrival
import Fleet.Proofs.Job.Scope
import Fleet.Proofs.Runner.Line
import Fleet.Proofs.Runner.Package
import Fleet.Proofs.Deploy.HostSpec
import Fleet.Proofs.Runner.Key
import Fleet.Proofs.Runner.CommandLine
