import BuildTargets.Main
import BuildTargets.Store
import BuildTargets.Proofs.Repair.Agreement
import BuildTargets.Proofs.Repair.Convergence
import BuildTargets.Proofs.Repair.Additions
import BuildTargets.Proofs.Repair.Compliance
import BuildTargets.Proofs.CommandLine.Reading
import BuildTargets.Proofs.FailStop
import BuildTargets.Proofs.Repair.Footprint
import BuildTargets.Proofs.Repair.Resumption
import BuildTargets.Proofs.Repair.Amendment
import BuildTargets.Proofs.Repair.Confinement
import BuildTargets.Proofs.Repair.Itinerary
import BuildTargets.Proofs.Repair.Settlement
import BuildTargets.Proofs.Listing
import BuildTargets.Proofs.Repair.Interchange
import BuildTargets.Proofs.Report
import BuildTargets.Proofs.Repair.Rest
import BuildTargets.Proofs.CommandLine.Arrangement
import BuildTargets.Proofs.CommandLine.ExitStatus
import BuildTargets.Proofs.Repair.Removal
import BuildTargets.Proofs.Repair.Provision
import BuildTargets.Proofs.Repair.Installation
import BuildTargets.Proofs.Teardown
import BuildTargets.Proofs.Client.Diagnosis
import BuildTargets.Proofs.Repair.Recollection
import BuildTargets.Proofs.Bridge
import BuildTargets.Proofs.Client.Arguments
import BuildTargets.Proofs.Driver
import BuildTargets.Proofs.Report.Table
