import AppSupervisor.Record
import AppSupervisor.Registry.Roster
import AppSupervisor.Rehearsal
import AppSupervisor.Main
import AppSupervisor.ChildSignal
import AppSupervisor.Proofs.Registry.Refinement
import AppSupervisor.Proofs.ControlThread.Confinement
import AppSupervisor.Proofs.ControlThread.Course
import AppSupervisor.Proofs.ControlThread.Identity
import AppSupervisor.Proofs.ControlThread.RunIdReuse
import AppSupervisor.Proofs.ControlThread.SignalHistory
import AppSupervisor.Proofs.Supervisor.Commutation
import AppSupervisor.Proofs.Registry.Allocation
import AppSupervisor.Proofs.ControlThread.Allocation
import AppSupervisor.Proofs.ControlThread.Deferral
import AppSupervisor.Proofs.Supervisor.Records
import AppSupervisor.Proofs.Supervisor.Sequel
import AppSupervisor.Proofs.Registry.Reaping
import AppSupervisor.Proofs.ControlThread.Reaping
import AppSupervisor.Proofs.Registry.Clearance
import AppSupervisor.Proofs.ControlThread.Rollback
import AppSupervisor.Proofs.Supervisor.Collection
import AppSupervisor.Proofs.Supervisor.Refusal
import AppSupervisor.Proofs.Template
import AppSupervisor.Proofs.Config
import AppSupervisor.Proofs.ControlThread.Ownership
import AppSupervisor.Proofs.Request
import AppSupervisor.Proofs.Console
import AppSupervisor.Proofs.Record
import AppSupervisor.Proofs.Config.RoundTrip
import AppSupervisor.Proofs.ChildSignal
import AppSupervisor.Proofs.ControlThread.Safety
