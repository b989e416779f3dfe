import ClusterController.Lib.Program
import ClusterController.Lib.Interleaving
import ClusterController.Lib.Log
import ClusterController.Lib.ApiServer
import ClusterController.Lib.Ovsdb
import ClusterController.Crd
import ClusterController.Request
import ClusterController.Kube
import ClusterController.Scheduling
import ClusterController.VirtualMachine
import ClusterController.Ovn
import ClusterController.Ceph
import ClusterController.Networking
import ClusterController.Host
import ClusterController.Metadata
import ClusterController.World
import ClusterController.Alone
import ClusterController.Hypervisors
import ClusterController.Quiet
import ClusterController.Contracts
import ClusterController.Reconciles
import ClusterController.LostUpdate
import ClusterController.AntiAffinity
import ClusterController.Handover
import ClusterController.SingleInstance
import ClusterController.MigrationSource
import ClusterController.MigrationRequest
import ClusterController.MigrationCompletion
import ClusterController.RunningFlag
import ClusterController.Lib.OvsdbSchema
import ClusterController.WireForms
import ClusterController.MalformedRows
import ClusterController.Northbound
import ClusterController.Transactions
import ClusterController.OvnActions
import ClusterController.Panics
import ClusterController.SwitchPorts
import ClusterController.Removal
import ClusterController.Teardown
import ClusterController.Wiring
import ClusterController.Attachments
import ClusterController.Fitting
import ClusterController.PortTeardown
import ClusterController.Nics
import ClusterController.NicHistory
import ClusterController.NicSettings
import ClusterController.NicIdentity
import ClusterController.Placement
import ClusterController.MigrationTarget
import ClusterController.NeedlessMoves
import ClusterController.Routes
import ClusterController.CrdMigration
import ClusterController.NameRaces
import ClusterController.Memory
import ClusterController.VolumeImages
import ClusterController.RouteNames
import ClusterController.Draining
import ClusterController.TypeEdits
import ClusterController.PortAddresses
import ClusterController.NicConnections
import ClusterController.RouterLinks
import ClusterController.CephHandles
import ClusterController.ImageListings
import ClusterController.DeviceNames
import ClusterController.JsonRpc
import ClusterController.MetadataBackend
import ClusterController.Externals
import ClusterController.Calls
import ClusterController.Finalizers
import ClusterController.Writes
import ClusterController.Provenance
import ClusterController.Lib.Mailbox
import ClusterController.MetadataService
import ClusterController.Startup
import ClusterController.StartupProgress
