import Neco.Lib.Run
import Neco.Lib.Ordered
import Neco.Lib.Lockstep
import Neco.Lib.History
import Neco.Lib.Json
import Neco.Update
import Neco.Storage.Store
import Neco.Worker.Strategy
import Neco.Worker.Worker
import Neco.Updater.Release
import Neco.Updater.Action
import Neco.Updater.Server
import Neco.System
import Neco.Updater.Decision
import Neco.Updater.Handler
import Neco.Worker.Moves
import Neco.Updater.Moves
import Neco.Steps
import Neco.Properties.Leadership
import Neco.Properties.Completion
import Neco.Properties.Reign
import Neco.Properties.Barrier
import Neco.Properties.Restart
import Neco.Properties.Recovery
import Neco.Properties.Wakeup
import Neco.Properties.WaitWorkers
import Neco.Properties.RequestOrder
import Neco.Lib.Program
import Neco.Rebooter.Storage
import Neco.Rebooter.Controller
import Neco.Rebooter.Commands
import Neco.Rebooter.Config
import Neco.Rebooter.System
import Neco.Rebooter.Answers
import Neco.Rebooter.Collect
import Neco.Rebooter.Conformance
import Neco.Rebooter.Steps
import Neco.Properties.Grouping
import Neco.Properties.Cancellation
import Neco.Properties.Delivery
import Neco.Properties.Uniqueness
import Neco.Properties.RebootWindow
import Neco.Worker.Contents
import Neco.Properties.SharedContents
import Neco.Lib.KeyValue
import Neco.Storage.Keys
import Neco.Setup.Stages
import Neco.Properties.SetupBarrier
import Neco.Lib.BinarySearch
import Neco.Storage.Info
import Neco.Worker.Etcd
import Neco.Properties.Stagger
import Neco.Properties.Unregister
import Neco.Lib.Mvcc
import Neco.Storage.Storage
import Neco.Setup.FirstRequest
import Neco.Setup.Bootstrap
import Neco.Setup.Vault
import Neco.Setup.Site
import Neco.Setup.Permits
import Neco.Setup.Guarantees
import Neco.Setup.Knowledge
import Neco.Setup.Conformance
import Neco.Properties.Bootstrap
import Neco.Lib.Progress
import Neco.Setup.Course
import Neco.Properties.BootstrapLiveness
import Neco.Properties.Reconfigure
import Neco.Updater.ReleaseChecker
import Neco.Properties.ReleaseOrder
import Neco.Lib.Greatest
import Neco.Updater.GitHub
import Neco.Properties.ReleaseSelection
import Neco.Lib.Numeral
import Neco.Storage.RebootList
import Neco.Properties.RebootQueue
import Neco.StateSetter.Config
import Neco.StateSetter.HealthCheck
import Neco.StateSetter.Controller
import Neco.Lib.Keyed
import Neco.Lib.Table
import Neco.Lib.Reordered
import Neco.StateSetter.Outcome
import Neco.Properties.GracePeriod
import Neco.Properties.Lifecycle
import Neco.Properties.AlertSeverity
import Neco.Properties.HealthDecision
import Neco.Lib.Cyclic
import Neco.Properties.RoundRobin
import Neco.Lib.IPv4
import Neco.BootIPSetter.Netif
import Neco.BootIPSetter.IP
import Neco.Properties.AddressSetter
import Neco.Properties.DHCPAddress
import Neco.Lib.Fallible
import Neco.Menu.Menu
import Neco.Menu.Cluster
import Neco.Menu.ClusterSpec
import Neco.Menu.Conf
import Neco.Properties.ClusterShape
import Neco.Properties.MenuParse
import Neco.Properties.SpineToR
import Neco.Properties.MenuSafety
import Neco.Storage.Refinement
import Neco.Properties.StorageRefinement
import Neco.Lib.Fairness
import Neco.Properties.UpdateLiveness
import Neco.Properties.FirstUpdate
import Neco.Lib.Execution
import Neco.Worker.Host
import Neco.Worker.Operator
import Neco.Worker.Deployment
import Neco.Worker.Effects
import Neco.Properties.Deployment
import Neco.Properties.SettledService
