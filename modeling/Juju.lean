import Juju.Hooks.SchedulerLaw
import Juju.State.RelationUniqueness
import Juju.State.YAMLView
import Juju.Unit.UnitWorkflow
import Juju.Lib.StateMachineRules
import Juju.Unit.UnitTransitions
import Juju.Unit.UnitAgent
import Juju.Unit.CrashRecovery
import Juju.State.UnitNames
import Juju.Hooks.SchedulerSession
import Juju.Hooks.LateSettings
import Juju.Hooks.CrashConsistency
import Juju.Base.Path
import Juju.State.SettingsPath
import Juju.State.SettingsAgreement
import Juju.State.ContextIsolation
import Juju.Agents.ProvisioningAgent
import Juju.Agents.MachineSafety
import Juju.Hooks.SchedulerLoops
import Juju.Hooks.OneLoop
import Juju.State.StateManagers
import Juju.State.TopologyNames
import Juju.State.TopologyConflicts
import Juju.State.TopologyRefinement
import Juju.State.ManagerRuns
import Juju.State.StateErrors
import Juju.Hooks.HookExecutor
import Juju.Hooks.SerialExecution
import Juju.State.RelationUnitWatcher
import Juju.State.WatcherCoverage
import Juju.Unit.RelationTasks
import Juju.Unit.RelationInStep
import Juju.Base.Waiting
import Juju.Unit.RelationLoops
import Juju.Unit.SingleLoop
import Juju.Unit.AgentTasks
import Juju.Unit.AgentLocks
import Juju.Unit.DeadlockFree
import Juju.Machine.Constraints
import Juju.Machine.ConstraintLayers
import Juju.State.Containers
import Juju.State.MachineUnits
import Juju.Machine.ProviderConstraints
import Juju.State.ExclusivePlacement
import Juju.Lib.Recovery
import Juju.Unit.RelationResolved
import Juju.State.TopologyWatches
import Juju.Charm.CharmPublisher
import Juju.Charm.ConcurrentPublish
import Juju.Unit.ReadyUnit
import Juju.Unit.UnitWatches
import Juju.Unit.WatchesKept
import Juju.State.FirewallManager
import Juju.State.PortWatches
import Juju.State.UnitsCalls
import Juju.State.ExposedUnits
import Juju.State.GroupPrincipal
import Juju.Agents.MachineAgent
import Juju.Lib.Pattern
import Juju.Lib.Text
import Juju.State.UnitNameLookups
import Juju.Charm.CharmURL
import Juju.Charm.CharmURLGrammar
import Juju.Charm.CharmURLText
import Juju.State.FirewallPorts
import Juju.Agents.ProvisioningPass
import Juju.Unit.KnownRelations
import Juju.Unit.KnownRelationsSound
import Juju.Unit.KnownRelationsKept
import Juju.Unit.KnownRelationsCallback
import Juju.Unit.KnownRelationsRuns
import Juju.Unit.KnownRelationsSafety
import Juju.Config.Schema
import Juju.Config.EnvironmentsConfig
import Juju.Config.SchemaRules
import Juju.Config.SerializedConfig
import Juju.Config.LoadedConfig
import Juju.Control.StatusCommand
import Juju.Lib.Nesting
import Juju.State.ManagerTopologies
import Juju.Base.Returns
import Juju.Control.StatusReads
import Juju.Control.StatusGather
import Juju.Control.StatusReturns
import Juju.Control.StatusNesting
import Juju.Control.StatusUnits
import Juju.Lib.CleanTransitions
import Juju.Lib.FileWrites
import Juju.Unit.DiskState
import Juju.State.NodeACL
import Juju.State.NodeACLEdits
import Juju.Lib.Base64
import Juju.State.OTPPrincipal
import Juju.Base.AbsolutePath
import Juju.Lib.FileTree
import Juju.Charm.CharmDirectory
import Juju.Charm.ArchiveLinks
import Juju.Charm.CharmBundle
import Juju.Charm.ArchiveItems
import Juju.Charm.CharmContent
import Juju.Charm.ExtractedCharm
import Juju.Charm.QuotedKeys
import Juju.Lib.PythonText
import Juju.Charm.CharmMetadata
import Juju.Charm.MetadataNormal
import Juju.Charm.MetadataAlike
import Juju.Charm.MetadataSettled
import Juju.Charm.ConfigOptions
import Juju.Charm.ConfigSpecification
import Juju.Charm.ConfigValidation
import Juju.Charm.ConfigFailures
import Juju.Charm.ConfigCleanly
import Juju.Schemas.Combinators
import Juju.Schemas.Checkers
import Juju.Schemas.PathsRestored
import Juju.Schemas.ErrorPaths
import Juju.Schemas.SchemaErrors
import Juju.Machine.SatisfactionOrder
import Juju.State.RelationIdents
import Juju.State.TopologyMigration
import Juju.Lib.LogIterator
import Juju.Machine.EC2Types
import Juju.State.HookConfig
import Juju.Machine.EC2Specs
import Juju.Unit.RebuiltRelations
import Juju.Lib.SharedNode
import Juju.State.UnitPorts
import Juju.State.UnitFlags
import Juju.Lib.Moments
import Juju.Unit.HookOrder
import Juju.Unit.HookHistory
import Juju.Unit.HookRuns
import Juju.State.GlobalSettings
import Juju.Agents.DebugLog
import Juju.Hooks.RelationGet
import Juju.Hooks.HookTransaction
import Juju.Hooks.DeliveryProgress
