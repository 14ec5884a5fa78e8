import KubeNeuron.Accelerator.Compile
import KubeNeuron.Accelerator.Coverage
import KubeNeuron.Agent.LoopSafety
import KubeNeuron.Agent.ResetDispatch
import KubeNeuron.Agent.SpoolRuns
import KubeNeuron.Controller.ActionIdentity
import KubeNeuron.Controller.ApprovalRuns
import KubeNeuron.Controller.Checkpoint
import KubeNeuron.Controller.Confinement
import KubeNeuron.Controller.DeviceKeys
import KubeNeuron.Controller.DispatchFence
import KubeNeuron.Controller.EventRuns
import KubeNeuron.Controller.Evidence
import KubeNeuron.Controller.ExecutionMode
import KubeNeuron.Controller.GateRuns
import KubeNeuron.Controller.LegalRuns
import KubeNeuron.Controller.OperatorRequests
import KubeNeuron.Controller.PauseRuns
import KubeNeuron.Controller.QuietRuns
import KubeNeuron.Controller.Reload
import KubeNeuron.Controller.RestoreAttempts
import KubeNeuron.Controller.StepContent
import KubeNeuron.Controller.StopRuns
import KubeNeuron.Controller.Webhook
import KubeNeuron.Decision.Monotone
import KubeNeuron.Delivery.ResultRuns
import KubeNeuron.Operations.AutonomyOnce
import KubeNeuron.Platform.Baremetal
import KubeNeuron.Platform.CordonRestore
import KubeNeuron.Platform.CordonVerdicts
import KubeNeuron.Platform.Drain
import KubeNeuron.Platform.Taints
import KubeNeuron.Playbooks.Escalation
import KubeNeuron.Safety.Flap
import KubeNeuron.Store.OperationalAudit
import KubeNeuron.Store.ReadCommitted
