import SoftPatchPanel.Foundation.Transition
import SoftPatchPanel.Foundation.CountedArray
import SoftPatchPanel.Foundation.CString
import SoftPatchPanel.Worker.DataTypes
import SoftPatchPanel.Worker.CmdUtils
import SoftPatchPanel.Worker.CmdParser
import SoftPatchPanel.Worker.AcceptedRequests
import SoftPatchPanel.Worker.PortCapability
import SoftPatchPanel.Worker.TwoSides
import SoftPatchPanel.Vf.ClassifierTable
import SoftPatchPanel.Vf.ForwarderTable
import SoftPatchPanel.Worker.CmdRunner
import SoftPatchPanel.Worker.CmdEffect
import SoftPatchPanel.Worker.Placement
import SoftPatchPanel.Worker.CompPorts
import SoftPatchPanel.Worker.Ownership
import SoftPatchPanel.Worker.Rollback
import SoftPatchPanel.Worker.VlanAttrs
import SoftPatchPanel.Vf.ClassifierBuild
import SoftPatchPanel.Vf.ClassifierReport
import SoftPatchPanel.Vf.ReportRun
import SoftPatchPanel.Worker.VlanBurst
import SoftPatchPanel.Vf.Classify
import SoftPatchPanel.Vf.Routing
import SoftPatchPanel.Vf.Conservation
import SoftPatchPanel.Vf.Interference
import SoftPatchPanel.Foundation.DoubleBuffer
import SoftPatchPanel.Vf.UpdateHandshake
import SoftPatchPanel.Worker.Waits
import SoftPatchPanel.Worker.CmdTokens
import SoftPatchPanel.Worker.CmdLanguage
import SoftPatchPanel.Worker.CmdFaithful
import SoftPatchPanel.Worker.PortRange
import SoftPatchPanel.Nfv.Ports
import SoftPatchPanel.Shared.ResourceUid
import SoftPatchPanel.Primary.Ports
import SoftPatchPanel.Primary.FailedPorts
import SoftPatchPanel.Foundation.Panel
import SoftPatchPanel.Nfv.Status
import SoftPatchPanel.Nfv.PatchPanel
import SoftPatchPanel.Nfv.PanelShown
import SoftPatchPanel.Primary.PortIdList
import SoftPatchPanel.Shared.JsonHelper
import SoftPatchPanel.Vf.StatusReply
import SoftPatchPanel.Vf.ComponentPorts
import SoftPatchPanel.Vf.ComponentTables
import SoftPatchPanel.Vf.Reportable
import SoftPatchPanel.Vf.StatusText
import SoftPatchPanel.Vf.Answered
import SoftPatchPanel.Vf.StatusDecoded
import SoftPatchPanel.Shared.DevName
import SoftPatchPanel.Worker.HostPorts
import SoftPatchPanel.Vf.UidRoundTrip
import SoftPatchPanel.Foundation.LinkedList
import SoftPatchPanel.Primary.FlowRules
import SoftPatchPanel.Primary.Args
import SoftPatchPanel.Primary.PhyPorts
import SoftPatchPanel.Foundation.Fairness
import SoftPatchPanel.Pcap.Capture
import SoftPatchPanel.SppCtl.Registry
import SoftPatchPanel.SppCtl.Replies
import SoftPatchPanel.Foundation.Scan
import SoftPatchPanel.Primary.FlowParser
import SoftPatchPanel.Foundation.Memory
import SoftPatchPanel.Vf.VlanBytes
import SoftPatchPanel.Worker.VlanApplied
import SoftPatchPanel.Vf.ForwarderFits
import SoftPatchPanel.Foundation.Handover
import SoftPatchPanel.Vf.TagUpdate
import SoftPatchPanel.Worker.Handshakes
import SoftPatchPanel.Mirror.Proc
import SoftPatchPanel.Vf.ConfigOrder
import SoftPatchPanel.Vf.EntryLocality
import SoftPatchPanel.Primary.FlowFields
import SoftPatchPanel.Primary.TextNumbers
import SoftPatchPanel.Foundation.Writing
import SoftPatchPanel.Primary.FlowStatus
import SoftPatchPanel.Nfv.BasicForwarder
import SoftPatchPanel.Shared.StringBuffer
import SoftPatchPanel.Worker.ReceiveBuffer
