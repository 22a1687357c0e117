import Ipmitool.Lanplus.Build
import Ipmitool.Lanplus.Send
import Ipmitool.Intf.Registry
import Ipmitool.Lanplus.Open
import Ipmitool.Lanplus.Bridging
import Ipmitool.Lanplus.PayloadSize
import Ipmitool.Lanplus.Packet
import Ipmitool.Lanplus.Poll
import Ipmitool.Lanplus.Rounds
import Ipmitool.Lanplus.Steps
import Ipmitool.Lanplus.Correlation
import Ipmitool.Lanplus.Handshake
import Ipmitool.Lanplus.Establishment
import Ipmitool.Lan.Receive
import Ipmitool.Lan.Send
import Ipmitool.Lan.Open
import Ipmitool.Lan.Correlation
import Ipmitool.Lan.Steps
import Ipmitool.Lanplus.Waiting
import Ipmitool.Lib.Mealy
import Ipmitool.Serial.Basic
import Ipmitool.Serial.Terminal
import Ipmitool.Cmd.Sol
import Ipmitool.Cmd.SolSiblings
import Ipmitool.Sel.Entries
import Ipmitool.Sel.Listing
import Ipmitool.Sel.Save
import Ipmitool.Hpm.Agent
import Ipmitool.Hpm.Image
import Ipmitool.Hpm.Upgrade
import Ipmitool.Hpm.Selection
import Ipmitool.Hpm.Honesty
import Ipmitool.Fru.Edit
import Ipmitool.Fru.ReadFirst
import Ipmitool.Lib.Linked
import Ipmitool.Lib.Rounding
import Ipmitool.Util.FloatParse
import Ipmitool.Sdr.Records
import Ipmitool.Sdr.Walk
import Ipmitool.Sdr.Cache
import Ipmitool.Sdr.Served
import Ipmitool.Sdr.Fill
import Ipmitool.Sdr.Invariant
import Ipmitool.Sdr.Transparency
import Ipmitool.Fru.Image
import Ipmitool.Sol.Resend
import Ipmitool.Sol.Input
import Ipmitool.Sol.Typing
import Ipmitool.Sol.Receive
import Ipmitool.Lanplus.Wire
import Ipmitool.Lan.Wire
import Ipmitool.Lan.Unwrap
import Ipmitool.OpenIpmi.Sendrecv
import Ipmitool.Cmd.Lanp
import Ipmitool.Cmd.Updates
import Ipmitool.Evd.Delivery
import Ipmitool.Evd.Clearing
import Ipmitool.Fru.FieldEdit
import Ipmitool.Fru.Blocks
import Ipmitool.Fru.Reads
import Ipmitool.Fru.Writes
import Ipmitool.Lan.Retries
import Ipmitool.Lan.Outstanding
import Ipmitool.Sdr.RangeList
import Ipmitool.Sdr.PartialReads
import Ipmitool.Sdr.Ending
import Ipmitool.Sdr.Satellites
import Ipmitool.Sdr.Conversion
import Ipmitool.Serial.Build
import Ipmitool.Serial.Exchange
import Ipmitool.Serial.Queued
import Ipmitool.Frontend.Words
import Ipmitool.Frontend.LineEditor
import Ipmitool.Sel.Raw
import Ipmitool.Lib.Gregorian
import Ipmitool.Util.Calendar
import Ipmitool.Util.CalendarFormat
import Ipmitool.Util.IntegerScan
import Ipmitool.Crypto.Payload
import Ipmitool.Core.Requests
import Ipmitool.Firewall.Commands
import Ipmitool.Sel.Walks
import Ipmitool.Firewall.Discovery
import Ipmitool.Firewall.Changes
import Ipmitool.Firewall.Reset
import Ipmitool.Cmd.LanpAuth
import Ipmitool.Fru.Multirecords
import Ipmitool.Fru.FieldText
import Ipmitool.Ekanalyzer.Records
import Ipmitool.Ekanalyzer.Bodies
import Ipmitool.Lib.Sweep
import Ipmitool.Cmd.Cfgp
import Ipmitool.Cmd.CfgpGet
import Ipmitool.Cmd.CfgpSave
import Ipmitool.Chassis.Bootparam
import Ipmitool.OpenIpmi.Lengths
import Ipmitool.Cmd.Channel
import Ipmitool.Cmd.Gendev
import Ipmitool.Cmd.GendevImage
import Ipmitool.Cmd.Sensor
import Ipmitool.Chassis.BootCommands
import Ipmitool.Fwum.Buffers
import Ipmitool.Lib.Limbs
import Ipmitool.Util.FloatDecimal
import Ipmitool.Ekanalyzer.Matching
import Ipmitool.Fru.RecordWalk
import Ipmitool.Fru.Upgrade
import Ipmitool.Fwum.Setbacks
import Ipmitool.Hpm.Delivery
import Ipmitool.Hpm.Ending
import Ipmitool.Hpm.Probing
import Ipmitool.Hpm.Records
import Ipmitool.Sol.Delivery
import Ipmitool.Lan.Counting
import Ipmitool.Sol.Sequence
import Ipmitool.Peer.Agreement
import Ipmitool.Peer.Opening
