import DraginoFwd.Jit.Entries
import DraginoFwd.Lib.SerialClock
import DraginoFwd.Lib.Transition
import DraginoFwd.Lib.Handles
import DraginoFwd.Lib.WrapCount
import DraginoFwd.Lib.BinaryPoly
import DraginoFwd.Lib.Crc
import DraginoFwd.Hal.Timestamp
import DraginoFwd.Hal.RxBuffer
import DraginoFwd.Hal.PayloadCrc
import DraginoFwd.Hal.Merge
import DraginoFwd.Hal.Receive
import DraginoFwd.Hal.Reception
import DraginoFwd.Lib.Chain
import DraginoFwd.LinkedLists
import DraginoFwd.Jit.Overlap
import DraginoFwd.Jit.Delivery
import DraginoFwd.Jit.Selection
import DraginoFwd.Jit.Representation
import DraginoFwd.Jit.Peek
import DraginoFwd.Jit.Asap
import DraginoFwd.Jit.Concurrency
import DraginoFwd.Jit.Beacons
import DraginoFwd.Jit.BeaconLoop
import DraginoFwd.Jit.BeaconFrame
import DraginoFwd.Jit.BeaconCrc
import DraginoFwd.Jit.Lbt
import DraginoFwd.Jit.Transmit
import DraginoFwd.Jit.TimerSync
import DraginoFwd.Lib.CounterMode
import DraginoFwd.Mac.Crypto
import DraginoFwd.Lib.Rijndael
import DraginoFwd.Mac.Aes
import DraginoFwd.Mac.AesSchedule
import DraginoFwd.Lib.Cmac
import DraginoFwd.Mac.Cmac
import DraginoFwd.Mac.Frame
import DraginoFwd.Mac.JoinAccept
import DraginoFwd.Mac.Downlink
import DraginoFwd.Mac.Uplink
import DraginoFwd.Mac.PacketLoop
import DraginoFwd.Mac.Decode
import DraginoFwd.Mac.FrameCounter
import DraginoFwd.Mac.DnList
import DraginoFwd.Mac.DnNewest
import DraginoFwd.Db
import DraginoFwd.Mac.PayloadHistory
import DraginoFwd.Mac.DnFile
import DraginoFwd.Uplink.Fanout
import DraginoFwd.Uplink.Recycle
import DraginoFwd.Uplink.Order
import DraginoFwd.Lib.JsonReader
import DraginoFwd.Lib.JsonStrings
import DraginoFwd.Lib.Printf
import DraginoFwd.Lib.Doubles
import DraginoFwd.Lib.Like
import DraginoFwd.Lib.Fields
import DraginoFwd.Base64
import DraginoFwd.Base64.Decoder
import DraginoFwd.Base64.Buffer
import DraginoFwd.Base64.Language
import DraginoFwd.Uplink.PushData
import DraginoFwd.Uplink.Filter
import DraginoFwd.Uplink.PacketText
import DraginoFwd.Uplink.Width
import DraginoFwd.Uplink.Datagram
import DraginoFwd.Uplink.BufferIndex
import DraginoFwd.Lib.RingBuffer
import DraginoFwd.Uplink.Ghost
import DraginoFwd.Uplink.GhostSlots
import DraginoFwd.Service.Stats
import DraginoFwd.Service.StatReport
import DraginoFwd.Service.Downlink
import DraginoFwd.Service.TxPower
import DraginoFwd.Service.Acks
import DraginoFwd.Service.PullData
import DraginoFwd.Service.MqttPayload
import DraginoFwd.Mqtt.Topic
import DraginoFwd.Lib.Cursor
import DraginoFwd.Lib.Varint
import DraginoFwd.Mqtt.Packet
import DraginoFwd.Mqtt.Publish
import DraginoFwd.Mqtt.Connect
import DraginoFwd.Mqtt.Network
import DraginoFwd.Mqtt.Client
import DraginoFwd.Mqtt.Session
import DraginoFwd.Service.Sockets
import DraginoFwd.Service.Config
import DraginoFwd.Lib.Framing
import DraginoFwd.Gps.Parser
import DraginoFwd.Gps.Bounds
import DraginoFwd.Gps.Thread
import DraginoFwd.Lib.ResultLoop
import DraginoFwd.Uart
