import Trench.Lib.PathOrder
import Trench.Lib.CyclicChain
import Trench.Lib.Digits
import Trench.Lib.Fields
import Trench.Lib.Cursor
import Trench.Lib.TwoBuffers
import Trench.Wire.Name
import Trench.Wire.Cursor
import Trench.Wire.NameCodec
import Trench.Wire.NameOrder
import Trench.Wire.RRTypes
import Trench.Wire.Rdata
import Trench.Wire.Address
import Trench.Wire.RdataCodec
import Trench.Wire.RdataRoundTrip
import Trench.Dnssec.TypeBitmap
import Trench.Dnssec.Nsec
import Trench.Dnssec.Content
import Trench.Dnssec.NsecSound
import Trench.Dnssec.Nsec3
import Trench.Dnssec.Nsec3Sound
import Trench.Lib.Dict
import Trench.Lib.Heap
import Trench.Lib.Machine
import Trench.Wire.NameText
import Trench.Wire.NameSpelling
import Trench.AuthZone.Tsig
import Trench.AuthZone.TsigReplay
import Trench.Wire.Edns
import Trench.Wire.Message
import Trench.Wire.RecordRoundTrip
import Trench.Wire.RdataIdentity
import Trench.Wire.MessageRoundTrip
import Trench.Wire.MessageStable
import Trench.Lib.Probing
import Trench.Filter.Shared
import Trench.Filter.SharedExact
import Trench.Lib.StarPattern
import Trench.Filter.Rule
import Trench.Filter.AddressRules
import Trench.Filter.Engine
import Trench.Lib.FirstMax
import Trench.Filter.EngineDecides
import Trench.Filter.Ranked
import Trench.Filter.RpzPrefix
import Trench.App.Adopt
import Trench.App.Refresh
import Trench.Filter.Parser
import Trench.Gravity.Stream
import Trench.Ops.Version
import Trench.Ops.WhatIf
import Trench.Engine.SuffixWalk
import Trench.Engine.QueryKey
import Trench.Engine.QueryAlike
import Trench.Engine.Harden
import Trench.Lib.Follow
import Trench.Engine.SanitizeExact
import Trench.Engine.Pipeline
import Trench.Engine.PipelineAnswers
import Trench.Transport.Base
import Trench.Transport.StreamReplies
import Trench.Transport.UdpPool
import Trench.Transport.UdpDispatch
import Trench.AuthZone.Zone
import Trench.AuthZone.ZoneNames
import Trench.AuthZone.RrsetAnswer
import Trench.AuthZone.Zonefile
import Trench.AuthZone.ZonefileData
import Trench.AuthZone.ZonefileLines
import Trench.AuthZone.ZonefileServes
import Trench.AuthZone.MasterFile
import Trench.AuthZone.MasterLines
import Trench.AuthZone.MasterMeans
import Trench.AuthZone.ZoneChain
import Trench.AuthZone.ZoneLookup
import Trench.Lib.Sha1
import Trench.AuthZone.Signer
import Trench.AuthZone.ZoneAgree
import Trench.AuthZone.Transfer
import Trench.AuthZone.TransferAgree
import Trench.Wire.Reply
import Trench.AuthZone.Store
import Trench.Wire.UpdateWire
import Trench.Wire.RdataText
import Trench.Wire.RdataFields
import Trench.Wire.Size
import Trench.Wire.Extent
import Trench.AuthZone.Update
import Trench.AuthZone.UpdateKeeps
import Trench.AuthZone.TransferMessages
import Trench.AuthZone.TsigChain
import Trench.AuthZone.Secondary
import Trench.AuthZone.SecondaryKeeps
import Trench.AuthZone.TransferFraming
import Trench.Cache.Shared
import Trench.Cache.Cache
import Trench.Cache.Provenance
import Trench.Cache.Lifetimes
import Trench.Cache.Runs
import Trench.Cache.Objects
import Trench.Cache.Aliasing
import Trench.Cache.Restart
import Trench.Engine.Coalesce
import Trench.Engine.CoalesceRuns
import Trench.Engine.FastPath
import Trench.Engine.Replay
import Trench.Engine.RateLimit
import Trench.Engine.RateBound
import Trench.Transport.Metering
import Trench.Transport.MeteredOnce
import Trench.Wire.IpAddress
import Trench.Security.ClientAddr
import Trench.Lib.Memory
import Trench.Store.RingLog
import Trench.Store.RingRuns
import Trench.Dhcp.Scope
import Trench.Dhcp.Server
import Trench.Dhcp.LeaseTable
import Trench.Dhcp.Requests
import Trench.Dhcp.PacketWire
import Trench.Api.Totp
import Trench.Lib.Backoff
import Trench.Api.Auth
import Trench.Api.Guessing
import Trench.Api.Codes
import Trench.Clients.Registry
import Trench.Clients.Activity
import Trench.Clients.Identity
import Trench.Dnssec.SignedData
import Trench.Engine.SvcParams
import Trench.Wire.Truncation
import Trench.Lib.Lengthen
import Trench.Wire.RdataTail
import Trench.Console.Lexer
import Trench.Console.Qlang
import Trench.Console.Parser
import Trench.Console.Grammar
import Trench.Lib.Coroutine
import Trench.Dnssec.Trust
import Trench.Resolver.Safety
import Trench.AuthZone.NsecRing
import Trench.Cache.Flush
import Trench.Wire.ReadClosed
import Trench.Engine.NameWalkers
