import Spigeon.Lib.CInt
import Spigeon.Lib.CStr
import Spigeon.Lib.Chain
import Spigeon.Lib.Crc
import Spigeon.Lib.Decimal
import Spigeon.Lib.Forest
import Spigeon.Lib.Framer
import Spigeon.Lib.Lifetime
import Spigeon.Lib.Lists
import Spigeon.Lib.Lts
import Spigeon.Lib.Memory
import Spigeon.Lib.Percent
import Spigeon.Lib.Printf
import Spigeon.Lib.Quoted
import Spigeon.Lib.Refine
import Spigeon.Lib.RoundRobin
import Spigeon.Lib.Split
import Spigeon.Lib.Strtok
import Spigeon.Spec.Config
import Spigeon.Spec.ConfigAccess
import Spigeon.Spec.ConfigDoc
import Spigeon.Spec.ConfigLexer
import Spigeon.Spec.ConfigTree
import Spigeon.Spec.ConfigValue
import Spigeon.Spec.Connection
import Spigeon.Spec.Crc32c
import Spigeon.Spec.Dgram
import Spigeon.Spec.Dirs
import Spigeon.Spec.Event
import Spigeon.Spec.Gsdm
import Spigeon.Spec.HttpClient
import Spigeon.Spec.Input
import Spigeon.Spec.Io
import Spigeon.Spec.KeyLock
import Spigeon.Spec.Log
import Spigeon.Spec.LogText
import Spigeon.Spec.Manager
import Spigeon.Spec.Network
import Spigeon.Spec.Nshead
import Spigeon.Spec.Numbers
import Spigeon.Spec.Options
import Spigeon.Spec.Output
import Spigeon.Spec.Path
import Spigeon.Spec.Queue
import Spigeon.Spec.Quote
import Spigeon.Spec.Replies
import Spigeon.Spec.Sds
import Spigeon.Spec.SdsOps
import Spigeon.Spec.SdsText
import Spigeon.Spec.Server
import Spigeon.Spec.Socket
import Spigeon.Spec.Stat
import Spigeon.Spec.System
import Spigeon.Spec.Udp
import Spigeon.Spec.UrlPrintf
import Spigeon.Spec.UrlText
import Spigeon.Spec.Worker
import Spigeon.Proof.Bounds
import Spigeon.Proof.Clients
import Spigeon.Proof.Config
import Spigeon.Proof.ConfigDestroy
import Spigeon.Proof.ConfigHeap
import Spigeon.Proof.ConfigLexer
import Spigeon.Proof.ConfigLife
import Spigeon.Proof.ConfigLookup
import Spigeon.Proof.ConfigParse
import Spigeon.Proof.ConfigPrint
import Spigeon.Proof.ConfigRef
import Spigeon.Proof.ConfigRound
import Spigeon.Proof.Count
import Spigeon.Proof.Crc32c
import Spigeon.Proof.Descent
import Spigeon.Proof.Dgram
import Spigeon.Proof.Dirs
import Spigeon.Proof.Dispatch
import Spigeon.Proof.Drain
import Spigeon.Proof.Echo
import Spigeon.Proof.Event
import Spigeon.Proof.Framing
import Spigeon.Proof.Gsdm
import Spigeon.Proof.Handoff
import Spigeon.Proof.HttpClient
import Spigeon.Proof.HttpInv
import Spigeon.Proof.HttpResponse
import Spigeon.Proof.Idle
import Spigeon.Proof.Input
import Spigeon.Proof.Interest
import Spigeon.Proof.KeyLock
import Spigeon.Proof.Limits
import Spigeon.Proof.Load
import Spigeon.Proof.Log
import Spigeon.Proof.LogText
import Spigeon.Proof.Manager
import Spigeon.Proof.Network
import Spigeon.Proof.Numbers
import Spigeon.Proof.Objects
import Spigeon.Proof.Options
import Spigeon.Proof.Output
import Spigeon.Proof.Owner
import Spigeon.Proof.Path
import Spigeon.Proof.Queue
import Spigeon.Proof.Quote
import Spigeon.Proof.Recv
import Spigeon.Proof.Removal
import Spigeon.Proof.Replies
import Spigeon.Proof.Room
import Spigeon.Proof.Sds
import Spigeon.Proof.SdsOps
import Spigeon.Proof.SdsText
import Spigeon.Proof.Server
import Spigeon.Proof.Stat
import Spigeon.Proof.StatAll
import Spigeon.Proof.StatDestroy
import Spigeon.Proof.StatRuns
import Spigeon.Proof.System
import Spigeon.Proof.Table
import Spigeon.Proof.Timeout
import Spigeon.Proof.Udp
import Spigeon.Proof.UrlBounds
import Spigeon.Proof.UrlInt
import Spigeon.Proof.UrlPieces
import Spigeon.Proof.UrlPrintf
import Spigeon.Proof.UrlText
import Spigeon.Proof.Worker
