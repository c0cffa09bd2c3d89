import FlexNet.Lib.Runs
import FlexNet.Lib.KeyedTable
import FlexNet.Lib.Sweep
import FlexNet.Lib.TokenBucket
import FlexNet.Wire.Octets
import FlexNet.Wire.Compact
import FlexNet.Node.State
import FlexNet.Node.Expected
import FlexNet.Node.Decision
import FlexNet.Node.Drain
import FlexNet.Node.Advertise
import FlexNet.Node.Dests
import FlexNet.Node.LinkTime
import FlexNet.Node.Sessions
import FlexNet.Wire.Frames
import FlexNet.Wire.RoundTrip
import FlexNet.Node.Process
import FlexNet.Node.Events
import FlexNet.Advert.Entries
import FlexNet.Advert.Emission
import FlexNet.Advert.Machine
import FlexNet.Advert.Evolves
import FlexNet.Advert.Refinement
import FlexNet.Advert.Steps
import FlexNet.Advert.Loops
import FlexNet.Advert.BlackHole
import FlexNet.Advert.SplitHorizon
import FlexNet.Advert.WireTruth
import FlexNet.Advert.Quiesce
import FlexNet.Advert.Silence
import FlexNet.Advert.Answer
import FlexNet.Routing.Service
import FlexNet.Routing.Machine
import FlexNet.Routing.Refinement
import FlexNet.Routing.Stations
import FlexNet.Routing.Effects
import FlexNet.Routing.LiveHops
import FlexNet.Routing.Attribution
import FlexNet.Routing.Rebinding
import FlexNet.Routing.OneSession
import FlexNet.Path.Frames
import FlexNet.Path.Layer
import FlexNet.Path.Answers
import FlexNet.Path.Probes
import FlexNet.Path.Traversal
import FlexNet.Path.Line
import FlexNet.L2.Frames
import FlexNet.L2.Transit
import FlexNet.L2.Circuits
import FlexNet.L2.OwnHops
import FlexNet.L2.Pairs
import FlexNet.L2.Replies
import FlexNet.Advert.Packing
import FlexNet.Advert.Bucket
import FlexNet.Advert.HoldDown
import FlexNet.L2.Hops
import FlexNet.L2.Ways
import FlexNet.L2.PinStable
import FlexNet.Setup.Directives
import FlexNet.Setup.Locals
import FlexNet.Setup.Calls
import FlexNet.Setup.Listed
import FlexNet.Setup.OwnRecords
import FlexNet.Setup.InitRange
import FlexNet.Advert.Options
import FlexNet.Exchange.Speech
import FlexNet.Exchange.Gates
import FlexNet.Exchange.Handled
import FlexNet.Exchange.Paths
import FlexNet.Exchange.Pair
import FlexNet.Exchange.Stamps
import FlexNet.Exchange.Inits
import FlexNet.Path.Demand
import FlexNet.Path.RoundTrip
import FlexNet.Path.Onward
import FlexNet.L2.Resolver
import FlexNet.L2.NetRom
import FlexNet.Path.OwnAnswers
import FlexNet.Exchange.Understood
import FlexNet.Advert.Climb
import FlexNet.Advert.Ladder
import FlexNet.Routing.Offers
import FlexNet.Exchange.Handshake
import FlexNet.Exchange.Reseed
import FlexNet.Lib.Backoff
import FlexNet.Links.Seats
import FlexNet.Links.Found
import FlexNet.Links.Filter
import FlexNet.Links.Keeper
import FlexNet.Links.Reaper
import FlexNet.L2.Reclaim
import FlexNet.L2.Declines
import FlexNet.L2.Connects
import FlexNet.L2.Places
import FlexNet.L2.Line
import FlexNet.Datalink.Pair
import FlexNet.L2.Chains
import FlexNet.Routing.Penalty
import FlexNet.L3.Rtt
import FlexNet.Path.Parked
import FlexNet.L2.Buffers
import FlexNet.Lib.Text
import FlexNet.Lib.FirstFree
import FlexNet.Lib.Smoothing
import FlexNet.Path.CacheFile
import FlexNet.Path.Table
import FlexNet.Path.Sysop
import FlexNet.Path.Numbers
import FlexNet.Path.Restart
import FlexNet.Exchange.Retold
import FlexNet.Exchange.Seeds
import FlexNet.Exchange.Ticked
import FlexNet.Exchange.Restarted
import FlexNet.Setup.Declared
import FlexNet.Network.Agree
